import Mathlib.Data.List.Basic
import Mathlib.Logic.Function.Basic
import H2agent.StepRunProofs

/-! # What is read back from a file that was written

    `FileManager` keeps one `SafeFile` per path, and one stream of it serves the
    writes, the truncations and the reads.  The calls come one after the other
    here, and the close a delayed write has left to its timer runs between them;
    what happens when it runs in the middle of a call is settled in
    `SafeFileWritesProofs`.

    A read gives back what was written with two exceptions, and they are all of
    them: `std::getline` takes the line feeds away, and a stream that is still
    open for appending is not opened again, so that nothing at all is read.

    * `SafeFile.open` .. `SafeFile.write`, `FileManager.write` .. `read`: the calls;
    * `getlines_eq`: the loop of `read` drops the line feeds and nothing else;
    * `view_step`, `view_run`: between calls a path is its content and whether its
      close is pending;
    * `read_back_iff`: when the round trip holds. -/

namespace H2FileManager

open StepRun

abbrev Bytes := List UInt8

/-! ## The file system -/

/-- The open modes in use.  Text and binary files are the same on POSIX systems. -/
inductive OpenMode where
  | append (binary : Bool)
  | truncate
  | input (binary : Bool)
  deriving DecidableEq, Repr

/-- What the system keeps for a path: the content, none when there is no such file,
    and whether the process may open it for reading and for writing. -/
structure OnDisk where
  content : Option Bytes
  readable : Bool
  writable : Bool
  deriving DecidableEq, Repr

/-- Opening creates a file that is to be written; a file that is to be read must exist. -/
def OnDisk.opened (d : OnDisk) : OpenMode → Option OnDisk
  | .append _ => if d.writable then some { d with content := some (d.content.getD []) } else none
  | .truncate => if d.writable then some { d with content := some [] } else none
  | .input _ => if d.readable && d.content.isSome then some d else none

/-! ## One file -/

/-- `mode` is the mode of the stream while it is open, which is when `opened_` is set. -/
structure SafeFile where
  mode : Option OpenMode
  readCached : Bool
  data : Bytes
  deriving DecidableEq, Repr

namespace SafeFile

/-- `open`: a stream that is open stays as it is, whatever the mode asked for. -/
def «open» (f : SafeFile) (d : OnDisk) (mode : OpenMode) : Bool × SafeFile × OnDisk :=
  match f.mode with
  | some _ => (true, f, d)
  | none =>
      match d.opened mode with
      | some d' => (true, { f with mode := some mode }, d')
      | none => (false, f, d)

/-- `close`. -/
def close (f : SafeFile) : SafeFile := { f with mode := none }

/-- The constructor. -/
def construct (d : OnDisk) (mode : OpenMode) : SafeFile × OnDisk :=
  (SafeFile.open ⟨none, false, []⟩ d mode).2

/-- `empty`. -/
def empty (f : SafeFile) (d : OnDisk) : SafeFile × OnDisk :=
  let r := f.close.open d .truncate
  (r.2.1.close, r.2.2)

/-- `file_.write`: a stream that is closed, or open for input, takes nothing. -/
def put (f : SafeFile) (d : OnDisk) (data : Bytes) : OnDisk :=
  match f.mode with
  | some (.append _) | some .truncate => { d with content := some (d.content.getD [] ++ data) }
  | _ => d

/-- `write`.  `timers` is whether there is an `io_context` for the delayed close. -/
def write (timers : Bool) (f : SafeFile) (d : OnDisk) (data : Bytes) (closeDelayUs : Nat) :
    SafeFile × OnDisk :=
  let r := f.open d (.append false)
  if r.1 then
    if timers && closeDelayUs != 0 then (r.2.1, r.2.1.put r.2.2 data)
    else (r.2.1.close, r.2.1.put r.2.2 data)
  else r.2

/-- `'\n'`. -/
def lineFeed : UInt8 := 10

/-- `std::getline`: the bytes up to the next line feed, which is taken and dropped, and
    the rest; it fails when nothing is left. -/
def getline : Bytes → Option (Bytes × Bytes)
  | [] => none
  | b :: bs => some ((b :: bs).takeWhile (· != lineFeed), ((b :: bs).dropWhile (· != lineFeed)).drop 1)

theorem getline_shorter {bs chunk rest : Bytes} (h : getline bs = some (chunk, rest)) :
    rest.length < bs.length := by
  cases bs with
  | nil => simp [getline] at h
  | cons b bs =>
      simp only [getline, Option.some.injEq, Prod.mk.injEq] at h
      obtain ⟨-, rfl⟩ := h
      by_cases hb : b = lineFeed
      · simp [hb]
      · have hdrop := (List.dropWhile_sublist (· != lineFeed) (l := bs)).length_le
        simp only [bne_iff_ne, ne_eq, hb, not_false_eq_true, List.dropWhile_cons_of_pos,
          List.length_drop, List.length_cons]
        omega

/-- `while (std::getline(file_, chunk)) result += chunk;` -/
def getlines (bs : Bytes) : Bytes :=
  match h : getline bs with
  | none => []
  | some (chunk, rest) =>
      have : rest.length < bs.length := getline_shorter h
      chunk ++ getlines rest
termination_by bs.length

/-- What the loop of `read` gets out of the stream: a stream that is not open for input
    fails at once. -/
def lines (f : SafeFile) (d : OnDisk) : Bytes :=
  match f.mode with
  | some (.input _) => getlines (d.content.getD [])
  | _ => []

/-- `read`: the success, the content, and the file afterwards. -/
def read (f : SafeFile) (d : OnDisk) (mode : OpenMode) (cached : Bool) :
    Bool × Bytes × SafeFile × OnDisk :=
  if cached && f.readCached then (true, f.data, f, d)
  else
    let r := f.open d mode
    let result := if r.1 then r.2.1.lines r.2.2 else []
    if cached then
      (r.1, result, { r.2.1.close with readCached := r.1, data := result }, r.2.2)
    else (r.1, result, r.2.1.close, r.2.2)

end SafeFile

/-! ## The manager -/

/-- A path: the `SafeFile` the manager keeps for it, if there is one, and the disk. -/
structure PathState where
  file : Option SafeFile
  disk : OnDisk
  deriving DecidableEq, Repr

/-- The paths of a manager. -/
abbrev FileManager := String → PathState

namespace FileManager

/-- A manager without files yet. -/
def initial (disk : String → OnDisk) : FileManager := fun path => ⟨none, disk path⟩

end FileManager

namespace PathState

/-- `get`, and the construction of a file that is not there. -/
def obtain (s : PathState) (mode : OpenMode) : SafeFile × OnDisk :=
  match s.file with
  | some f => (f, s.disk)
  | none => SafeFile.construct s.disk mode

/-- `FileManager::write` on the path. -/
def write (timers : Bool) (s : PathState) (data : Bytes) (textOrBinary : Bool)
    (closeDelayUs : Nat) : PathState :=
  let r := s.obtain (.append (!textOrBinary))
  let w := r.1.write timers r.2 data closeDelayUs
  ⟨some w.1, w.2⟩

/-- `FileManager::empty` on the path. -/
def empty (s : PathState) : PathState :=
  let r := s.obtain (.append false)
  let w := r.1.empty r.2
  ⟨some w.1, w.2⟩

/-- `FileManager::read` on the path: success, content and the path afterwards.  The
    mode is a binary one only for a file that is not there yet. -/
def read (s : PathState) (textOrBinary : Bool) (readCache : Bool) : Bool × Bytes × PathState :=
  let mode : OpenMode := if s.file.isSome then .input false else .input (!textOrBinary)
  let r := s.obtain mode
  let w := r.1.read r.2 mode readCache
  (w.1, w.2.1, ⟨some w.2.2.1, w.2.2.2⟩)

/-- The handler of the timer. -/
def expire (s : PathState) : PathState := { s with file := s.file.map SafeFile.close }

end PathState

/-- The calls on a manager, and the delayed closes.  `readCache` is what `read_cache_`
    is at the call. -/
inductive Event where
  | write (path : String) (data : Bytes) (textOrBinary : Bool) (closeDelayUs : Nat)
  | empty (path : String)
  | read (path : String) (textOrBinary : Bool) (readCache : Bool)
  | expire (path : String)
  deriving DecidableEq, Repr

namespace Event

def path : Event → String
  | write path _ _ _ | empty path | read path _ _ | expire path => path

/-- What the event does to its path. -/
def effect (timers : Bool) (s : PathState) : Event → PathState
  | write _ data textOrBinary closeDelayUs => s.write timers data textOrBinary closeDelayUs
  | empty _ => s.empty
  | read _ textOrBinary readCache => (s.read textOrBinary readCache).2.2
  | expire _ => s.expire

end Event

namespace FileManager

def step (timers : Bool) (m : FileManager) (e : Event) : FileManager :=
  Function.update m e.path (e.effect timers (m e.path))

end FileManager

/-! ## The round trip -/

/-- The content that is expected for a path: the data written to it since the last time
    it was emptied, after what was in it when it never was. -/
def expected (path : String) : Bytes → List Event → Bytes
  | content, [] => content
  | content, .write p data _ _ :: es =>
      expected path (if p = path then content ++ data else content) es
  | content, .empty p :: es => expected path (if p = path then [] else content) es
  | content, _ :: es => expected path content es

/-- The content of a path before the calls; a file that does not exist has none. -/
def FileManager.content (m : FileManager) (path : String) : Bytes :=
  (m path).disk.content.getD []

/-- A read without cache after the calls succeeds and returns the expected content. -/
def ReadsBack (timers : Bool) (m : FileManager) (calls : List Event) (path : String)
    (textOrBinary : Bool) : Prop :=
  let r := (run (FileManager.step timers) m calls path).read textOrBinary false
  r.1 = true ∧ r.2.1 = expected path (m.content path) calls

/-- No read of the calls goes to the read cache. -/
def CacheDisabled (calls : List Event) : Prop :=
  ∀ path textOrBinary, Event.read path textOrBinary true ∉ calls

/-- Whether some call writes the path or empties it. -/
def touched (path : String) (calls : List Event) : Bool :=
  calls.any fun
    | .write p _ _ _ | .empty p => p == path
    | _ => false

/-- Whether the close of the path is pending: its last event is a write that has left the
    close to the timer. -/
def closePending (timers : Bool) (path : String) : Bool → List Event → Bool
  | pending, [] => pending
  | pending, .write p _ _ closeDelayUs :: es =>
      closePending timers path (if p = path then timers && closeDelayUs != 0 else pending) es
  | pending, .empty p :: es | pending, .read p _ _ :: es | pending, .expire p :: es =>
      closePending timers path (if p = path then false else pending) es

/-- Whether the stream of a path is open. -/
def PathState.pending (s : PathState) : Bool := s.file.any fun f => f.mode.isSome

/-- When the round trip holds.  A pending close leaves nothing to read; otherwise the
    file must be there, and what is expected has no line feed (a file that cannot be
    written has to read as expected already). -/
def ReadableBack (timers : Bool) (s : PathState) (calls : List Event) (path : String) : Prop :=
  let content := expected path (s.disk.content.getD []) calls
  if s.disk.writable && closePending timers path s.pending calls then content = []
  else
    s.disk.readable = true ∧
    if s.disk.writable then
      (s.disk.content.isSome || touched path calls) = true ∧ SafeFile.lineFeed ∉ content
    else
      s.disk.content.isSome = true ∧
        (s.disk.content.getD []).filter (· != SafeFile.lineFeed) = content

/-! ## The loop of the read -/

theorem SafeFile.getlines_nil : SafeFile.getlines [] = [] := by
  rw [SafeFile.getlines]
  rfl

theorem SafeFile.getlines_cons (b : UInt8) (bs : Bytes) :
    SafeFile.getlines (b :: bs)
      = (b :: bs).takeWhile (· != lineFeed)
        ++ SafeFile.getlines (((b :: bs).dropWhile (· != lineFeed)).drop 1) := by
  rw [SafeFile.getlines]
  rfl

/-- A line is the bytes before its line feed, so taking lines drops the line feeds. -/
theorem SafeFile.getlines_eq (bs : Bytes) :
    SafeFile.getlines bs = bs.filter (· != lineFeed) := by
  induction bs with
  | nil => exact getlines_nil
  | cons b bs ih =>
      rw [getlines_cons]
      by_cases hb : b = lineFeed
      · simp [hb, ih]
      · -- the first byte of a line belongs to the line the rest begins with
        have hline : SafeFile.getlines bs
            = bs.takeWhile (· != lineFeed) ++ SafeFile.getlines ((bs.dropWhile (· != lineFeed)).drop 1) := by
          cases bs with
          | nil => simp [getlines_nil]
          | cons c cs => exact getlines_cons c cs
        rw [hline] at ih
        have hne : (b != lineFeed) = true := by simpa using hb
        simp only [List.takeWhile_cons, List.dropWhile_cons, List.filter_cons, hne, if_true,
          List.cons_append, ih]

/-! ## A path between calls -/

/-- Between calls a stream that is open is open for appending, on a file that is there. -/
def Settled (s : PathState) : Prop :=
  ∀ f, s.file = some f → ∀ mode, f.mode = some mode →
    (∃ binary, mode = .append binary) ∧ s.disk.writable = true ∧ s.disk.content.isSome = true

/-- What matters of a path between calls. -/
structure View where
  content : Option Bytes
  pending : Bool
  readable : Bool
  writable : Bool

def view (s : PathState) : View :=
  ⟨s.disk.content, s.pending, s.disk.readable, s.disk.writable⟩

/-- What an event of the path does to what matters of it. -/
def View.next (timers : Bool) (v : View) : Event → View
  | .write _ data _ closeDelayUs =>
      if v.writable then
        { v with content := some (v.content.getD [] ++ data), pending := timers && closeDelayUs != 0 }
      else { v with pending := false }
  | .empty _ =>
      { v with content := if v.writable then some [] else v.content, pending := false }
  | _ => { v with pending := false }

/-- A path between calls: no file yet, a closed one, or one open for appending. -/
theorem Settled.cases {s : PathState} (h : Settled s) :
    s.file = none ∨ (∃ f, s.file = some f ∧ f.mode = none) ∨
      ∃ f binary bytes, s.file = some f ∧ f.mode = some (.append binary) ∧
        s.disk.writable = true ∧ s.disk.content = some bytes := by
  cases hfile : s.file with
  | none => exact Or.inl rfl
  | some f =>
      cases hmode : f.mode with
      | none => exact Or.inr (Or.inl ⟨f, rfl, hmode⟩)
      | some mode =>
          obtain ⟨⟨binary, rfl⟩, hwritable, hcontent⟩ := h f hfile mode hmode
          obtain ⟨bytes, hbytes⟩ := Option.isSome_iff_exists.mp hcontent
          exact Or.inr (Or.inr ⟨f, binary, bytes, rfl, hmode, hwritable, hbytes⟩)

theorem settled_closed {s : PathState} (h : s.pending = false) : Settled s := by
  intro f hfile mode hmode
  simp [PathState.pending, hfile, hmode] at h

/-- What a write finds: its own `open` and the constructor before it come to one. -/
theorem write_view (timers : Bool) {s : PathState} (h : Settled s) (data : Bytes)
    (textOrBinary : Bool) (closeDelayUs : Nat) (p : String) :
    view (s.write timers data textOrBinary closeDelayUs)
        = (view s).next timers (.write p data textOrBinary closeDelayUs) ∧
      Settled (s.write timers data textOrBinary closeDelayUs) := by
  obtain ⟨file, content, readable, writable⟩ := s
  rcases h.cases with hfile | ⟨f, hfile, hmode⟩ | ⟨f, binary, bytes, hfile, hmode, hwritable, hcontent⟩
  · simp only at hfile
    subst hfile
    cases writable <;> cases hdelay : timers && closeDelayUs != 0 <;>
      simp [view, View.next, PathState.write, PathState.obtain, SafeFile.construct, SafeFile.open,
        SafeFile.write, SafeFile.put, SafeFile.close, OnDisk.opened, PathState.pending, Settled, hdelay]
  · simp only at hfile
    subst hfile
    cases writable <;> cases hdelay : timers && closeDelayUs != 0 <;>
      simp [view, View.next, PathState.write, PathState.obtain, SafeFile.open,
        SafeFile.write, SafeFile.put, SafeFile.close, OnDisk.opened, PathState.pending, Settled,
        hdelay, hmode]
  · simp only at hfile hwritable hcontent
    subst hfile hwritable hcontent
    cases hdelay : timers && closeDelayUs != 0 <;>
      simp [view, View.next, PathState.write, PathState.obtain, SafeFile.open,
        SafeFile.write, SafeFile.put, SafeFile.close, PathState.pending, Settled,
        hdelay, hmode]

theorem empty_view (timers : Bool) {s : PathState} (h : Settled s) (p : String) :
    view s.empty = (view s).next timers (.empty p) ∧ Settled s.empty := by
  obtain ⟨file, content, readable, writable⟩ := s
  rcases h.cases with hfile | ⟨f, hfile, hmode⟩ | ⟨f, binary, bytes, hfile, hmode, hwritable, hcontent⟩
  · simp only at hfile
    subst hfile
    cases writable <;>
      simp [view, View.next, PathState.empty, PathState.obtain, SafeFile.construct, SafeFile.open,
        SafeFile.empty, SafeFile.close, OnDisk.opened, PathState.pending, Settled]
  · simp only at hfile
    subst hfile
    cases writable <;>
      simp [view, View.next, PathState.empty, PathState.obtain, SafeFile.open,
        SafeFile.empty, SafeFile.close, OnDisk.opened, PathState.pending, Settled, hmode]
  · simp only at hfile hwritable hcontent
    subst hfile hwritable hcontent
    simp [view, View.next, PathState.empty, PathState.obtain, SafeFile.open,
      SafeFile.empty, SafeFile.close, OnDisk.opened, PathState.pending, Settled]

/-- A read without cache: what it answers and what it leaves. -/
theorem read_view {s : PathState} (h : Settled s) (textOrBinary : Bool) :
    s.read textOrBinary false
        = (s.pending || (s.disk.readable && s.disk.content.isSome),
            if s.pending || !(s.disk.readable && s.disk.content.isSome) then []
            else (s.disk.content.getD []).filter (· != SafeFile.lineFeed),
            (s.read textOrBinary false).2.2) ∧
      view (s.read textOrBinary false).2.2 = { view s with pending := false } := by
  obtain ⟨file, content, readable, writable⟩ := s
  rcases h.cases with hfile | ⟨f, hfile, hmode⟩ | ⟨f, binary, bytes, hfile, hmode, hwritable, hcontent⟩
  · simp only at hfile
    subst hfile
    cases hreadable : readable && content.isSome <;>
      simp [view, PathState.read, PathState.obtain, SafeFile.construct, SafeFile.open,
        SafeFile.read, SafeFile.lines, SafeFile.close, OnDisk.opened, PathState.pending,
        SafeFile.getlines_eq, hreadable]
  · simp only at hfile
    subst hfile
    cases hreadable : readable && content.isSome <;>
      simp [view, PathState.read, PathState.obtain, SafeFile.open,
        SafeFile.read, SafeFile.lines, SafeFile.close, OnDisk.opened, PathState.pending,
        SafeFile.getlines_eq, hreadable, hmode]
  · simp only at hfile hwritable hcontent
    subst hfile hwritable hcontent
    simp [view, PathState.read, PathState.obtain, SafeFile.open, SafeFile.read, SafeFile.lines,
      SafeFile.close, PathState.pending, hmode]

theorem expire_view {s : PathState} : view s.expire = { view s with pending := false } := by
  obtain ⟨file, content, readable, writable⟩ := s
  cases file <;> simp [view, PathState.expire, PathState.pending, SafeFile.close]

/-- An event of a path that does not go to the read cache. -/
theorem effect_view (timers : Bool) {s : PathState} (h : Settled s) (e : Event)
    (hcache : ∀ p textOrBinary, e ≠ .read p textOrBinary true) :
    view (e.effect timers s) = (view s).next timers e := by
  cases e with
  | write p data textOrBinary closeDelayUs =>
      exact (write_view timers h data textOrBinary closeDelayUs p).1
  | empty p => exact (empty_view timers h p).1
  | read p textOrBinary readCache =>
      cases readCache with
      | true => exact absurd rfl (hcache p textOrBinary)
      | false => exact (read_view h textOrBinary).2
  | expire p => exact expire_view

theorem SafeFile.read_closed {f : SafeFile} {cached : Bool} (h : (cached && f.readCached) = false)
    (d : OnDisk) (mode : OpenMode) : (f.read d mode cached).2.2.1.mode = none := by
  cases cached <;> simp [SafeFile.read, SafeFile.close, h]

theorem SafeFile.construct_uncached (d : OnDisk) (mode : OpenMode) :
    (SafeFile.construct d mode).1.readCached = false := by
  simp only [SafeFile.construct, SafeFile.open]
  split <;> rfl

/-- A read leaves a closed file, unless the cache answers and nothing changes. -/
theorem read_settled {s : PathState} (h : Settled s) (textOrBinary readCache : Bool) :
    Settled (s.read textOrBinary readCache).2.2 := by
  obtain ⟨file, disk⟩ := s
  cases file with
  | none =>
      apply settled_closed
      simp [PathState.read, PathState.obtain, PathState.pending, SafeFile.read_closed,
        SafeFile.construct_uncached]
  | some f =>
      cases hcached : readCache && f.readCached with
      | true => simpa [PathState.read, PathState.obtain, SafeFile.read, hcached] using h
      | false =>
          apply settled_closed
          simp [PathState.read, PathState.obtain, PathState.pending, SafeFile.read_closed hcached]

theorem effect_settled (timers : Bool) {s : PathState} (h : Settled s) (e : Event) :
    Settled (e.effect timers s) := by
  cases e with
  | write p data textOrBinary closeDelayUs =>
      exact (write_view timers h data textOrBinary closeDelayUs p).2
  | empty p => exact (empty_view timers h p).2
  | read p textOrBinary readCache => exact read_settled h textOrBinary readCache
  | expire p =>
      apply settled_closed
      exact congrArg View.pending (expire_view (s := s))

/-! ## Runs -/

theorem step_settled (timers : Bool) (m : FileManager) (e : Event) (h : ∀ path, Settled (m path)) :
    ∀ path, Settled (m.step timers e path) := by
  intro path
  by_cases hpath : path = e.path
  · rw [hpath, FileManager.step, Function.update_self]
    exact effect_settled timers (h e.path) e
  · rw [FileManager.step, Function.update_of_ne hpath]
    exact h path

/-- In a manager that is reached by calls, no path is left in the middle of one. -/
theorem run_settled (timers : Bool) (disk : String → OnDisk) (history : List Event) :
    ∀ path, Settled (run (FileManager.step timers) (FileManager.initial disk) history path) := by
  have hinitial : ∀ path, Settled (FileManager.initial disk path) := fun path => settled_closed rfl
  exact run_invariant (I := fun m : FileManager => ∀ path, Settled (m path)) (step_settled timers)
    history _ hinitial

theorem Settled.writable_of_pending {s : PathState} (h : Settled s) (hpending : s.pending = true) :
    s.disk.writable = true := by
  rcases h.cases with hfile | ⟨f, hfile, hmode⟩ | ⟨f, binary, bytes, hfile, hmode, hwritable, hcontent⟩
  · simp [PathState.pending, hfile] at hpending
  · simp [PathState.pending, hfile, hmode] at hpending
  · exact hwritable

theorem expected_untouched {path : String} {calls : List Event} (h : touched path calls = false)
    (content : Bytes) : expected path content calls = content := by
  induction calls with
  | nil => rfl
  | cons e es ih =>
      simp only [touched, List.any_cons, Bool.or_eq_false_iff] at h
      cases e <;> simp_all [expected, touched]

/-- What calls leave of a path: the content that is expected once they touch it, and
    the pending close of the last write. -/
def View.after (timers : Bool) (path : String) (v : View) (calls : List Event) : View where
  content :=
    if v.writable && touched path calls then some (expected path (v.content.getD []) calls)
    else v.content
  pending := v.writable && closePending timers path v.pending calls
  readable := v.readable
  writable := v.writable

theorem View.after_cons (timers : Bool) (v : View) (e : Event) (es : List Event) :
    (v.next timers e).after timers e.path es = v.after timers e.path (e :: es) := by
  obtain ⟨content, pending, readable, writable⟩ := v
  cases writable with
  | false => cases e <;> simp [View.after, View.next]
  | true =>
      cases ht : touched e.path es with
      | true =>
          cases e <;>
            simp_all [View.after, View.next, Event.path, expected, touched, closePending]
      | false =>
          have hexpected := expected_untouched ht
          cases e <;>
            simp_all [View.after, View.next, Event.path, expected, touched, closePending]

theorem View.after_cons_ne (timers : Bool) (v : View) {path : String} {e : Event}
    (hpath : e.path ≠ path) (es : List Event) :
    v.after timers path es = v.after timers path (e :: es) := by
  cases e <;> simp_all [View.after, Event.path, expected, touched, closePending]

theorem view_run (timers : Bool) {m : FileManager} (hm : ∀ path, Settled (m path))
    {calls : List Event} (hcache : CacheDisabled calls) (path : String) :
    view (run (FileManager.step timers) m calls path) = (view (m path)).after timers path calls := by
  induction calls generalizing m with
  | nil =>
      have hpending := (hm path).writable_of_pending
      cases hp : (m path).pending <;> simp_all [view, View.after, touched, closePending]
  | cons e es ih =>
      have hcache' : CacheDisabled es := fun p t hmem => hcache p t (List.mem_cons_of_mem e hmem)
      have hne : ∀ p t, e ≠ .read p t true := fun p t heq => hcache p t (heq ▸ List.mem_cons_self)
      rw [run_cons, ih (step_settled timers m e hm) hcache']
      by_cases hpath : e.path = path
      · subst hpath
        rw [FileManager.step, Function.update_self, effect_view timers (hm e.path) e hne,
          View.after_cons]
      · rw [FileManager.step, Function.update_of_ne (Ne.symm hpath), View.after_cons_ne timers _ hpath es]

theorem forall_ne_lineFeed (bs : Bytes) :
    (∀ b ∈ bs, ¬ b = SafeFile.lineFeed) ↔ SafeFile.lineFeed ∉ bs := by
  constructor
  · intro h hmem
    exact h _ hmem rfl
  · rintro h b hb rfl
    exact h hb

/-- In every manager that calls can reach, a sequence of calls (on the path, and on any
    others) reads back what was written exactly when no close of the path is pending
    unless nothing is expected, the file is there to be read and what is expected has no
    line feed. -/
theorem read_back_iff (timers : Bool) (disk : String → OnDisk) (history calls : List Event)
    (hcache : CacheDisabled calls) (path : String) (textOrBinary : Bool) :
    ReadsBack timers (run (FileManager.step timers) (FileManager.initial disk) history) calls path
        textOrBinary ↔
      ReadableBack timers (run (FileManager.step timers) (FileManager.initial disk) history path)
        calls path := by
  have hm := run_settled timers disk history
  generalize run (FileManager.step timers) (FileManager.initial disk) history = m at hm ⊢
  have hsettled : Settled (run (FileManager.step timers) m calls path) :=
    run_invariant (I := fun m : FileManager => ∀ path, Settled (m path)) (step_settled timers)
      calls m hm path
  have hview := view_run timers hm hcache path
  have hcontent := congrArg View.content hview
  have hpending := congrArg View.pending hview
  have hreadable := congrArg View.readable hview
  simp only [view, View.after] at hcontent hpending hreadable
  simp only [ReadsBack, ReadableBack, FileManager.content]
  rw [(read_view hsettled textOrBinary).1, hcontent, hpending, hreadable]
  rcases Bool.eq_false_or_eq_true (m path).disk.writable with hw | hw
  · rcases Bool.eq_false_or_eq_true (closePending timers path (m path).pending calls) with hp | hp
    · simp [hw, hp]
    · rcases Bool.eq_false_or_eq_true (touched path calls) with ht | ht
      · by_cases hr : (m path).disk.readable = true <;> simp [hw, hp, ht, hr, forall_ne_lineFeed]
      · rw [expected_untouched ht]
        cases (m path).disk.content <;> by_cases hr : (m path).disk.readable = true <;>
          simp [hw, hp, ht, hr, forall_ne_lineFeed]
  · -- nothing has been written
    cases (m path).disk.content <;> by_cases hr : (m path).disk.readable = true <;>
      simp [hw, hr]

/-- Two writes, the second one after the file was emptied, the first close left to the timer. -/
def written : List Event :=
  [.write "f" [104, 105] true 1000, .empty "f", .write "f" [104, 111] false 0]

theorem written_read_back :
    CacheDisabled written ∧
      ReadsBack true (FileManager.initial fun _ => ⟨none, true, true⟩) written "f" true := by
  have hcache : CacheDisabled written := by simp [CacheDisabled, written]
  refine ⟨hcache, (read_back_iff true (fun _ => ⟨none, true, true⟩) [] written hcache "f" true).mpr ?_⟩
  simp [ReadableBack, written, FileManager.initial, closePending, expected, touched,
    SafeFile.lineFeed]

/-- A line that is written comes back without its line feed, and nothing comes back
    while the close is pending. -/
theorem line_feed_lost :
    ¬ ReadsBack true (FileManager.initial fun _ => ⟨none, true, true⟩)
        [.write "f" [104, 105, 10] true 0] "f" true ∧
    ¬ ReadsBack true (FileManager.initial fun _ => ⟨none, true, true⟩)
        [.write "f" [104, 105] true 1000] "f" true := by
  constructor
  · simp [ReadsBack, FileManager.initial, FileManager.step, FileManager.content, Event.effect,
      Event.path, PathState.write, PathState.read, PathState.obtain, SafeFile.construct,
      SafeFile.open, SafeFile.write, SafeFile.read, SafeFile.put, SafeFile.close, SafeFile.lines,
      SafeFile.getlines_eq, OnDisk.opened, expected, SafeFile.lineFeed]
  · simp [ReadsBack, FileManager.initial, FileManager.step, FileManager.content, Event.effect,
      Event.path, PathState.write, PathState.read, PathState.obtain, SafeFile.construct,
      SafeFile.open, SafeFile.write, SafeFile.read, SafeFile.put, SafeFile.close, SafeFile.lines,
      OnDisk.opened, expected]

end H2FileManager
