import Mathlib.Data.Finset.Basic
import Mathlib.Data.List.Nodup
import Mathlib.Data.List.Perm.Basic
import H2agent.LinearizationProofs
import H2agent.KeyProofs

/-! # Datagrams to Unix sockets

    `SocketManager::write` looks the path up, makes and adds a `SafeSocket` when there is
    none, and writes through it; a delayed write leaves a timer behind that holds the
    socket object by its address only.  Two first writes to one path can both find it
    missing; then two sockets are opened, the object of the first is dropped from the map,
    and it goes away with the last call that holds it.

    * `Opened` — where the objects are, and who still has to add one;
    * `Single` — as long as no two first writes overlap there is one object for a path;
    * `datagrams_accounted` — every datagram handed over was sent to its path, waits on a
      timer, or was lost to a timer whose socket was gone, which the counters tell apart;
    * `sockets_single` — exactly the runs without such an overlap open one socket for a
      path, and they lose nothing. -/

namespace H2Socket

open CppText H2Key Linearization StepRun

/-! ## Sockets and timers -/

/-- A `SafeSocket`: its path, and whether `socket` gave it a descriptor. -/
structure SafeSocket where
  path : String
  opened : Bool

/-- What is handed over to a socket. -/
structure Datagram where
  socket : Nat
  path : String
  data : String

/-- A call of `write`. -/
structure Write where
  path : String
  data : String
  writeDelayUs : Nat

/-- The operations counted. -/
structure Counters where
  openOperations : Nat := 0
  errorOpenOperations : Nat := 0
  writeOperations : Nat := 0
  delayedWriteOperations : Nat := 0
  instantWriteOperations : Nat := 0

/-- How far a call has come; from `made` on it holds a socket. -/
inductive Stage where
  | called
  | missing
  | made (n : Nat)
  | ready (n : Nat)
  | written (n : Nat)

/-- The socket a call holds. -/
def Stage.socket : Stage → Option Nat
  | .called | .missing => none
  | .made n | .ready n | .written n => some n

variable {ι : Type}

/-- The map, all sockets ever made, the calls that hold each, the call each thread is in,
    the timers, and what became of the datagrams. -/
structure State (ι : Type) where
  map : TextMap Nat := ∅
  sockets : List SafeSocket := []
  holders : Nat → Finset ι := fun _ => ∅
  thread : ι → Option (Write × Stage) := fun _ => none
  timers : List Datagram := []
  sent : List Datagram := []
  lost : List Datagram := []
  counters : Counters := {}

/-- A thread begins a call, or takes its next step, in which `socket` may fail; a timer
    expires. -/
inductive Act (ι : Type) where
  | call (i : ι) (w : Write)
  | step (i : ι) (opens : Bool)
  | expire (k : Nat)

/-- `path_` of a socket. -/
def State.pathOf (s : State ι) (n : Nat) : Option String := s.sockets[n]?.map SafeSocket.path

/-- The map has the socket. -/
def State.registered (s : State ι) (n : Nat) : Bool :=
  match s.pathOf n with
  | none => false
  | some path => s.map.lookup path == some n

section Steps

variable [DecidableEq ι]

/-- A socket is there as long as the map or a call has a pointer to it. -/
def State.alive (s : State ι) (n : Nat) : Bool := s.registered n || decide (s.holders n ≠ ∅)

def State.goto (s : State ι) (i : ι) (w : Write) (st : Stage) : State ι :=
  { s with thread := Function.update s.thread i (some (w, st)) }

/-- The calls that hold each socket, with one more. -/
def State.hold (s : State ι) (i : ι) (n : Nat) : Nat → Finset ι :=
  Function.update s.holders n (insert i (s.holders n))

/-- `open`. -/
def Counters.opening (c : Counters) (opens : Bool) : Counters :=
  if opens then { c with openOperations := c.openOperations + 1 }
  else { c with errorOpenOperations := c.errorOpenOperations + 1 }

/-- The counters of `SafeSocket::write`. -/
def Counters.writing (c : Counters) (writeDelayUs : Nat) (fromDelayed : Bool) : Counters :=
  if writeDelayUs = 0 then
    { c with
      writeOperations := c.writeOperations + 1
      instantWriteOperations :=
        if fromDelayed then c.instantWriteOperations else c.instantWriteOperations + 1 }
  else c

/-- `SafeSocket::write`: a delay is kept where there is something to time it with. -/
def State.write (s : State ι) (timersIoContext : Bool) (d : Datagram) (writeDelayUs : Nat)
    (fromDelayed : Bool) : State ι :=
  let counters := s.counters.writing writeDelayUs fromDelayed
  if timersIoContext ∧ writeDelayUs ≠ 0 then
    { s with
      timers := s.timers ++ [d]
      counters :=
        { counters with delayedWriteOperations := counters.delayedWriteOperations + 1 } }
  else { s with sent := s.sent ++ [d], counters := counters }

variable (timersIoContext : Bool)

/-- The next step of a call of `SocketManager::write`. -/
def advance (s : State ι) (i : ι) (w : Write) (opens : Bool) : Stage → State ι
  | .called =>
      match s.map.lookup w.path with
      | some n => { s with holders := s.hold i n }.goto i w (.ready n)
      | none => s.goto i w .missing
  | .missing =>
      { s with
        sockets := s.sockets ++ [SafeSocket.mk w.path opens]
        holders := s.hold i s.sockets.length
        counters := s.counters.opening opens }.goto i w (.made s.sockets.length)
  | .made n => { s with map := s.map.insert w.path n }.goto i w (.ready n)
  | .ready n =>
      (s.write timersIoContext ⟨n, (s.pathOf n).getD "", w.data⟩ w.writeDelayUs false).goto
        i w (.written n)
  | .written n =>
      { s with
        holders := Function.update s.holders n ((s.holders n).erase i)
        thread := Function.update s.thread i none }

/-- The function a timer was given; the object it was given may be gone. -/
def expire (s : State ι) (k : Nat) : State ι :=
  match s.timers[k]? with
  | none => s
  | some d =>
      let fired := { s with timers := s.timers.eraseIdx k }
      if s.alive d.socket then fired.write timersIoContext d 0 true
      else { fired with lost := s.lost ++ [d] }

def step (s : State ι) : Act ι → State ι
  | .call i w => if (s.thread i).isNone then s.goto i w .called else s
  | .step i opens =>
      match s.thread i with
      | none => s
      | some (w, st) => advance timersIoContext s i w opens st
  | .expire k => expire timersIoContext s k

/-- The datagram that a step hands over to a socket. -/
def handed (s : State ι) : Act ι → Option (String × String)
  | .step i _ =>
      match s.thread i with
      | some (w, .ready _) => some (w.path, w.data)
      | _ => none
  | _ => none

/-- A first write overlaps another one: the thread finds its path missing while another one
    that found it missing has not yet added its socket. -/
def Overlaps (s : State ι) : Act ι → Prop
  | .step i _ =>
      ∃ w, s.thread i = some (w, .called) ∧ s.map.lookup w.path = none
        ∧ ∃ j w' st, s.thread j = some (w', st) ∧ w'.path = w.path
          ∧ (st = .missing ∨ ∃ n, st = .made n)
  | _ => False

end Steps

/-! ## Small facts -/

section Facts

variable [DecidableEq ι] {s : State ι} {i j : ι} {w : Write} {st : Stage}

@[simp] theorem goto_thread_self (s : State ι) (i : ι) (w : Write) (st : Stage) :
    (s.goto i w st).thread i = some (w, st) := by
  show Function.update s.thread i _ i = _
  rw [Function.update_self]

theorem goto_thread_ne (s : State ι) (w : Write) (st : Stage) (h : j ≠ i) :
    (s.goto i w st).thread j = s.thread j := by
  show Function.update s.thread i _ j = _
  rw [Function.update_of_ne h]

omit [DecidableEq ι] in
/-- A write touches the timers, what is sent and the counters. -/
theorem write_frame (s : State ι) (timersIoContext : Bool) (d : Datagram) (delay : Nat)
    (fromDelayed : Bool) :
    (s.write timersIoContext d delay fromDelayed).map = s.map
      ∧ (s.write timersIoContext d delay fromDelayed).sockets = s.sockets
      ∧ (s.write timersIoContext d delay fromDelayed).holders = s.holders
      ∧ (s.write timersIoContext d delay fromDelayed).thread = s.thread
      ∧ (s.write timersIoContext d delay fromDelayed).lost = s.lost := by
  unfold State.write
  dsimp only
  split <;> exact ⟨rfl, rfl, rfl, rfl, rfl⟩

omit [DecidableEq ι] in
theorem pathOf_lt {n : Nat} {path : String} (h : s.pathOf n = some path) :
    n < s.sockets.length := by
  obtain ⟨k, hk, -⟩ := Option.map_eq_some_iff.mp h
  exact (List.getElem?_eq_some_iff.mp hk).1

end Facts

/-! ## Where the objects are -/

/-- A socket that was added to the map: its path is in the map, with it or another one, and
    nobody is about to add it. -/
structure Settled (s : State ι) (n : Nat) : Prop where
  path : ∃ path m, s.pathOf n = some path ∧ s.map.lookup path = some m
  added : ∀ i w, s.thread i ≠ some (w, .made n)

/-- What a call knows at a stage. -/
def Knows (s : State ι) (i : ι) (w : Write) : Stage → Prop
  | .called | .missing => True
  | .made n =>
      i ∈ s.holders n ∧ s.pathOf n = some w.path
        ∧ ∀ j w', s.thread j = some (w', .made n) → j = i
  | .ready n | .written n => i ∈ s.holders n ∧ s.pathOf n = some w.path ∧ Settled s n

/-- The datagrams that a socket was handed. -/
def State.datagrams (s : State ι) : List Datagram := s.sent ++ s.timers ++ s.lost

/-- Every socket was added to the map or is about to be; the map has each under its path;
    and a lost datagram's socket is no longer in the map. -/
structure Opened (s : State ι) : Prop where
  knows : ∀ i w st, s.thread i = some (w, st) → Knows s i w st
  mapped : ∀ path n, s.map.lookup path = some n → s.pathOf n = some path ∧ Settled s n
  added : ∀ n, n < s.sockets.length → (∃ i w, s.thread i = some (w, .made n)) ∨ Settled s n
  handed : ∀ d ∈ s.datagrams, s.pathOf d.socket = some d.path ∧ Settled s d.socket
  lost : ∀ d ∈ s.lost, s.map.lookup d.path ≠ some d.socket

theorem opened_initial : Opened ({} : State ι) where
  knows := by
    intro i w st hi
    cases hi
  mapped := by
    intro path n hn
    cases hn
  added := by
    intro n hn
    exact absurd hn (Nat.not_lt_zero n)
  handed := by
    intro d hd
    cases hd
  lost := by
    intro d hd
    cases hd

/-- What a step of thread `i` leaves of the sockets, the map and the other threads. -/
structure Grows (i : ι) (s s' : State ι) : Prop where
  sockets : s.sockets <+: s'.sockets
  map : ∀ path m, s.map.lookup path = some m → ∃ m', s'.map.lookup path = some m'
  others : ∀ j, j ≠ i → s'.thread j = s.thread j
  holders : ∀ j n, j ≠ i → j ∈ s.holders n → j ∈ s'.holders n
  made : ∀ w n, s'.thread i = some (w, .made n) →
    s.sockets.length ≤ n ∨ s.thread i = some (w, .made n)

namespace Grows

variable {s s' : State ι} {i : ι}

theorem pathOf (h : Grows i s s') {n : Nat} {path : String} (hn : s.pathOf n = some path) :
    s'.pathOf n = some path := by
  obtain ⟨rest, hrest⟩ := h.sockets
  unfold State.pathOf at hn ⊢
  obtain ⟨k, hk, hpath⟩ := Option.map_eq_some_iff.mp hn
  rw [← hrest, List.getElem?_append_left (List.getElem?_eq_some_iff.mp hk).1, hk,
    Option.map_some, hpath]

theorem settled (h : Grows i s s') {n : Nat} (hn : Settled s n) : Settled s' n := by
  obtain ⟨path, m, hpath, hm⟩ := hn.path
  obtain ⟨m', hm'⟩ := h.map path m hm
  refine ⟨⟨path, m', h.pathOf hpath, hm'⟩, ?_⟩
  intro j w hj
  by_cases hji : j = i
  · subst hji
    rcases h.made w n hj with hnew | hold
    · exact absurd (pathOf_lt hpath) (Nat.not_lt.mpr hnew)
    · exact hn.added j w hold
  · rw [h.others j hji] at hj
    exact hn.added j w hj

/-- **STEP LEMMA** for the objects: what a step has to say about its own thread, the map,
    the sockets and the datagrams. -/
theorem opened (hg : Grows i s s') (h : Opened s)
    (hown : ∀ w st, s'.thread i = some (w, st) → Knows s' i w st)
    (hmap : ∀ path n, s'.map.lookup path = some n →
      s.map.lookup path = some n ∨ (s'.pathOf n = some path ∧ Settled s' n))
    (hnew : ∀ n, n < s'.sockets.length →
      n < s.sockets.length ∨ ∃ w, s'.thread i = some (w, .made n))
    (hold : ∀ w n, s.thread i = some (w, .made n) →
      s'.thread i = some (w, .made n) ∨ Settled s' n)
    (hhanded : ∀ d ∈ s'.datagrams,
      d ∈ s.datagrams ∨ (s'.pathOf d.socket = some d.path ∧ Settled s' d.socket))
    (hlost : ∀ d ∈ s'.lost, s'.map.lookup d.path ≠ some d.socket) : Opened s' := by
  refine ⟨?_, ?_, ?_, ?_, hlost⟩
  · intro j w st hj
    by_cases hji : j = i
    · subst hji
      exact hown w st hj
    · have hj' : s.thread j = some (w, st) := (hg.others j hji).symm.trans hj
      have hbefore := h.knows j w st hj'
      cases st with
      | called | missing => exact True.intro
      | ready n =>
          obtain ⟨hholds, hpath, hsettled⟩ := hbefore
          exact ⟨hg.holders j n hji hholds, hg.pathOf hpath, hg.settled hsettled⟩
      | written n =>
          obtain ⟨hholds, hpath, hsettled⟩ := hbefore
          exact ⟨hg.holders j n hji hholds, hg.pathOf hpath, hg.settled hsettled⟩
      | made n =>
          obtain ⟨hholds, hpath, hone⟩ := hbefore
          refine ⟨hg.holders j n hji hholds, hg.pathOf hpath, ?_⟩
          intro k w' hk
          by_cases hki : k = i
          · -- only one thread has made this object
            subst hki
            exact absurd ((hown w' _ hk).2.2 j w hj) hji
          · exact hone k w' ((hg.others k hki).symm.trans hk)
  · intro path n hn
    rcases hmap path n hn with hbefore | hafter
    · obtain ⟨hpath, hsettled⟩ := h.mapped path n hbefore
      exact ⟨hg.pathOf hpath, hg.settled hsettled⟩
    · exact hafter
  · intro n hn
    rcases hnew n hn with hlt | ⟨w, hw⟩
    · rcases h.added n hlt with ⟨j, w, hj⟩ | hsettled
      · by_cases hji : j = i
        · subst hji
          rcases hold w n hj with hstill | hsettled
          · exact Or.inl ⟨j, w, hstill⟩
          · exact Or.inr hsettled
        · exact Or.inl ⟨j, w, (hg.others j hji).trans hj⟩
      · exact Or.inr (hg.settled hsettled)
    · exact Or.inl ⟨i, w, hw⟩
  · intro d hd
    rcases hhanded d hd with hbefore | hafter
    · obtain ⟨hpath, hsettled⟩ := h.handed d hbefore
      exact ⟨hg.pathOf hpath, hg.settled hsettled⟩
    · exact hafter

end Grows

/-! ## One step -/

section Step

variable [DecidableEq ι] {s : State ι} {i : ι} {w : Write} {timersIoContext : Bool}

omit [DecidableEq ι] in
/-- Where sockets, map, holders and threads stay, so does what is known of them. -/
theorem Opened.of_frame (h : Opened s) {s' : State ι} (hsockets : s'.sockets = s.sockets)
    (hmap : s'.map = s.map) (hholders : s'.holders = s.holders) (hthread : s'.thread = s.thread)
    (hhanded : ∀ d ∈ s'.datagrams, d ∈ s.datagrams)
    (hlost : ∀ d ∈ s'.lost, s.map.lookup d.path ≠ some d.socket) : Opened s' := by
  have hpath : ∀ n, s'.pathOf n = s.pathOf n := by
    intro n
    unfold State.pathOf
    rw [hsockets]
  have hsettled : ∀ {n}, Settled s n → Settled s' n := by
    intro n hn
    obtain ⟨path, m, hpathn, hm⟩ := hn.path
    refine ⟨⟨path, m, (hpath n).trans hpathn, ?_⟩, ?_⟩
    · rw [hmap]
      exact hm
    · intro j w' hj
      rw [hthread] at hj
      exact hn.added j w' hj
  refine ⟨?_, ?_, ?_, ?_, ?_⟩
  · intro j w' st hj
    rw [hthread] at hj
    have hbefore := h.knows j w' st hj
    cases st with
    | called | missing => exact True.intro
    | ready n | written n =>
        obtain ⟨hholds, hpathn, hset⟩ := hbefore
        refine ⟨?_, (hpath n).trans hpathn, hsettled hset⟩
        rw [hholders]
        exact hholds
    | made n =>
        obtain ⟨hholds, hpathn, hone⟩ := hbefore
        refine ⟨?_, (hpath n).trans hpathn, ?_⟩
        · rw [hholders]
          exact hholds
        · rw [hthread]
          exact hone
  · intro path n hn
    rw [hmap] at hn
    obtain ⟨hpathn, hset⟩ := h.mapped path n hn
    exact ⟨(hpath n).trans hpathn, hsettled hset⟩
  · intro n hn
    rw [hsockets] at hn
    rw [hthread]
    exact (h.added n hn).imp_right hsettled
  · intro d hd
    obtain ⟨hpathd, hset⟩ := h.handed d (hhanded d hd)
    exact ⟨(hpath d.socket).trans hpathd, hsettled hset⟩
  · intro d hd
    rw [hmap]
    exact hlost d hd

/-- A thread that makes no object goes on, and may come to hold one. -/
theorem Opened.goto (h : Opened s) {st : Stage} {holders : Nat → Finset ι}
    (hst : ∀ n, st ≠ .made n) (hnot : ∀ w n, s.thread i ≠ some (w, .made n))
    (hholders : ∀ j n, j ≠ i → j ∈ s.holders n → j ∈ holders n)
    (hknows : Grows i s ({ s with holders := holders }.goto i w st) →
      Knows ({ s with holders := holders }.goto i w st) i w st) :
    Opened ({ s with holders := holders }.goto i w st) := by
  have hgrows : Grows i s ({ s with holders := holders }.goto i w st) := by
    refine ⟨List.prefix_rfl, fun _ m hm => ⟨m, hm⟩, ?_, hholders, ?_⟩
    · exact fun j hji => goto_thread_ne _ w st hji
    · intro w' n hn
      rw [goto_thread_self] at hn
      cases hn
      exact absurd rfl (hst n)
  refine hgrows.opened h ?_ ?_ ?_ ?_ ?_ ?_
  · intro w' st' hi
    rw [goto_thread_self] at hi
    cases hi
    exact hknows hgrows
  · exact fun _ _ hn => Or.inl hn
  · exact fun _ hn => Or.inl hn
  · exact fun w' n hn => absurd hn (hnot w' n)
  · exact fun _ hd => Or.inl hd
  · exact h.lost

theorem mem_hold {n m : Nat} {j : ι} (hj : j ∈ s.holders m) : j ∈ s.hold i n m := by
  unfold State.hold
  by_cases hm : m = n
  · rw [hm, Function.update_self]
    rw [hm] at hj
    exact Finset.mem_insert_of_mem hj
  · rw [Function.update_of_ne hm]
    exact hj

theorem mem_hold_self (n : Nat) : i ∈ s.hold i n n := by
  unfold State.hold
  rw [Function.update_self]
  exact Finset.mem_insert_self _ _

/-- A call that knows nothing yet of a socket. -/
theorem Opened.enter (h : Opened s) {st : Stage} (hst : st = .called ∨ st = .missing)
    (hnot : ∀ w n, s.thread i ≠ some (w, .made n)) : Opened (s.goto i w st) := by
  refine h.goto ?_ hnot (fun _ _ _ hj => hj) fun _ => ?_
  · rintro n rfl
    rcases hst with hst | hst <;> cases hst
  · rcases hst with rfl | rfl <;> exact True.intro

/-- A call finds its socket in the map. -/
theorem Opened.find (h : Opened s) {n : Nat} (hn : s.map.lookup w.path = some n)
    (hnot : ∀ w n, s.thread i ≠ some (w, .made n)) :
    Opened ({ s with holders := s.hold i n }.goto i w (.ready n)) := by
  obtain ⟨hpath, hsettled⟩ := h.mapped w.path n hn
  refine h.goto (fun m hm => by cases hm) hnot (fun _ _ _ hj => mem_hold hj) fun hgrows => ?_
  exact ⟨mem_hold_self n, hgrows.pathOf hpath, hgrows.settled hsettled⟩

/-- A call makes a socket. -/
theorem Opened.make (h : Opened s) (opens : Bool) (counters : Counters)
    (hnot : ∀ w n, s.thread i ≠ some (w, .made n)) :
    Opened ({ s with
      sockets := s.sockets ++ [SafeSocket.mk w.path opens]
      holders := s.hold i s.sockets.length
      counters := counters }.goto i w (.made s.sockets.length)) := by
  have hgrows : Grows i s ({ s with
      sockets := s.sockets ++ [SafeSocket.mk w.path opens]
      holders := s.hold i s.sockets.length
      counters := counters }.goto i w (.made s.sockets.length)) := by
    refine ⟨List.prefix_append _ _, fun _ m hm => ⟨m, hm⟩, ?_, fun _ _ _ hj => mem_hold hj, ?_⟩
    · exact fun j hji => goto_thread_ne _ w _ hji
    · intro w' n hn
      rw [goto_thread_self] at hn
      cases hn
      exact Or.inl (Nat.le_refl _)
  refine hgrows.opened h ?_ ?_ ?_ ?_ ?_ ?_
  · intro w' st' hi
    rw [goto_thread_self] at hi
    cases hi
    refine ⟨mem_hold_self _, ?_, ?_⟩
    · show (s.sockets ++ [SafeSocket.mk w.path opens])[s.sockets.length]?.map _ = _
      rw [List.getElem?_concat_length]
      rfl
    · intro j w' hj
      by_cases hji : j = i
      · exact hji
      · -- no other thread has made an object that was not there
        rw [goto_thread_ne _ w _ hji] at hj
        exact absurd (pathOf_lt (h.knows j w' _ hj).2.1) (Nat.lt_irrefl _)
  · exact fun _ _ hn => Or.inl hn
  · intro n hn
    have hlen : n < (s.sockets ++ [SafeSocket.mk w.path opens]).length := hn
    rw [List.length_append, List.length_singleton] at hlen
    rcases Nat.lt_succ_iff_lt_or_eq.mp hlen with hlt | rfl
    · exact Or.inl hlt
    · exact Or.inr ⟨w, goto_thread_self _ _ _ _⟩
  · exact fun w' n hn => absurd hn (hnot w' n)
  · exact fun _ hd => Or.inl hd
  · exact h.lost

/-- A call adds the socket it made. -/
theorem Opened.add (h : Opened s) {n : Nat} (hi : s.thread i = some (w, .made n)) :
    Opened ({ s with map := s.map.insert w.path n }.goto i w (.ready n)) := by
  obtain ⟨hholds, hpath, hone⟩ := h.knows i w _ hi
  have hlookup : ∀ path m, (s.map.insert w.path n).lookup path = some m →
      s.map.lookup path = some m ∨ (path = w.path ∧ m = n) := by
    intro path m hm
    by_cases hp : path = w.path
    · rw [hp, AList.lookup_insert] at hm
      exact Or.inr ⟨hp, (Option.some.inj hm).symm⟩
    · rw [AList.lookup_insert_ne hp] at hm
      exact Or.inl hm
  have hgrows : Grows i s ({ s with map := s.map.insert w.path n }.goto i w (.ready n)) := by
    refine ⟨List.prefix_rfl, ?_, fun j hji => goto_thread_ne _ w _ hji, fun _ _ _ hj => hj, ?_⟩
    · intro path m hm
      show ∃ m', (s.map.insert w.path n).lookup path = some m'
      by_cases hp : path = w.path
      · rw [hp, AList.lookup_insert]
        exact ⟨n, rfl⟩
      · rw [AList.lookup_insert_ne hp]
        exact ⟨m, hm⟩
    · intro w' m hm
      rw [goto_thread_self] at hm
      cases hm
  have hsettled : Settled ({ s with map := s.map.insert w.path n }.goto i w (.ready n)) n := by
    refine ⟨⟨w.path, n, hpath, AList.lookup_insert _⟩, ?_⟩
    intro j w' hj
    by_cases hji : j = i
    · subst hji
      rw [goto_thread_self] at hj
      cases hj
    · rw [goto_thread_ne _ w _ hji] at hj
      exact hji (hone j w' hj)
  refine hgrows.opened h ?_ ?_ ?_ ?_ ?_ ?_
  · intro w' st' hi'
    rw [goto_thread_self] at hi'
    cases hi'
    exact ⟨hholds, hpath, hsettled⟩
  · intro path m hm
    rcases hlookup path m hm with hbefore | ⟨rfl, rfl⟩
    · exact Or.inl hbefore
    · exact Or.inr ⟨hpath, hsettled⟩
  · exact fun _ hn => Or.inl hn
  · intro w' m hm
    cases hi.symm.trans hm
    exact Or.inr hsettled
  · exact fun _ hd => Or.inl hd
  · intro d hd hm
    rcases hlookup d.path d.socket hm with hbefore | ⟨-, hsocket⟩
    · exact h.lost d hd hbefore
    · have hmem : d ∈ s.datagrams := List.mem_append_right _ hd
      rw [← hsocket] at hi
      exact (h.handed d hmem).2.added i w hi

omit [DecidableEq ι] in
/-- A datagram is sent or waits. -/
theorem mem_write {d d' : Datagram} {delay : Nat} {fromDelayed : Bool} :
    d' ∈ (s.write timersIoContext d delay fromDelayed).datagrams
      ↔ d' = d ∨ d' ∈ s.datagrams := by
  unfold State.write State.datagrams
  dsimp only
  split
  · simp only [List.mem_append, List.mem_singleton]
    tauto
  · simp only [List.mem_append, List.mem_singleton]
    tauto

/-- A call hands its datagram over. -/
theorem Opened.hand (h : Opened s) {n : Nat} (hi : s.thread i = some (w, .ready n)) (delay : Nat)
    (fromDelayed : Bool) :
    Opened ((s.write timersIoContext ⟨n, (s.pathOf n).getD "", w.data⟩ delay fromDelayed).goto
      i w (.written n)) := by
  obtain ⟨hholds, hpath, hsettled⟩ := h.knows i w _ hi
  obtain ⟨hmap, hsockets, hholders, hthread, hlost⟩ :=
    write_frame s timersIoContext ⟨n, (s.pathOf n).getD "", w.data⟩ delay fromDelayed
  have hgrows : Grows i s ((s.write timersIoContext ⟨n, (s.pathOf n).getD "", w.data⟩ delay
      fromDelayed).goto i w (.written n)) := by
    refine ⟨?_, ?_, ?_, ?_, ?_⟩
    · show s.sockets <+: (s.write timersIoContext _ delay fromDelayed).sockets
      rw [hsockets]
    · intro path m hm
      refine ⟨m, ?_⟩
      show (s.write timersIoContext _ delay fromDelayed).map.lookup path = some m
      rw [hmap]
      exact hm
    · intro j hji
      rw [goto_thread_ne _ w _ hji, hthread]
    · intro j m _ hj
      show j ∈ (s.write timersIoContext _ delay fromDelayed).holders m
      rw [hholders]
      exact hj
    · intro w' m hm
      rw [goto_thread_self] at hm
      cases hm
  refine hgrows.opened h ?_ ?_ ?_ ?_ ?_ ?_
  · intro w' st' hi'
    rw [goto_thread_self] at hi'
    cases hi'
    refine ⟨?_, hgrows.pathOf hpath, hgrows.settled hsettled⟩
    show i ∈ (s.write timersIoContext _ delay fromDelayed).holders n
    rw [hholders]
    exact hholds
  · intro path m hm
    have hm' : (s.write timersIoContext ⟨n, (s.pathOf n).getD "", w.data⟩ delay
      fromDelayed).map.lookup path = some m := hm
    rw [hmap] at hm'
    exact Or.inl hm'
  · intro m hm
    have hm' : m < (s.write timersIoContext ⟨n, (s.pathOf n).getD "", w.data⟩ delay
      fromDelayed).sockets.length := hm
    rw [hsockets] at hm'
    exact Or.inl hm'
  · intro w' m hm
    cases hi.symm.trans hm
  · intro d hd
    rcases mem_write.mp hd with rfl | hbefore
    · right
      refine ⟨?_, hgrows.settled hsettled⟩
      have hname : some w.path = some ((s.pathOf n).getD "") := by
        rw [hpath]
        rfl
      exact (hgrows.pathOf hpath).trans hname
    · exact Or.inl hbefore
  · intro d hd
    have hd' : d ∈ (s.write timersIoContext ⟨n, (s.pathOf n).getD "", w.data⟩ delay
      fromDelayed).lost := hd
    rw [hlost] at hd'
    show (s.write timersIoContext _ delay fromDelayed).map.lookup d.path ≠ _
    rw [hmap]
    exact h.lost d hd'

/-- A call returns. -/
theorem Opened.leave (h : Opened s) {n : Nat} (hi : s.thread i = some (w, .written n)) :
    Opened { s with
      holders := Function.update s.holders n ((s.holders n).erase i)
      thread := Function.update s.thread i none } := by
  have hgrows : Grows i s { s with
      holders := Function.update s.holders n ((s.holders n).erase i)
      thread := Function.update s.thread i none } := by
    refine ⟨List.prefix_rfl, fun _ m hm => ⟨m, hm⟩, ?_, ?_, ?_⟩
    · exact fun j hji => Function.update_of_ne hji _ _
    · intro j m hji hj
      show j ∈ Function.update s.holders n ((s.holders n).erase i) m
      by_cases hm : m = n
      · rw [hm, Function.update_self]
        rw [hm] at hj
        exact Finset.mem_erase_of_ne_of_mem hji hj
      · rw [Function.update_of_ne hm]
        exact hj
    · intro w' m hm
      cases (Function.update_self i none s.thread).symm.trans hm
  refine hgrows.opened h ?_ ?_ ?_ ?_ ?_ ?_
  · intro w' st' hi'
    cases (Function.update_self i none s.thread).symm.trans hi'
  · exact fun _ _ hm => Or.inl hm
  · exact fun _ hm => Or.inl hm
  · intro w' m hm
    cases hi.symm.trans hm
  · exact fun _ hd => Or.inl hd
  · exact h.lost

/-- A timer expires. -/
theorem Opened.expire (h : Opened s) (k : Nat) : Opened (expire timersIoContext s k) := by
  unfold H2Socket.expire
  split
  · exact h
  · rename_i d hd
    have hmem : d ∈ s.timers := List.mem_of_getElem? hd
    have hhanded : d ∈ s.datagrams :=
      List.mem_append_left _ (List.mem_append_right _ hmem)
    have hfired : ∀ d', d' ∈ ({ s with timers := s.timers.eraseIdx k } : State ι).datagrams →
        d' ∈ s.datagrams := by
      intro d' hd'
      unfold State.datagrams at hd' ⊢
      simp only [List.mem_append] at hd' ⊢
      rcases hd' with (hsent | htimers) | hlost
      · exact Or.inl (Or.inl hsent)
      · exact Or.inl (Or.inr (List.mem_of_mem_eraseIdx htimers))
      · exact Or.inr hlost
    dsimp only
    split
    · obtain ⟨hmap, hsockets, hholders, hthread, hlost⟩ :=
        write_frame { s with timers := s.timers.eraseIdx k } timersIoContext d 0 true
      refine h.of_frame hsockets hmap hholders hthread ?_ ?_
      · intro d' hd'
        rcases mem_write.mp hd' with rfl | hbefore
        · exact hhanded
        · exact hfired d' hbefore
      · rw [hlost]
        exact h.lost
    · rename_i hgone
      refine h.of_frame rfl rfl rfl rfl ?_ ?_
      · intro d' hd'
        unfold State.datagrams at hd' hfired ⊢
        simp only [List.mem_append, List.mem_singleton] at hd' hfired ⊢
        rcases hd' with hbefore | hlost | rfl
        · have := hfired d' (Or.inl hbefore)
          tauto
        · exact Or.inr hlost
        · exact Or.inl (Or.inr hmem)
      · intro d' hd'
        rcases List.mem_append.mp hd' with hbefore | hnew
        · exact h.lost d' hbefore
        · rw [List.mem_singleton.mp hnew]
          intro hstill
          have hreg : s.registered d.socket = true := by
            unfold State.registered
            rw [(h.handed d hhanded).1]
            dsimp only
            rw [hstill]
            exact beq_self_eq_true _
          rw [State.alive, hreg] at hgone
          exact hgone rfl

/-- **STEP LEMMA** for the objects. -/
theorem Opened.step (h : Opened s) (a : Act ι) : Opened (step timersIoContext s a) := by
  have hfound : ∀ {i w st}, s.thread i = some (w, st) → (∀ n, st ≠ .made n) →
      ∀ w n, s.thread i ≠ some (w, .made n) := by
    intro i w st hi hst w' n hn
    cases hi.symm.trans hn
    exact hst n rfl
  cases a with
  | call i w =>
      show Opened (if (s.thread i).isNone then s.goto i w .called else s)
      cases hi : s.thread i with
      | some x => exact h
      | none =>
          refine h.enter (Or.inl rfl) ?_
          intro w' n hn
          cases hi.symm.trans hn
  | expire k => exact h.expire k
  | step i opens =>
      cases hi : s.thread i with
      | none =>
          have hstep : H2Socket.step timersIoContext s (.step i opens) = s := by
            simp only [H2Socket.step, hi]
          rw [hstep]
          exact h
      | some x =>
          obtain ⟨w, st⟩ := x
          have hstep : H2Socket.step timersIoContext s (.step i opens)
              = advance timersIoContext s i w opens st := by
            simp only [H2Socket.step, hi]
          rw [hstep]
          cases st with
          | called =>
              have hnot := hfound hi (fun n hn => by cases hn)
              unfold advance
              dsimp only
              split
              · rename_i n hn
                exact h.find hn hnot
              · exact h.enter (Or.inr rfl) hnot
          | missing => exact h.make opens _ (hfound hi (fun n hn => by cases hn))
          | made n => exact h.add hi
          | ready n => exact h.hand hi _ _
          | written n => exact h.leave hi

end Step

/-! ## One socket for a path -/

/-- There is one socket for a path, and whoever is about to make one is alone. -/
structure Single (s : State ι) : Prop where
  one : ∀ n m path, s.pathOf n = some path → s.pathOf m = some path → n = m
  missing : ∀ i w, s.thread i = some (w, .missing) →
    (∀ n, s.pathOf n ≠ some w.path)
      ∧ ∀ j w', s.thread j = some (w', .missing) → w'.path = w.path → j = i

theorem single_initial : Single ({} : State ι) where
  one := by
    intro n m path hn
    cases hn
  missing := by
    intro i w hi
    cases hi

/-- Where sockets stay, and nobody starts or stops missing one, nothing changes. -/
theorem single_congr {s s' : State ι} (hsockets : s'.sockets = s.sockets)
    (hmissing : ∀ i w, s'.thread i = some (w, .missing) ↔ s.thread i = some (w, .missing)) :
    Single s' ↔ Single s := by
  have hpath : ∀ n, s'.pathOf n = s.pathOf n := by
    intro n
    unfold State.pathOf
    rw [hsockets]
  constructor
  · intro h
    refine ⟨?_, ?_⟩
    · intro n m path hn hm
      exact h.one n m path ((hpath n).trans hn) ((hpath m).trans hm)
    · intro i w hi
      obtain ⟨hnone, halone⟩ := h.missing i w ((hmissing i w).mpr hi)
      refine ⟨fun n hn => hnone n ((hpath n).trans hn), ?_⟩
      exact fun j w' hj hw => halone j w' ((hmissing j w').mpr hj) hw
  · intro h
    refine ⟨?_, ?_⟩
    · intro n m path hn hm
      exact h.one n m path ((hpath n).symm.trans hn) ((hpath m).symm.trans hm)
    · intro i w hi
      obtain ⟨hnone, halone⟩ := h.missing i w ((hmissing i w).mp hi)
      refine ⟨fun n hn => hnone n ((hpath n).symm.trans hn), ?_⟩
      exact fun j w' hj hw => halone j w' ((hmissing j w').mp hj) hw

section SingleStep

variable [DecidableEq ι] {s : State ι} {i : ι} {w : Write} {timersIoContext : Bool}

/-- A thread that neither starts nor stops missing its socket. -/
theorem missing_goto {s' : State ι} {st st' : Stage} (hi : s.thread i = some (w, st))
    (hst : st ≠ .missing) (hst' : st' ≠ .missing) (hthread : s'.thread = s.thread) (j : ι)
    (w' : Write) :
    (s'.goto i w st').thread j = some (w', .missing) ↔ s.thread j = some (w', .missing) := by
  by_cases hji : j = i
  · subst hji
    rw [goto_thread_self, hi]
    constructor
    · intro h
      cases h
      exact absurd rfl hst'
    · intro h
      cases h
      exact absurd rfl hst
  · rw [goto_thread_ne s' w st' hji, hthread]

/-- A thread finds its path missing: it is alone with it exactly if no first write is under
    way. -/
theorem single_missing (h : Opened s) (hi : s.thread i = some (w, .called))
    (hnone : s.map.lookup w.path = none) (opens : Bool) :
    Single (s.goto i w .missing) ↔ Single s ∧ ¬ Overlaps s (.step i opens) := by
  have hpath : ∀ n, (s.goto i w .missing).pathOf n = s.pathOf n := fun _ => rfl
  have hself : (s.goto i w .missing).thread i = some (w, .missing) := goto_thread_self _ _ _ _
  constructor
  · intro h'
    refine ⟨⟨h'.one, ?_⟩, ?_⟩
    · intro j w' hj
      have hji : j ≠ i := by
        rintro rfl
        cases hj.symm.trans hi
      obtain ⟨hfree, halone⟩ := h'.missing j w' ((goto_thread_ne s w .missing hji).trans hj)
      refine ⟨hfree, ?_⟩
      intro k w'' hk hw
      have hki : k ≠ i := by
        rintro rfl
        cases hk.symm.trans hi
      exact halone k w'' ((goto_thread_ne s w .missing hki).trans hk) hw
    · rintro ⟨w', hi', -, j, w'', st, hj, hw, hst⟩
      cases hi.symm.trans hi'
      have hji : j ≠ i := by
        rintro rfl
        cases hj.symm.trans hi
        rcases hst with hst | ⟨n, hst⟩ <;> cases hst
      obtain ⟨hfree, halone⟩ := h'.missing i w hself
      rcases hst with rfl | ⟨n, rfl⟩
      · exact hji (halone j w'' ((goto_thread_ne s w .missing hji).trans hj) hw)
      · have hn := (h.knows j w'' _ hj).2.1
        rw [hw] at hn
        exact hfree n hn
  · rintro ⟨hs, hover⟩
    have hothers : ∀ j w' st, s.thread j = some (w', st) → w'.path = w.path →
        st ≠ .missing ∧ ∀ n, st ≠ .made n := by
      intro j w' st hj hw
      refine ⟨fun hst => ?_, fun n hst => ?_⟩
      · exact hover ⟨w, hi, hnone, j, w', st, hj, hw, Or.inl hst⟩
      · exact hover ⟨w, hi, hnone, j, w', st, hj, hw, Or.inr ⟨n, hst⟩⟩
    refine ⟨hs.one, ?_⟩
    intro j w' hj
    by_cases hji : j = i
    · subst hji
      rw [hself] at hj
      cases hj
      refine ⟨?_, ?_⟩
      · -- a socket for the path is in the map, or about to be
        intro n hn
        rcases h.added n (pathOf_lt hn) with ⟨k, w', hk⟩ | hsettled
        · have hk' := (h.knows k w' _ hk).2.1
          have hw : w'.path = w.path := Option.some.inj (hk'.symm.trans hn)
          exact (hothers k w' _ hk hw).2 n rfl
        · obtain ⟨path, m, hpathn, hm⟩ := hsettled.path
          obtain rfl := Option.some.inj (hpathn.symm.trans hn)
          cases hm.symm.trans hnone
      · intro k w' hk hw
        by_contra hkj
        rw [goto_thread_ne s w .missing hkj] at hk
        exact (hothers k w' _ hk hw).1 rfl
    · rw [goto_thread_ne s w .missing hji] at hj
      obtain ⟨hfree, halone⟩ := hs.missing j w' hj
      refine ⟨hfree, ?_⟩
      intro k w'' hk hw
      by_cases hki : k = i
      · subst hki
        rw [hself] at hk
        cases hk
        exact absurd rfl (hothers j w' _ hj hw.symm).1
      · rw [goto_thread_ne s w .missing hki] at hk
        exact halone k w'' hk hw

/-- Making the socket changes nothing of it. -/
theorem single_make (hi : s.thread i = some (w, .missing)) (opens : Bool)
    (holders : Nat → Finset ι) (counters : Counters) :
    Single ({ s with
      sockets := s.sockets ++ [SafeSocket.mk w.path opens]
      holders := holders
      counters := counters }.goto i w (.made s.sockets.length)) ↔ Single s := by
  have hold : ∀ {n path}, s.pathOf n = some path → ({ s with
      sockets := s.sockets ++ [SafeSocket.mk w.path opens]
      holders := holders
      counters := counters }.goto i w (.made s.sockets.length)).pathOf n = some path := by
    intro n path hn
    have hlt := pathOf_lt hn
    show ((s.sockets ++ [SafeSocket.mk w.path opens])[n]?).map SafeSocket.path = some path
    rw [List.getElem?_append_left hlt]
    exact hn
  have hself : ({ s with
      sockets := s.sockets ++ [SafeSocket.mk w.path opens]
      holders := holders
      counters := counters }.goto i w (.made s.sockets.length)).pathOf s.sockets.length
        = some w.path := by
    show ((s.sockets ++ [SafeSocket.mk w.path opens])[s.sockets.length]?).map _ = _
    rw [List.getElem?_concat_length]
    rfl
  have hback : ∀ {n path}, ({ s with
      sockets := s.sockets ++ [SafeSocket.mk w.path opens]
      holders := holders
      counters := counters }.goto i w (.made s.sockets.length)).pathOf n = some path →
        s.pathOf n = some path ∨ (n = s.sockets.length ∧ path = w.path) := by
    intro n path hn
    have hlen : n < (s.sockets ++ [SafeSocket.mk w.path opens]).length := pathOf_lt hn
    rw [List.length_append, List.length_singleton] at hlen
    rcases Nat.lt_succ_iff_lt_or_eq.mp hlen with hlt | rfl
    · left
      have hn' : ((s.sockets ++ [SafeSocket.mk w.path opens])[n]?).map SafeSocket.path
        = some path := hn
      rwa [List.getElem?_append_left hlt] at hn'
    · exact Or.inr ⟨rfl, Option.some.inj (hn.symm.trans hself)⟩
  have hnot : ∀ {n path}, s.pathOf n = some path → n ≠ s.sockets.length :=
    fun hn => Nat.ne_of_lt (pathOf_lt hn)
  constructor
  · intro h'
    refine ⟨fun n m path hn hm => h'.one n m path (hold hn) (hold hm), ?_⟩
    intro j w' hj
    by_cases hji : j = i
    · subst hji
      cases hi.symm.trans hj
      refine ⟨?_, ?_⟩
      · intro n hn
        exact hnot hn (h'.one n _ _ (hold hn) hself)
      · intro k w' hk hw
        by_contra hkj
        obtain ⟨hfree, -⟩ := h'.missing k w' ((goto_thread_ne _ w _ hkj).trans hk)
        rw [hw] at hfree
        exact hfree _ hself
    · obtain ⟨hfree, halone⟩ := h'.missing j w' ((goto_thread_ne _ w _ hji).trans hj)
      refine ⟨fun n hn => hfree n (hold hn), ?_⟩
      intro k w'' hk hw
      by_cases hki : k = i
      · subst hki
        cases hi.symm.trans hk
        rw [← hw] at hfree
        exact absurd hself (hfree _)
      · exact halone k w'' ((goto_thread_ne _ w _ hki).trans hk) hw
  · intro h
    obtain ⟨hfree, halone⟩ := h.missing i w hi
    refine ⟨?_, ?_⟩
    · intro n m path hn hm
      rcases hback hn with hn' | ⟨rfl, rfl⟩
      · rcases hback hm with hm' | ⟨rfl, rfl⟩
        · exact h.one n m path hn' hm'
        · exact absurd hn' (hfree n)
      · rcases hback hm with hm' | ⟨rfl, -⟩
        · exact absurd hm' (hfree m)
        · rfl
    · intro j w' hj
      have hji : j ≠ i := by
        rintro rfl
        rw [goto_thread_self] at hj
        cases hj
      rw [goto_thread_ne _ w _ hji] at hj
      obtain ⟨hfree', halone'⟩ := h.missing j w' hj
      refine ⟨?_, ?_⟩
      · intro n hn
        rcases hback hn with hn' | ⟨-, hw⟩
        · exact hfree' n hn'
        · exact hji (halone j w' hj hw)
      · intro k w'' hk hw
        have hki : k ≠ i := by
          rintro rfl
          rw [goto_thread_self] at hk
          cases hk
        rw [goto_thread_ne _ w _ hki] at hk
        exact halone' k w'' hk hw

end SingleStep

section Runs

variable [DecidableEq ι] {s : State ι} (timersIoContext : Bool)

/-- The step of a thread in a call. -/
theorem step_of_thread {i : ι} {w : Write} {st : Stage} (opens : Bool)
    (hi : s.thread i = some (w, st)) :
    step timersIoContext s (.step i opens) = advance timersIoContext s i w opens st := by
  simp only [step, hi]

theorem step_idle {i : ι} (opens : Bool) (hi : s.thread i = none) :
    step timersIoContext s (.step i opens) = s := by
  simp only [step, hi]

/-- The parts of a state that a timer leaves alone. -/
theorem expire_frame (s : State ι) (k : Nat) :
    (expire timersIoContext s k).sockets = s.sockets
      ∧ (expire timersIoContext s k).thread = s.thread := by
  unfold expire
  split
  · exact ⟨rfl, rfl⟩
  · dsimp only
    split
    · obtain ⟨-, hsockets, -, hthread, -⟩ :=
        write_frame { s with timers := s.timers.eraseIdx k } timersIoContext _ 0 true
      exact ⟨hsockets, hthread⟩
    · exact ⟨rfl, rfl⟩

/-- **STEP LEMMA**: one socket for a path, exactly as long as no first writes overlap. -/
theorem single_step (h : Opened s) (a : Act ι) :
    Single (step timersIoContext s a) ↔ Single s ∧ ¬ Overlaps s a := by
  have hsame : ∀ {s' : State ι}, (Single s' ↔ Single s) → ¬ Overlaps s a →
      (Single s' ↔ Single s ∧ ¬ Overlaps s a) :=
    fun hiff hnot => hiff.trans ⟨fun hs => ⟨hs, hnot⟩, And.left⟩
  cases a with
  | call i w =>
      refine hsame ?_ fun hno => hno
      show Single (if (s.thread i).isNone then s.goto i w .called else s) ↔ _
      cases hi : s.thread i with
      | some x => exact Iff.rfl
      | none =>
          refine single_congr rfl fun j w' => ?_
          show (s.goto i w .called).thread j = _ ↔ _
          by_cases hji : j = i
          · subst hji
            rw [goto_thread_self, hi]
            constructor
            · intro hno
              cases hno
            · intro hno
              cases hno
          · rw [goto_thread_ne s w .called hji]
  | expire k =>
      obtain ⟨hsockets, hthread⟩ := expire_frame timersIoContext s k
      refine hsame (single_congr hsockets fun j w' => ?_) fun hno => hno
      show (expire timersIoContext s k).thread j = _ ↔ _
      rw [hthread]
  | step i opens =>
      cases hi : s.thread i with
      | none =>
          rw [step_idle timersIoContext opens hi]
          refine hsame Iff.rfl ?_
          rintro ⟨w, hw, -⟩
          cases hi.symm.trans hw
      | some x =>
          obtain ⟨w, st⟩ := x
          rw [step_of_thread timersIoContext opens hi]
          have hnot : (st = .called → (s.map.lookup w.path).isSome = true) →
              ¬ Overlaps s (.step i opens) := by
            rintro hst ⟨w', hw', hnone, -⟩
            cases hi.symm.trans hw'
            have hsome := hst rfl
            rw [hnone] at hsome
            cases hsome
          cases st with
          | called =>
              unfold advance
              dsimp only
              split
              · rename_i n hn
                refine hsame ?_ (hnot fun _ => by rw [hn]; rfl)
                exact single_congr rfl (missing_goto hi (fun h => by cases h)
                  (fun h => by cases h) rfl)
              · rename_i hnone
                exact single_missing h hi hnone opens
          | missing =>
              exact hsame (single_make hi opens _ _) (hnot fun hst => by cases hst)
          | made n =>
              refine hsame ?_ (hnot fun hst => by cases hst)
              exact single_congr rfl (missing_goto hi (fun h => by cases h)
                (fun h => by cases h) rfl)
          | ready n =>
              obtain ⟨-, hsockets, -, hthread, -⟩ := write_frame s timersIoContext
                ⟨n, (s.pathOf n).getD "", w.data⟩ w.writeDelayUs false
              refine hsame ?_ (hnot fun hst => by cases hst)
              exact single_congr hsockets (missing_goto hi (fun h => by cases h)
                (fun h => by cases h) hthread)
          | written n =>
              refine hsame (single_congr rfl fun j w' => ?_) (hnot fun hst => by cases hst)
              show Function.update s.thread i none j = _ ↔ _
              by_cases hji : j = i
              · subst hji
                rw [Function.update_self, hi]
                constructor
                · intro hno
                  cases hno
                · intro hno
                  cases hno
              · rw [Function.update_of_ne hji]

/-- With one socket for a path, the socket of a timer is in the map. -/
theorem Single.alive (hs : Single s) (h : Opened s) {d : Datagram} (hd : d ∈ s.timers) :
    s.alive d.socket = true := by
  have hmem : d ∈ s.datagrams := List.mem_append_left _ (List.mem_append_right _ hd)
  obtain ⟨hpath, hsettled⟩ := h.handed d hmem
  obtain ⟨path, m, hpath', hm⟩ := hsettled.path
  obtain rfl := Option.some.inj (hpath'.symm.trans hpath)
  obtain rfl := hs.one m d.socket _ (h.mapped _ m hm).1 hpath
  have hreg : s.registered d.socket = true := by
    unfold State.registered
    rw [hpath]
    dsimp only
    rw [hm]
    exact beq_self_eq_true _
  rw [State.alive, hreg]
  rfl

/-- Then no step loses a datagram. -/
theorem Single.lost_step (hs : Single s) (h : Opened s) (a : Act ι) :
    (step timersIoContext s a).lost = s.lost := by
  cases a with
  | call i w =>
      show (if (s.thread i).isNone then s.goto i w .called else s).lost = s.lost
      split <;> rfl
  | expire k =>
      show (expire timersIoContext s k).lost = s.lost
      unfold expire
      split
      · rfl
      · rename_i d hd
        dsimp only
        rw [if_pos (hs.alive h (List.mem_of_getElem? hd))]
        exact (write_frame _ _ _ _ _).2.2.2.2
  | step i opens =>
      cases hi : s.thread i with
      | none => rw [step_idle timersIoContext opens hi]
      | some x =>
          obtain ⟨w, st⟩ := x
          rw [step_of_thread timersIoContext opens hi]
          cases st with
          | called =>
              unfold advance
              dsimp only
              split <;> rfl
          | missing | made | written => rfl
          | ready n => exact (write_frame _ _ _ _ _).2.2.2.2

/-- The state that a run reaches. -/
def reached (acts : List (Act ι)) : State ι := run (step timersIoContext) {} acts

theorem opened_reached (acts : List (Act ι)) : Opened (reached timersIoContext acts) :=
  run_invariant (fun _ a hs => hs.step a) acts _ opened_initial

omit [DecidableEq ι] in
/-- One socket for a path, once nobody is about to make one. -/
theorem single_iff_nodup (hidle : ∀ i, s.thread i = none) :
    Single s ↔ (s.sockets.map SafeSocket.path).Nodup := by
  have hpath : ∀ n, s.pathOf n = (s.sockets.map SafeSocket.path)[n]? := by
    intro n
    rw [List.getElem?_map]
    rfl
  rw [List.nodup_iff_getElem?_ne_getElem?]
  constructor
  · intro h n m hnm hm heq
    obtain ⟨path, hpathm⟩ : ∃ path, (s.sockets.map SafeSocket.path)[m]? = some path :=
      ⟨_, List.getElem?_eq_getElem hm⟩
    have hone := h.one n m path ((hpath n).trans (heq.trans hpathm)) ((hpath m).trans hpathm)
    omega
  · intro h
    refine ⟨?_, ?_⟩
    · intro n m path hn hm
      rw [hpath] at hn hm
      rcases Nat.lt_trichotomy n m with hlt | heq | hlt
      · exact absurd (hn.trans hm.symm) (h n m hlt (List.getElem?_eq_some_iff.mp hm).1)
      · exact heq
      · exact absurd (hm.trans hn.symm) (h m n hlt (List.getElem?_eq_some_iff.mp hn).1)
    · intro i w hi
      cases (hidle i).symm.trans hi

/-- **ONE SOCKET FOR A PATH**: when all calls have returned, each path has one socket exactly
    if no first write overlapped another one on its path; such a run, finished or not, has
    lost no datagram. -/
theorem sockets_single (acts : List (Act ι)) :
    ((∀ i, (reached timersIoContext acts).thread i = none) →
      (((reached timersIoContext acts).sockets.map SafeSocket.path).Nodup
        ↔ AllSteps (step timersIoContext) (fun s a => ¬ Overlaps s a) ({} : State ι) acts))
    ∧ (AllSteps (step timersIoContext) (fun s a => ¬ Overlaps s a) ({} : State ι) acts →
      (reached timersIoContext acts).lost = []) := by
  have hsingle : Single (reached timersIoContext acts)
      ↔ AllSteps (step timersIoContext) (fun s a => ¬ Overlaps s a) ({} : State ι) acts :=
    (run_iff_allSteps (I := Opened) (fun _ a hs => hs.step a)
      (fun _ a hs => single_step timersIoContext hs a) acts {} opened_initial).trans
      (and_iff_right single_initial)
  refine ⟨?_, ?_⟩
  · intro hidle
    exact (single_iff_nodup hidle).symm.trans hsingle
  · intro hall
    have hkept : Opened (reached timersIoContext acts) ∧ Single (reached timersIoContext acts)
        ∧ (reached timersIoContext acts).lost = [] := by
      refine run_invariant_of (I := fun s => Opened s ∧ Single s ∧ s.lost = []) ?_ acts {}
        ⟨opened_initial, single_initial, rfl⟩ hall
      rintro s a ⟨hopened, hs, hlost⟩ hnot
      refine ⟨hopened.step a, (single_step timersIoContext hopened a).mpr ⟨hs, hnot⟩, ?_⟩
      rw [hs.lost_step timersIoContext hopened a]
      exact hlost
    exact hkept.2.2

/-! ## What becomes of the datagrams -/

/-- What a datagram brings where. -/
def Datagram.content (d : Datagram) : String × String := (d.path, d.data)

omit [DecidableEq ι] in
/-- What is handed over, or comes back from a timer, is kept. -/
theorem write_perm (s : State ι) (d : Datagram) (delay : Nat) (fromDelayed : Bool) :
    (s.write timersIoContext d delay fromDelayed).datagrams.Perm (s.datagrams ++ [d]) := by
  unfold State.write State.datagrams
  dsimp only
  split
  · rw [← List.append_assoc, List.append_assoc _ [d], List.append_assoc _ s.lost]
    exact List.Perm.append_left _ List.perm_append_comm
  · rw [List.append_assoc, List.append_assoc, List.append_assoc, List.append_assoc]
    refine List.Perm.append_left _ ?_
    rw [← List.append_assoc s.timers]
    exact List.perm_append_comm

theorem expire_perm (s : State ι) (k : Nat) :
    (expire timersIoContext s k).datagrams.Perm s.datagrams := by
  unfold expire
  split
  · exact List.Perm.refl _
  · rename_i d hd
    obtain ⟨hk, rfl⟩ := List.getElem?_eq_some_iff.mp hd
    -- the timer that expired leaves the list, and its datagram comes back elsewhere
    have hback : (({ s with timers := s.timers.eraseIdx k } : State ι).datagrams
        ++ [s.timers[k]]).Perm s.datagrams := by
      unfold State.datagrams
      have htimers := List.getElem_cons_eraseIdx_perm hk
      calc (s.sent ++ s.timers.eraseIdx k ++ s.lost ++ [s.timers[k]]).Perm
            (s.timers[k] :: (s.sent ++ s.timers.eraseIdx k ++ s.lost)) :=
          List.perm_append_comm
        _ = s.timers[k] :: (s.sent ++ (s.timers.eraseIdx k ++ s.lost)) := by
          rw [List.append_assoc]
        List.Perm _ (s.sent ++ (s.timers[k] :: s.timers.eraseIdx k ++ s.lost)) :=
          List.perm_middle.symm
        List.Perm _ _ := by
          rw [List.append_assoc]
          exact List.Perm.append_left _ (htimers.append_right _)
    dsimp only
    split
    · exact (write_perm timersIoContext _ _ _ _).trans hback
    · refine List.Perm.trans ?_ hback
      show (s.sent ++ s.timers.eraseIdx k ++ (s.lost ++ [s.timers[k]])).Perm _
      rw [← List.append_assoc]
      exact List.Perm.refl _

/-- **STEP LEMMA** for the datagrams. -/
theorem datagrams_step (h : Opened s) (a : Act ι) :
    ((step timersIoContext s a).datagrams.map Datagram.content).Perm
      (s.datagrams.map Datagram.content ++ (handed s a).toList) := by
  have hsame : ∀ {s' : State ι}, s'.datagrams = s.datagrams → handed s a = none →
      (s'.datagrams.map Datagram.content).Perm
        (s.datagrams.map Datagram.content ++ (handed s a).toList) := by
    intro s' heq hnone
    rw [heq, hnone]
    exact (List.append_nil _).symm ▸ List.Perm.refl _
  cases a with
  | call i w =>
      refine hsame ?_ rfl
      show (if (s.thread i).isNone then s.goto i w .called else s).datagrams = _
      split <;> rfl
  | expire k =>
      show ((expire timersIoContext s k).datagrams.map Datagram.content).Perm
        (s.datagrams.map Datagram.content ++ [])
      rw [List.append_nil]
      exact (expire_perm timersIoContext s k).map _
  | step i opens =>
      cases hi : s.thread i with
      | none =>
          rw [step_idle timersIoContext opens hi]
          exact hsame rfl (by simp only [handed, hi])
      | some x =>
          obtain ⟨w, st⟩ := x
          rw [step_of_thread timersIoContext opens hi]
          cases st with
          | called =>
              refine hsame ?_ (by simp only [handed, hi])
              unfold advance
              dsimp only
              split <;> rfl
          | missing | made | written => exact hsame rfl (by simp only [handed, hi])
          | ready n =>
              have hhanded : handed s (.step i opens) = some (w.path, w.data) := by
                simp only [handed, hi]
              have hpath := (h.knows i w _ hi).2.1
              refine ((write_perm timersIoContext s _ _ _).map Datagram.content).trans ?_
              rw [hhanded, List.map_append, hpath]
              exact List.Perm.refl _

omit [DecidableEq ι] in
/-- What is counted: sockets by how they opened, and datagrams by what became of them. -/
structure Counted (s : State ι) : Prop where
  opens : s.counters.openOperations + s.counters.errorOpenOperations = s.sockets.length
  writes : s.counters.delayedWriteOperations + s.counters.instantWriteOperations
    = s.timers.length + s.lost.length + s.counters.writeOperations
  sent : timersIoContext = true → s.sent.length = s.counters.writeOperations

/-- **STEP LEMMA** for the counters. -/
theorem Counted.step (h : Counted timersIoContext s) (a : Act ι) :
    Counted timersIoContext (step timersIoContext s a) := by
  cases a with
  | call i w =>
      show Counted timersIoContext (if (s.thread i).isNone then s.goto i w .called else s)
      split
      · exact ⟨h.opens, h.writes, h.sent⟩
      · exact h
  | expire k =>
      show Counted timersIoContext (expire timersIoContext s k)
      unfold expire
      split
      · exact h
      · rename_i d hd
        have hlength : (s.timers.eraseIdx k).length + 1 = s.timers.length := by
          have hk := (List.getElem?_eq_some_iff.mp hd).1
          rw [List.length_eraseIdx_of_lt hk]
          omega
        have hwrites := h.writes
        dsimp only
        split
        · have hno : ¬ (timersIoContext = true ∧ (0 : Nat) ≠ 0) := fun hboth => hboth.2 rfl
          unfold State.write
          rw [if_neg hno]
          refine ⟨h.opens, ?_, fun htimers => ?_⟩
          · show s.counters.delayedWriteOperations + s.counters.instantWriteOperations
              = (s.timers.eraseIdx k).length + s.lost.length + (s.counters.writeOperations + 1)
            omega
          · show (s.sent ++ [d]).length = s.counters.writeOperations + 1
            rw [List.length_append, h.sent htimers]
            rfl
        · refine ⟨h.opens, ?_, h.sent⟩
          show s.counters.delayedWriteOperations + s.counters.instantWriteOperations
            = (s.timers.eraseIdx k).length + (s.lost ++ [d]).length
              + s.counters.writeOperations
          rw [List.length_append, List.length_singleton]
          omega
  | step i opens =>
      cases hi : s.thread i with
      | none =>
          rw [step_idle timersIoContext opens hi]
          exact h
      | some x =>
          obtain ⟨w, st⟩ := x
          rw [step_of_thread timersIoContext opens hi]
          cases st with
          | called =>
              unfold advance
              dsimp only
              split
              · exact ⟨h.opens, h.writes, h.sent⟩
              · exact ⟨h.opens, h.writes, h.sent⟩
          | missing =>
              have hopens := h.opens
              cases opens with
              | true =>
                  refine ⟨?_, h.writes, h.sent⟩
                  show s.counters.openOperations + 1 + s.counters.errorOpenOperations
                    = (s.sockets ++ [_]).length
                  rw [List.length_append, List.length_singleton]
                  omega
              | false =>
                  refine ⟨?_, h.writes, h.sent⟩
                  show s.counters.openOperations + (s.counters.errorOpenOperations + 1)
                    = (s.sockets ++ [_]).length
                  rw [List.length_append, List.length_singleton]
                  omega
          | made n => exact ⟨h.opens, h.writes, h.sent⟩
          | written n => exact ⟨h.opens, h.writes, h.sent⟩
          | ready n =>
              have hwrites := h.writes
              show Counted timersIoContext ((s.write timersIoContext _ w.writeDelayUs false).goto
                i w (.written n))
              unfold State.write Counters.writing
              by_cases hdelay : w.writeDelayUs = 0
              · rw [if_pos hdelay, if_neg (fun hboth => hboth.2 hdelay)]
                refine ⟨h.opens, ?_, fun htimers => ?_⟩
                · show s.counters.delayedWriteOperations
                      + (s.counters.instantWriteOperations + 1)
                    = s.timers.length + s.lost.length + (s.counters.writeOperations + 1)
                  omega
                · show (s.sent ++ [_]).length = s.counters.writeOperations + 1
                  rw [List.length_append, h.sent htimers]
                  rfl
              · rw [if_neg hdelay]
                by_cases htimers : timersIoContext = true
                · rw [if_pos ⟨htimers, hdelay⟩]
                  refine ⟨h.opens, ?_, h.sent⟩
                  show s.counters.delayedWriteOperations + 1 + s.counters.instantWriteOperations
                    = (s.timers ++ [_]).length + s.lost.length + s.counters.writeOperations
                  rw [List.length_append, List.length_singleton]
                  omega
                · rw [if_neg (fun hboth => htimers hboth.1)]
                  exact ⟨h.opens, hwrites, fun hyes => absurd hyes htimers⟩

/-- **NO DATAGRAM IS LOST UNSEEN OR SENT TWICE**: after every run the datagrams handed over
    are, each once and with its own path, those sent, those that wait on a timer and those
    lost to a timer; the lost ones went to a socket that another one has replaced; and the
    counters tell how many there are of each. -/
theorem datagrams_accounted (acts : List (Act ι)) :
    (((reached timersIoContext acts).sent ++ (reached timersIoContext acts).timers
        ++ (reached timersIoContext acts).lost).map Datagram.content).Perm
      (shown (step timersIoContext) handed ({} : State ι) acts)
    ∧ (∀ d ∈ (reached timersIoContext acts).lost,
        ∃ n, n ≠ d.socket ∧ (reached timersIoContext acts).map.lookup d.path = some n)
    ∧ Counted timersIoContext (reached timersIoContext acts) := by
  have hopened := opened_reached timersIoContext acts
  refine ⟨?_, ?_, ?_⟩
  · exact shown_perm (fun s : State ι => s.datagrams.map Datagram.content)
      (fun _ a hs => Opened.step hs a) (fun _ a hs => datagrams_step timersIoContext hs a)
      acts {} opened_initial
  · intro d hd
    obtain ⟨hpath, hsettled⟩ := hopened.handed d (List.mem_append_right _ hd)
    obtain ⟨path, n, hpath', hn⟩ := hsettled.path
    obtain rfl := Option.some.inj (hpath'.symm.trans hpath)
    refine ⟨n, ?_, hn⟩
    rintro rfl
    exact hopened.lost d hd hn
  · exact run_invariant (I := Counted timersIoContext) (fun _ a hs => hs.step timersIoContext a)
      acts {} ⟨rfl, rfl, fun _ => rfl⟩

end Runs

end H2Socket
