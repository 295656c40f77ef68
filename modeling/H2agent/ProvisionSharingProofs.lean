import H2agent.LinearizationProofs
import H2agent.ProvisionDocumentProofs

/-! # Server provisions under concurrent calls

    The administrative interface loads, clears and lists provisions while the worker
    threads search them.  The map has a mutex of its own for each access; the list of keys
    is behind `rw_mutex_`, which a load and a clear hold to write and a search for a
    regular expression and a listing to read, over all their steps.  The search of an
    exact key takes the mutex of the map alone, and falls between any two steps of a load
    or a clear.

    * `Shared` — what each stage of a call knows, and who holds the lock;
    * `advance_shared` — a step that settles an answer settles that of the sequential
      store, and no other step is visible in it;
    * `provisions_linearized` — the calls of every run answer as if they had been made one
      after the other, each while it was under way, and no search meets a missing provision
      or one without its resources. -/

namespace H2ProvisionSharing

open CppText H2Convert H2Key H2Load H2ProvisionDocuments H2Provisions H2ServerProvision
open H2Store H2Traffic H2Transformation JsonValue Linearization MapListing StepRun

/-! ## The calls -/

/-- What a thread asks of the store.  The load of an array asks for one document after
    the other. -/
inductive Op where
  | loadSingle (regexMatchingConfigured : Bool) (j : Json)
  | clear
  | find (inState method uri : String)
  | findRegexMatching (inState method uri : String)
  | asJson (ordered : Bool)

inductive Answer where
  | loaded (result : Except Fault LoadResult)
  | cleared (deleted : Bool)
  | found (provision : Except Fault (Option Provisioned))
  | listed (documents : Except Fault (List Json))

/-- The store when nobody else uses it. -/
def exec (l : Loader) (walk : Iteration StoredProvision) (d : ProvisionStore) :
    Op → Answer × ProvisionStore
  | .loadSingle regexMatchingConfigured j =>
      (.loaded (d.loadSingle l regexMatchingConfigured j).1,
        (d.loadSingle l regexMatchingConfigured j).2)
  | .clear => (.cleared d.clear.1, d.clear.2)
  | .find inState method uri => (.found (.ok (d.data.find inState method uri)), d)
  | .findRegexMatching inState method uri =>
      (.found (searchRegexMatching l.lib d.data inState method uri), d)
  | .asJson ordered => (.listed (d.asJson walk ordered false), d)

/-- A provision, and whether `setAdminData` and the setters after it have been called. -/
structure Entry where
  stored : StoredProvision
  resources : Bool

def Entry.getKey (e : Entry) : String := e.stored.getKey

/-- How far a call has come.  `locked` to `ready` are the steps of `loadSingle` after it
    took `rw_mutex_`, `emptying` and `emptied` those of `clear`; `searching` and `walking`
    stand before an element of the ordered keys. -/
inductive Stage where
  | called
  | parsed (e : Entry)
  | locked (e : Entry)
  | checked (e : Entry) (present : Bool)
  | pushed (e : Entry)
  | ready (e : Entry)
  | emptying
  | emptied
  | searching (key : String) (n : Nat)
  | walking (n : Nat) (documents : List Json)
  | snapshot
  | leaving (a : Answer)

variable {ι : Type}

/-- A thread that leaves has its answer. -/
def answerOf : Stage → Option Answer
  | .leaving a => some a
  | _ => none

/-- The store with its lock, and the call each thread is in. -/
structure State (ι : Type) where
  map : TextMap Entry := ∅
  orderedKeys : List String := []
  lock : RwLock ι := RwLock.free
  thread : ι → Option (Op × Stage) := fun _ => none

section Steps

variable [DecidableEq ι]

def State.goto (s : State ι) (i : ι) (op : Op) (st : Stage) : State ι :=
  { s with thread := Function.update s.thread i (some (op, st)) }

variable (l : Loader) (walk : Iteration StoredProvision)

/-- The part of `loadSingle` before the lock. -/
def parse (s : State ι) (i : ι) (regexMatchingConfigured : Bool) (j : Json) : State ι :=
  if l.validate j then
    match loadProvision l.lib l.compiles l.schemaOf regexMatchingConfigured j with
    | .error e =>
        s.goto i (.loadSingle regexMatchingConfigured j) (.leaving (.loaded (.error e)))
    | .ok none =>
        s.goto i (.loadSingle regexMatchingConfigured j) (.leaving (.loaded (.ok .BadContent)))
    | .ok (some p) =>
        s.goto i (.loadSingle regexMatchingConfigured j)
          (.parsed ⟨{ provisioned := p, json := j }, false⟩)
  else s.goto i (.loadSingle regexMatchingConfigured j) (.leaving (.loaded (.ok .BadSchema)))

/-- The lock to write; a thread that does not get it stays where it is. -/
def takeWrite (s : State ι) (i : ι) (op : Op) (st : Stage) : State ι :=
  if h : s.lock.isFree then { s with lock := s.lock.lockWrite i h }.goto i op st else s

/-- The lock to read. -/
def takeRead (s : State ι) (i : ι) (op : Op) (st : Stage) : State ι :=
  if h : s.lock.isReadable then { s with lock := s.lock.lockRead i h }.goto i op st else s

/-- The first step of a call. -/
def enter (s : State ι) (i : ι) : Op → State ι
  | .loadSingle regexMatchingConfigured j => parse l s i regexMatchingConfigured j
  | .clear => takeWrite s i .clear .emptying
  | .find inState method uri =>
      s.goto i (.find inState method uri) (.leaving (.found (.ok
        ((s.map.lookup (calculateStringKey inState method uri)).map (·.stored.provisioned)))))
  | .findRegexMatching inState method uri =>
      takeRead s i (.findRegexMatching inState method uri)
        (.searching (calculateStringKey inState method uri) 0)
  | .asJson ordered =>
      takeRead s i (.asJson ordered) (if ordered then .walking 0 [] else .snapshot)

/-- The loop of `findRegexMatching` at one element; a missing provision is a null pointer
    that is dereferenced. -/
def search (s : State ι) (i : ι) (op : Op) (key : String) (n : Nat) : State ι :=
  match s.orderedKeys[n]? with
  | none => s.goto i op (.leaving (.found (.ok none)))
  | some k =>
      match s.map.lookup k with
      | none => s.goto i op (.leaving (.found (.error .undefined)))
      | some e =>
          if matchesKey l.lib key e.stored.provisioned then
            s.goto i op (.leaving (.found (.ok (some e.stored.provisioned))))
          else s.goto i op (.searching key (n + 1))

/-- The loop of `asJsonString` at one element. -/
def walkOn (s : State ι) (i : ι) (op : Op) (n : Nat) (documents : List Json) : State ι :=
  match s.orderedKeys[n]? with
  | none => s.goto i op (.leaving (.listed (.ok documents)))
  | some k =>
      match s.map.lookup k with
      | none => s.goto i op (.leaving (.listed (.error .undefined)))
      | some e => s.goto i op (.walking (n + 1) (documents ++ [e.stored.json]))

/-- The next step of a call. -/
def advance (s : State ι) (i : ι) (op : Op) : Stage → State ι
  | .called => enter l s i op
  | .parsed e => takeWrite s i op (.locked e)
  | .locked e => s.goto i op (.checked e (s.map.lookup e.getKey).isSome)
  | .checked e present =>
      { s with
        orderedKeys := if present then s.orderedKeys else s.orderedKeys ++ [e.getKey] }.goto
        i op (.pushed e)
  | .pushed e => s.goto i op (.ready { e with resources := true })
  | .ready e =>
      { s with map := s.map.insert e.getKey e }.goto i op (.leaving (.loaded (.ok .Success)))
  | .emptying => { s with orderedKeys := [] }.goto i op .emptied
  | .emptied =>
      { s with map := ∅ }.goto i op (.leaving (.cleared (!s.map.entries.isEmpty)))
  | .searching key n => search l s i op key n
  | .walking n documents => walkOn s i op n documents
  | .snapshot =>
      s.goto i op (.leaving (.listed (.ok
        ((walk.walk ((values s.map).map Entry.stored)).map StoredProvision.json))))
  | .leaving _ =>
      { s with lock := s.lock.unlock i, thread := Function.update s.thread i none }

/-- One step of the system. -/
def step (s : State ι) : Act ι Op → State ι
  | .call i op => if (s.thread i).isNone then s.goto i op .called else s
  | .step i =>
      match s.thread i with
      | none => s
      | some (op, st) => advance l walk s i op st

end Steps

/-! ## What a stage knows -/

/-- A provision read from the document of a load. -/
def Parsed (l : Loader) (op : Op) (e : StoredProvision) : Prop :=
  ∃ regexMatchingConfigured, op = .loadSingle regexMatchingConfigured e.json
    ∧ l.validate e.json = true
    ∧ loadProvision l.lib l.compiles l.schemaOf regexMatchingConfigured e.json
        = .ok (some e.provisioned)
    ∧ e = { provisioned := e.provisioned, json := e.json }

/-- What a call knows at a stage, when `d` is the store that the calls settled so far have
    left. -/
def Fact (l : Loader) (d : ProvisionStore) (op : Op) : Stage → Prop
  | .called => True
  | .parsed e => Parsed l op e.stored
  | .locked e => Parsed l op e.stored
  | .checked e present =>
      Parsed l op e.stored ∧ present = (d.map.lookup e.getKey).isSome
  | .pushed e => Parsed l op e.stored
  | .ready e => Parsed l op e.stored ∧ e.resources = true
  | .emptying => op = .clear
  | .emptied => op = .clear
  | .searching key n =>
      ∃ inState method uri, op = .findRegexMatching inState method uri
        ∧ key = calculateStringKey inState method uri
        ∧ regexLoop l.lib key d.data (d.orderedKeys.drop n)
          = regexLoop l.lib key d.data d.orderedKeys
  | .walking n documents =>
      op = .asJson true
        ∧ documents
          = ((d.orderedKeys.take n).filterMap d.map.lookup).map StoredProvision.json
  | .snapshot => op = .asJson false
  | .leaving _ => True

/-- The stages that hold the lock to write. -/
def Stage.writes : Stage → Bool
  | .locked _ | .checked _ _ | .pushed _ | .ready _ | .emptying | .emptied => true
  | _ => false

/-- The stages that hold the lock to read. -/
def Stage.reads : Stage → Bool
  | .searching _ _ | .walking _ _ | .snapshot => true
  | _ => false

/-- The ordered keys while a writer is at a stage. -/
def orderAt (d : ProvisionStore) : Stage → List String
  | .pushed e | .ready e => (d.add e.stored).orderedKeys
  | .emptied => []
  | _ => d.orderedKeys

/-- The store is the one that the settled calls have left, up to what the holder of the
    lock has done to the ordered keys. -/
structure Shared (l : Loader) (s : State ι) (d : ProvisionStore) : Prop where
  map : mapValues Entry.stored s.map = d.map
  complete : ∀ k e, s.map.lookup k = some e → e.resources = true
  kept : Kept l d
  fact : ∀ i op st, s.thread i = some (op, st) → Fact l d op st
  writes : ∀ i op st, s.thread i = some (op, st) → st.writes = true → s.lock.Writes i
  reads : ∀ i op st, s.thread i = some (op, st) → st.reads = true → s.lock.Reads i
  holder : ∀ i, s.lock.Writes i → ∃ op st, s.thread i = some (op, st)
    ∧ s.orderedKeys = orderAt d st
  order : s.lock.isReadable → s.orderedKeys = d.orderedKeys

theorem shared_initial (l : Loader) : Shared l ({} : State ι) ProvisionStore.emptied where
  map := rfl
  complete := by
    intro k e he
    cases he
  kept := kept_emptied l
  fact := by
    intro i op st hi
    cases hi
  writes := by
    intro i op st hi
    cases hi
  reads := by
    intro i op st hi
    cases hi
  holder := by
    intro i hi
    cases hi
  order := fun _ => rfl

/-- Outside the lock, what a call knows does not depend on the store. -/
theorem Fact.outside {l : Loader} {d d' : ProvisionStore} {op : Op} {st : Stage}
    (hw : st.writes = false) (hr : st.reads = false) (h : Fact l d op st) : Fact l d' op st := by
  cases st with
  | called | leaving => exact True.intro
  | parsed e => exact h
  | locked | checked | pushed | ready | emptying | emptied => cases hw
  | searching | walking | snapshot => cases hr

section Moves

variable [DecidableEq ι] {l : Loader} {s : State ι} {d : ProvisionStore} {i : ι} {op : Op}
variable {st st' : Stage}

@[simp] theorem goto_thread_self (s : State ι) (i : ι) (op : Op) (st : Stage) :
    (s.goto i op st).thread i = some (op, st) := by
  show Function.update s.thread i _ i = _
  rw [Function.update_self]

theorem goto_thread_ne (s : State ι) {i j : ι} (op : Op) (st : Stage) (h : j ≠ i) :
    (s.goto i op st).thread j = s.thread j := by
  show Function.update s.thread i _ j = _
  rw [Function.update_of_ne h]

/-- What holds of the other threads' stages, and of the new one, holds of all. -/
theorem forall_goto {P : ι → Op → Stage → Prop} (hold : ∀ j op st, j ≠ i →
      s.thread j = some (op, st) → P j op st) (hnew : P i op st') :
    ∀ j op'' st'', (s.goto i op st').thread j = some (op'', st'') → P j op'' st'' := by
  intro j op'' st'' hj
  by_cases hji : j = i
  · subst hji
    rw [goto_thread_self] at hj
    cases hj
    exact hnew
  · rw [goto_thread_ne s op st' hji] at hj
    exact hold j op'' st'' hji hj

/-- **A STEP INSIDE THE LOCK** or outside it: the thread goes on to a stage whose lock it
    holds, and to the ordered keys of that stage when it is the writer. -/
theorem Shared.goto (h : Shared l s d) {keys : List String} (hfact : Fact l d op st')
    (hwrites : st'.writes = true → s.lock.Writes i)
    (hreads : st'.reads = true → s.lock.Reads i)
    (hkeys : s.lock.Writes i → keys = orderAt d st')
    (hsame : ¬ s.lock.Writes i → keys = s.orderedKeys) :
    Shared l ({ s with orderedKeys := keys }.goto i op st') d where
  map := h.map
  complete := h.complete
  kept := h.kept
  fact := forall_goto (s := s) (fun j op st _ hj => h.fact j op st hj) hfact
  writes := forall_goto (s := s) (P := fun j _ st => st.writes = true → s.lock.Writes j)
    (fun j op st _ hj => h.writes j op st hj) hwrites
  reads := forall_goto (s := s) (P := fun j _ st => st.reads = true → s.lock.Reads j)
    (fun j op st _ hj => h.reads j op st hj) hreads
  holder := by
    intro j hj
    by_cases hji : j = i
    · subst hji
      exact ⟨op, st', goto_thread_self _ _ _ _, hkeys hj⟩
    · obtain ⟨op', st'', hthread, horder⟩ := h.holder j hj
      refine ⟨op', st'', (goto_thread_ne _ op st' hji).trans hthread, ?_⟩
      exact (hsame fun hi => hji (hi.unique hj)).trans horder
  order := by
    intro hfree
    have hnot : ¬ s.lock.Writes i := by
      intro hi
      cases hi.symm.trans hfree
    exact (hsame hnot).trans (h.order hfree)

/-- The same where the ordered keys stay as they are. -/
theorem Shared.goto_same (h : Shared l s d) (hi : s.thread i = some (op, st))
    (hfact : Fact l d op st') (hwrites : st'.writes = true → s.lock.Writes i)
    (hreads : st'.reads = true → s.lock.Reads i) (horder : orderAt d st' = orderAt d st) :
    Shared l (s.goto i op st') d := by
  refine h.goto hfact hwrites hreads ?_ fun _ => rfl
  intro hw
  obtain ⟨op', st'', hthread, hkeys⟩ := h.holder i hw
  cases hthread.symm.trans hi
  rw [hkeys, horder]

/-- A thread takes the lock to write. -/
theorem Shared.lockWrite (h : Shared l s d) (hfree : s.lock.isFree)
    (hfact : Fact l d op st') (hst : st'.reads = false) (horder : orderAt d st' = d.orderedKeys) :
    Shared l ({ s with lock := s.lock.lockWrite i hfree }.goto i op st') d where
  map := h.map
  complete := h.complete
  kept := h.kept
  fact := forall_goto (s := s) (fun j op st _ hj => h.fact j op st hj) hfact
  writes := by
    refine forall_goto (s := s)
      (P := fun j _ st => st.writes = true → (s.lock.lockWrite i hfree).Writes j) ?_ ?_
    · intro j op st _ hj hw
      exact absurd (h.writes j op st hj hw) hfree.not_writes
    · exact fun _ => (RwLock.lockWrite_writes hfree).mpr rfl
  reads := by
    refine forall_goto (s := s)
      (P := fun j _ st => st.reads = true → (s.lock.lockWrite i hfree).Reads j) ?_ ?_
    · intro j op st _ hj hr
      exact absurd (h.reads j op st hj hr) hfree.not_reads
    · intro hr
      rw [hst] at hr
      cases hr
  holder := by
    intro j hj
    obtain rfl := (RwLock.lockWrite_writes hfree).mp hj
    exact ⟨op, st', goto_thread_self _ _ _ _, (h.order hfree.1).trans horder.symm⟩
  order := by
    intro hnone
    cases hnone

/-- A thread takes the lock to read. -/
theorem Shared.lockRead (h : Shared l s d) (hfree : s.lock.isReadable)
    (hfact : Fact l d op st') (hst : st'.writes = false) :
    Shared l ({ s with lock := s.lock.lockRead i hfree }.goto i op st') d where
  map := h.map
  complete := h.complete
  kept := h.kept
  fact := forall_goto (s := s) (fun j op st _ hj => h.fact j op st hj) hfact
  writes := by
    refine forall_goto (s := s)
      (P := fun j _ st => st.writes = true → (s.lock.lockRead i hfree).Writes j) ?_ ?_
    · intro j op st _ hj hw
      cases (h.writes j op st hj hw).symm.trans hfree
    · intro hw
      rw [hst] at hw
      cases hw
  reads := by
    refine forall_goto (s := s)
      (P := fun j _ st => st.reads = true → (s.lock.lockRead i hfree).Reads j) ?_ ?_
    · intro j op st _ hj hr
      exact (RwLock.lockRead_reads hfree).mpr (Or.inr (h.reads j op st hj hr))
    · exact fun _ => (RwLock.lockRead_reads hfree).mpr (Or.inl rfl)
  holder := by
    intro j hj
    exact absurd hj (RwLock.lockRead_writes hfree)
  order := fun _ => h.order hfree

/-- A thread returns and gives up the lock. -/
theorem Shared.leave (h : Shared l s d) {a : Answer}
    (hi : s.thread i = some (op, .leaving a)) :
    Shared l { s with lock := s.lock.unlock i, thread := Function.update s.thread i none } d := by
  have hthread : ∀ j op st, Function.update s.thread i none j = some (op, st) →
      j ≠ i ∧ s.thread j = some (op, st) := by
    intro j op st hj
    by_cases hji : j = i
    · subst hji
      rw [Function.update_self] at hj
      cases hj
    · rw [Function.update_of_ne hji] at hj
      exact ⟨hji, hj⟩
  refine ⟨h.map, h.complete, h.kept, ?_, ?_, ?_, ?_, ?_⟩
  · intro j op st hj
    exact h.fact j op st (hthread j op st hj).2
  · intro j op st hj hw
    obtain ⟨hne, hj⟩ := hthread j op st hj
    exact RwLock.unlock_writes.mpr ⟨hne, h.writes j op st hj hw⟩
  · intro j op st hj hr
    obtain ⟨hne, hj⟩ := hthread j op st hj
    exact RwLock.unlock_reads.mpr ⟨hne, h.reads j op st hj hr⟩
  · intro j hj
    obtain ⟨hne, hw⟩ := RwLock.unlock_writes.mp hj
    obtain ⟨op', st', hj', hkeys⟩ := h.holder j hw
    exact ⟨op', st', (Function.update_of_ne hne _ _).trans hj', hkeys⟩
  · intro hnone
    show s.orderedKeys = d.orderedKeys
    by_cases hw : s.lock.Writes i
    · obtain ⟨op', st', hthread, hkeys⟩ := h.holder i hw
      cases hthread.symm.trans hi
      exact hkeys
    · refine h.order ?_
      have hsame : (s.lock.unlock i).writer = s.lock.writer := if_neg hw
      exact hsame.symm.trans hnone

/-- **THE WRITER SETTLES**: the map becomes that of the next store, and the ordered keys
    are those already. -/
theorem Shared.write (h : Shared l s d) {d' : ProvisionStore} {map : TextMap Entry} {a : Answer}
    (hi : s.thread i = some (op, st)) (hw : st.writes = true)
    (hmap : mapValues Entry.stored map = d'.map)
    (hcomplete : ∀ k e, map.lookup k = some e → e.resources = true) (hkept : Kept l d')
    (horder : orderAt d st = d'.orderedKeys) :
    Shared l ({ s with map := map }.goto i op (.leaving a)) d' := by
  have hwriter := h.writes i op st hi hw
  have hothers : ∀ j op st, j ≠ i → s.thread j = some (op, st) →
      st.writes = false ∧ st.reads = false := by
    intro j op st hne hj
    refine ⟨Bool.eq_false_iff.mpr fun hjw => ?_, Bool.eq_false_iff.mpr fun hjr => ?_⟩
    · exact hne (hwriter.unique (h.writes j op st hj hjw))
    · exact hwriter.not_reads (h.reads j op st hj hjr)
  have hkeys : s.orderedKeys = d'.orderedKeys := by
    obtain ⟨op', st'', hthread, hkeys⟩ := h.holder i hwriter
    cases hthread.symm.trans hi
    exact hkeys.trans horder
  refine ⟨hmap, hcomplete, hkept, ?_, ?_, ?_, ?_, fun _ => hkeys⟩
  · refine forall_goto (s := s) ?_ True.intro
    intro j op st hne hj
    obtain ⟨hjw, hjr⟩ := hothers j op st hne hj
    exact (h.fact j op st hj).outside hjw hjr
  · refine forall_goto (s := s) (P := fun j _ st => st.writes = true → s.lock.Writes j) ?_ ?_
    · exact fun j op st _ hj => h.writes j op st hj
    · exact fun hno => absurd hno Bool.false_ne_true
  · refine forall_goto (s := s) (P := fun j _ st => st.reads = true → s.lock.Reads j) ?_ ?_
    · exact fun j op st _ hj => h.reads j op st hj
    · exact fun hno => absurd hno Bool.false_ne_true
  · intro j hj
    obtain rfl := hwriter.unique hj
    exact ⟨op, .leaving a, goto_thread_self _ _ _ _, hkeys⟩

end Moves

/-! ## One step -/

section Lookups

variable {l : Loader} {s : State ι} {d : ProvisionStore} (h : Shared l s d)

include h

theorem Shared.lookup (k : String) : d.map.lookup k = (s.map.lookup k).map Entry.stored := by
  rw [← h.map, lookup_mapValues]

theorem Shared.lookup_data (k : String) :
    d.data.map.lookup k = (s.map.lookup k).map (·.stored.provisioned) := by
  show (mapValues StoredProvision.provisioned d.map).lookup k = _
  rw [lookup_mapValues, h.lookup, Option.map_map]
  rfl

/-- A reader sees the ordered keys of the settled calls. -/
theorem Shared.order_of_reads {i : ι} {op : Op} {st : Stage}
    (hi : s.thread i = some (op, st)) (hst : st.reads = true) :
    s.orderedKeys = d.orderedKeys :=
  h.order (RwLock.readable_of_reads (h.reads i op st hi hst))

end Lookups

/-- A step settles nothing and is not visible, or it settles the answer that the store
    gives now. -/
def Outcome (l : Loader) (walk : Iteration StoredProvision) (d : ProvisionStore) (i : ι)
    (op : Op) (s' : State ι) : Prop :=
  (∃ st, s'.thread i = some (op, st) ∧ answerOf st = none ∧ Shared l s' d)
    ∨ ∃ st, s'.thread i = some (op, st) ∧ answerOf st = some (exec l walk d op).1
      ∧ Shared l s' (exec l walk d op).2

section Advance

variable [DecidableEq ι] {l : Loader} {walk : Iteration StoredProvision} {s : State ι}
variable {d : ProvisionStore} {i : ι} {op : Op}

omit [DecidableEq ι] in
theorem Outcome.silent {s' : State ι} {st : Stage} (h : Shared l s' d)
    (hi : s'.thread i = some (op, st)) (hst : answerOf st = none) :
    Outcome l walk d i op s' := Or.inl ⟨st, hi, hst, h⟩

omit [DecidableEq ι] in
theorem Outcome.settles {s' : State ι} {a : Answer} (hi : s'.thread i = some (op, .leaving a))
    (hanswer : (exec l walk d op).1 = a) (h : Shared l s' (exec l walk d op).2) :
    Outcome l walk d i op s' := Or.inr ⟨_, hi, by rw [hanswer]; rfl, h⟩

/-- A thread asks for the lock to write. -/
theorem takeWrite_shared (h : Shared l s d) {st st' : Stage} (hi : s.thread i = some (op, st))
    (hopen : answerOf st = none) (hopen' : answerOf st' = none)
    (hfact : Fact l d op st') (hst : st'.reads = false)
    (horder : orderAt d st' = d.orderedKeys) :
    Outcome l walk d i op (takeWrite s i op st') := by
  unfold takeWrite
  by_cases hfree : s.lock.isFree
  · rw [dif_pos hfree]
    exact .silent (h.lockWrite hfree hfact hst horder) (goto_thread_self _ _ _ _) hopen'
  · rw [dif_neg hfree]
    exact .silent h hi hopen

/-- A thread asks for the lock to read. -/
theorem takeRead_shared (h : Shared l s d) {st st' : Stage} (hi : s.thread i = some (op, st))
    (hopen : answerOf st = none) (hopen' : answerOf st' = none)
    (hfact : Fact l d op st') (hst : st'.writes = false) :
    Outcome l walk d i op (takeRead s i op st') := by
  unfold takeRead
  by_cases hfree : s.lock.isReadable
  · rw [dif_pos hfree]
    exact .silent (h.lockRead hfree hfact hst) (goto_thread_self _ _ _ _) hopen'
  · rw [dif_neg hfree]
    exact .silent h hi hopen

/-- A thread settles an answer that leaves the store alone. -/
theorem Outcome.answers (h : Shared l s d) {st : Stage} (hi : s.thread i = some (op, st))
    (hst : orderAt d st = d.orderedKeys) {a : Answer} (hanswer : (exec l walk d op).1 = a)
    (hsame : (exec l walk d op).2 = d) : Outcome l walk d i op (s.goto i op (.leaving a)) := by
  refine .settles (goto_thread_self _ _ _ _) hanswer ?_
  rw [hsame]
  exact h.goto_same hi True.intro (fun hno => absurd hno Bool.false_ne_true)
    (fun hno => absurd hno Bool.false_ne_true) hst.symm

theorem parse_shared (h : Shared l s d) {regexMatchingConfigured : Bool} {j : Json}
    (hi : s.thread i = some (.loadSingle regexMatchingConfigured j, .called)) :
    Outcome l walk d i (.loadSingle regexMatchingConfigured j)
      (parse l s i regexMatchingConfigured j) := by
  unfold parse
  by_cases hvalid : l.validate j = true
  · rw [if_pos hvalid]
    cases hload : loadProvision l.lib l.compiles l.schemaOf regexMatchingConfigured j with
    | error e =>
        refine .answers h hi rfl ?_ ?_
        · simp only [exec, ProvisionStore.loadSingle, hvalid, hload, if_true]
        · simp only [exec, ProvisionStore.loadSingle, hvalid, hload, if_true]
    | ok loaded =>
        cases loaded with
        | none =>
            refine .answers h hi rfl ?_ ?_
            · simp only [exec, ProvisionStore.loadSingle, hvalid, hload, if_true]
            · simp only [exec, ProvisionStore.loadSingle, hvalid, hload, if_true]
        | some p =>
            refine .silent ?_ (goto_thread_self _ _ _ _) rfl
            exact h.goto_same hi ⟨regexMatchingConfigured, rfl, hvalid, hload, rfl⟩
              (fun hno => absurd hno Bool.false_ne_true)
              (fun hno => absurd hno Bool.false_ne_true) rfl
  · rw [if_neg hvalid]
    refine .answers h hi rfl ?_ ?_
    · simp only [exec, ProvisionStore.loadSingle, if_neg hvalid]
    · simp only [exec, ProvisionStore.loadSingle, if_neg hvalid]

theorem enter_shared (h : Shared l s d) (hi : s.thread i = some (op, .called)) :
    Outcome l walk d i op (enter l s i op) := by
  cases op with
  | loadSingle regexMatchingConfigured j => exact parse_shared h hi
  | clear => exact takeWrite_shared h hi rfl rfl rfl rfl rfl
  | find inState method uri =>
      refine .answers h hi rfl ?_ rfl
      show Answer.found (.ok (d.data.map.lookup (calculateStringKey inState method uri))) = _
      rw [h.lookup_data]
  | findRegexMatching inState method uri =>
      refine takeRead_shared h hi rfl rfl ?_ rfl
      exact ⟨inState, method, uri, rfl, rfl, congrArg _ List.drop_zero⟩
  | asJson ordered =>
      cases ordered with
      | true => exact takeRead_shared h hi rfl rfl ⟨rfl, rfl⟩ rfl
      | false => exact takeRead_shared h hi rfl rfl rfl rfl

variable (walk d) in
/-- A document that was read is inserted. -/
theorem exec_parsed {e : StoredProvision} (h : Parsed l op e) :
    exec l walk d op = (.loaded (.ok .Success), d.add e) := by
  obtain ⟨regexMatchingConfigured, rfl, hvalid, hload, he⟩ := h
  show (Answer.loaded (d.loadSingle l regexMatchingConfigured e.json).1,
    (d.loadSingle l regexMatchingConfigured e.json).2) = _
  unfold ProvisionStore.loadSingle
  rw [if_pos hvalid, hload]
  show (Answer.loaded (.ok .Success),
    d.add { provisioned := e.provisioned, json := e.json }) = _
  rw [← he]

theorem ready_shared (h : Shared l s d) {e : Entry} (hi : s.thread i = some (op, .ready e)) :
    Outcome l walk d i op (advance l walk s i op (.ready e)) := by
  obtain ⟨hparsed, hresources⟩ := h.fact i op _ hi
  have hexec := exec_parsed walk d hparsed
  refine .settles (goto_thread_self _ _ _ _) (congrArg Prod.fst hexec) ?_
  rw [hexec]
  refine h.write hi rfl ?_ ?_ ?_ rfl
  · rw [mapValues_insert, h.map]
    rfl
  · intro k e' he'
    by_cases hk : k = e.getKey
    · rw [hk, AList.lookup_insert] at he'
      obtain rfl := Option.some.inj he'
      exact hresources
    · rw [AList.lookup_insert_ne hk] at he'
      exact h.complete k e' he'
  · obtain ⟨_, -, hvalid, hload, -⟩ := hparsed
    exact h.kept.add hvalid hload

theorem emptied_shared (h : Shared l s d) (hi : s.thread i = some (op, .emptied)) :
    Outcome l walk d i op (advance l walk s i op .emptied) := by
  obtain rfl : op = .clear := h.fact i op _ hi
  refine .settles (goto_thread_self _ _ _ _) ?_ ?_
  · show Answer.cleared (!d.map.entries.isEmpty) = Answer.cleared (!s.map.entries.isEmpty)
    rw [← h.map]
    show Answer.cleared (!(s.map.entries.map (changed Entry.stored)).isEmpty) = _
    rw [List.isEmpty_map]
  · refine h.write hi rfl rfl ?_ (kept_emptied l) rfl
    intro k e he
    cases he

/-- **A SEARCH UNDER THE LOCK** goes through the keys of one and the same store. -/
theorem searching_shared (h : Shared l s d) {key : String} {n : Nat}
    (hi : s.thread i = some (op, .searching key n)) :
    Outcome l walk d i op (search l s i op key n) := by
  obtain ⟨inState, method, uri, hop, hkey, hloop⟩ := h.fact i op _ hi
  have horder := h.order_of_reads hi rfl
  have hexec : exec l walk d op = (.found (regexLoop l.lib key d.data d.orderedKeys), d) := by
    rw [hop, hkey]
    rfl
  have hleave : ∀ r, regexLoop l.lib key d.data (d.orderedKeys.drop n) = r →
      Outcome l walk d i op (s.goto i op (.leaving (.found r))) := by
    intro r hr
    refine .answers h hi rfl ?_ ?_
    · rw [hexec, ← hloop, hr]
    · rw [hexec]
  unfold search
  rw [horder]
  cases hk : d.orderedKeys[n]? with
  | none =>
      refine hleave _ ?_
      rw [List.drop_eq_nil_of_le (List.getElem?_eq_none_iff.mp hk)]
      rfl
  | some k =>
      have hdrop : d.orderedKeys.drop n = k :: d.orderedKeys.drop (n + 1) := by
        obtain ⟨hn, rfl⟩ := List.getElem?_eq_some_iff.mp hk
        exact List.drop_eq_getElem_cons hn
      have hdata := h.lookup_data k
      dsimp only
      cases hlookup : s.map.lookup k with
      | none =>
          refine hleave _ ?_
          rw [hlookup] at hdata
          rw [hdrop, regexLoop, hdata]
          rfl
      | some e =>
          rw [hlookup] at hdata
          have hcons : regexLoop l.lib key d.data (d.orderedKeys.drop n)
              = if matchesKey l.lib key e.stored.provisioned then
                  .ok (some e.stored.provisioned)
                else regexLoop l.lib key d.data (d.orderedKeys.drop (n + 1)) := by
            rw [hdrop, regexLoop, hdata]
            rfl
          dsimp only
          by_cases hmatch : matchesKey l.lib key e.stored.provisioned = true
          · rw [if_pos hmatch]
            refine hleave _ ?_
            rw [hcons, if_pos hmatch]
          · rw [if_neg hmatch]
            rw [if_neg hmatch] at hcons
            refine .silent ?_ (goto_thread_self _ _ _ _) rfl
            exact h.goto_same hi ⟨inState, method, uri, hop, hkey, hcons.symm.trans hloop⟩
              (fun hno => absurd hno Bool.false_ne_true) (fun _ => h.reads i op _ hi rfl) rfl

/-- A listing of all provisions leaves none out. -/
theorem all_listed (es : List StoredProvision) :
    es.filter (fun e => !(false && e.employed)) = es := List.filter_eq_self.mpr fun _ _ => rfl

/-- The listing in insertion order, once its loop is through. -/
theorem asJson_ordered (h : Kept l d) :
    d.asJson walk true false = .ok ((d.orderedKeys.filterMap d.map.lookup).map
      StoredProvision.json) := by
  show (d.fetch d.orderedKeys).bind _ = _
  rw [h.fetch]
  show Except.ok (((inOrder d).filter _).map StoredProvision.json) = _
  rw [all_listed]
  rfl

theorem walking_shared (h : Shared l s d) {n : Nat} {documents : List Json}
    (hi : s.thread i = some (op, .walking n documents)) :
    Outcome l walk d i op (walkOn s i op n documents) := by
  obtain ⟨rfl, hdocuments⟩ := h.fact i op _ hi
  have horder := h.order_of_reads hi rfl
  unfold walkOn
  rw [horder]
  cases hk : d.orderedKeys[n]? with
  | none =>
      refine .answers h hi rfl ?_ rfl
      show Answer.listed (d.asJson walk true false) = _
      rw [asJson_ordered h.kept, hdocuments,
        List.take_of_length_le (List.getElem?_eq_none_iff.mp hk)]
  | some k =>
      obtain ⟨e, he⟩ := Option.isSome_iff_exists.mp
        ((h.kept.keys k).mp (List.mem_of_getElem? hk))
      have hlookup := h.lookup k
      dsimp only
      cases hentry : s.map.lookup k with
      | none =>
          rw [hentry, he] at hlookup
          cases hlookup
      | some entry =>
          rw [hentry] at hlookup
          refine .silent ?_ (goto_thread_self _ _ _ _) rfl
          refine h.goto_same hi ⟨rfl, ?_⟩ (fun hno => absurd hno Bool.false_ne_true)
            (fun _ => h.reads i _ _ hi rfl) rfl
          rw [List.take_add_one, hk, List.filterMap_append, List.map_append, hdocuments]
          show _ = _ ++ (([k].filterMap d.map.lookup).map StoredProvision.json)
          rw [List.filterMap_cons, hlookup]
          rfl

theorem snapshot_shared (h : Shared l s d) (hi : s.thread i = some (op, .snapshot)) :
    Outcome l walk d i op (advance l walk s i op .snapshot) := by
  obtain rfl : op = .asJson false := h.fact i op _ hi
  refine .answers h hi rfl ?_ rfl
  show Answer.listed (.ok (((walk.walk (values d.map)).filter _).map StoredProvision.json)) = _
  rw [all_listed, ← h.map, values_mapValues]

/-- **STEP LEMMA**: the next step of a call that has not settled its answer. -/
theorem advance_shared (h : Shared l s d) {st : Stage} (hi : s.thread i = some (op, st))
    (hopen : answerOf st = none) :
    Outcome l walk d i op (advance l walk s i op st) := by
  have hfact := h.fact i op st hi
  cases st with
  | called => exact enter_shared h hi
  | parsed e => exact takeWrite_shared h hi rfl rfl hfact rfl rfl
  | locked e =>
      refine .silent ?_ (goto_thread_self _ _ _ _) rfl
      refine h.goto_same hi ⟨hfact, ?_⟩ (fun _ => h.writes i op _ hi rfl)
        (fun hno => absurd hno Bool.false_ne_true) rfl
      rw [h.lookup, Option.isSome_map]
  | checked e present =>
      obtain ⟨hparsed, hpresent⟩ := hfact
      have hwriter := h.writes i op _ hi rfl
      refine .silent ?_ (goto_thread_self _ _ _ _) rfl
      refine h.goto hparsed (fun _ => hwriter) (fun hno => absurd hno Bool.false_ne_true) ?_ ?_
      · intro hw
        obtain ⟨op', st', hthread, hkeys⟩ := h.holder i hw
        cases hthread.symm.trans hi
        rw [hkeys, hpresent]
        rfl
      · exact fun hnot => absurd hwriter hnot
  | pushed e =>
      refine .silent ?_ (goto_thread_self _ _ _ _) rfl
      exact h.goto_same hi ⟨hfact, rfl⟩ (fun _ => h.writes i op _ hi rfl)
        (fun hno => absurd hno Bool.false_ne_true) rfl
  | ready e => exact ready_shared h hi
  | emptying =>
      have hwriter := h.writes i op _ hi rfl
      refine .silent ?_ (goto_thread_self _ _ _ _) rfl
      exact h.goto hfact (fun _ => hwriter) (fun hno => absurd hno Bool.false_ne_true)
        (fun _ => rfl) (fun hnot => absurd hwriter hnot)
  | emptied => exact emptied_shared h hi
  | searching key n => exact searching_shared h hi
  | walking n documents => exact walking_shared h hi
  | snapshot => exact snapshot_shared h hi
  | leaving a => cases hopen

end Advance

/-! ## Whole runs -/

section Runs

variable [DecidableEq ι] (l : Loader) (walk : Iteration StoredProvision)

theorem step_of_thread {s : State ι} {i : ι} {op : Op} {st : Stage}
    (hi : s.thread i = some (op, st)) :
    step l walk s (.step i) = advance l walk s i op st := by
  simp only [step, hi]

theorem leaving_of_answer {st : Stage} {a : Answer} (h : answerOf st = some a) :
    st = .leaving a := by
  cases st with
  | leaving a' =>
      cases h
      rfl
  | called | parsed | locked | checked | pushed | ready | emptying | emptied | searching
  | walking | snapshot => cases h

/-- A step before the answer keeps the thread in its call, and the others where they are. -/
theorem advance_goto {s : State ι} {i : ι} {op : Op} {st : Stage}
    (hi : s.thread i = some (op, st)) (hopen : answerOf st = none) :
    ∃ (s' : State ι) (st' : Stage), advance l walk s i op st = s'.goto i op st'
      ∧ s'.thread = s.thread := by
  have hstay : ∃ (s' : State ι) (st' : Stage), s = s'.goto i op st' ∧ s'.thread = s.thread := by
    refine ⟨s, st, ?_, rfl⟩
    show s = { s with thread := Function.update s.thread i (some (op, st)) }
    rw [← hi, Function.update_eq_self]
  have hwrite : ∀ st', ∃ (s' : State ι) (st'' : Stage),
      takeWrite s i op st' = s'.goto i op st'' ∧ s'.thread = s.thread := by
    intro st'
    unfold takeWrite
    split
    · exact ⟨_, _, rfl, rfl⟩
    · exact hstay
  have hread : ∀ st', ∃ (s' : State ι) (st'' : Stage),
      takeRead s i op st' = s'.goto i op st'' ∧ s'.thread = s.thread := by
    intro st'
    unfold takeRead
    split
    · exact ⟨_, _, rfl, rfl⟩
    · exact hstay
  cases st with
  | called =>
      cases op with
      | loadSingle regexMatchingConfigured j =>
          show ∃ s' st', parse l s i regexMatchingConfigured j = _ ∧ _
          unfold parse
          split
          · split <;> exact ⟨_, _, rfl, rfl⟩
          · exact ⟨_, _, rfl, rfl⟩
      | clear => exact hwrite _
      | find inState method uri => exact ⟨_, _, rfl, rfl⟩
      | findRegexMatching inState method uri => exact hread _
      | asJson ordered => exact hread _
  | parsed e => exact hwrite _
  | locked | checked | pushed | ready | emptying | emptied | snapshot =>
      exact ⟨_, _, rfl, rfl⟩
  | searching key n =>
      show ∃ s' st', search l s i op key n = _ ∧ _
      unfold search
      repeat' split
      all_goals exact ⟨_, _, rfl, rfl⟩
  | walking n documents =>
      show ∃ s' st', walkOn s i op n documents = _ ∧ _
      unfold walkOn
      repeat' split
      all_goals exact ⟨_, _, rfl, rfl⟩
  | leaving a => cases hopen

variable (ι) in
/-- The threads of the store. -/
def threads : Threads (State ι) ι Op Stage Answer where
  step := step l walk
  thread := State.thread
  answer := answerOf
  called := .called
  answer_called := rfl
  call_self := by
    intro s i op
    show (if (s.thread i).isNone then s.goto i op .called else s).thread i = _
    split
    · exact goto_thread_self s i op .called
    · rfl
  call_other := by
    intro s i j op hne
    show (if (s.thread i).isNone then s.goto i op .called else s).thread j = _
    split
    · exact goto_thread_ne s op .called hne
    · rfl
  step_idle := by
    intro s i hi
    simp only [step, hi]
  step_other := by
    intro s i j hne
    cases hi : s.thread i with
    | none => simp only [step, hi]
    | some x =>
        obtain ⟨op, st⟩ := x
        rw [step_of_thread l walk hi]
        cases hanswer : answerOf st with
        | none =>
            obtain ⟨s', st', hgoto, hsame⟩ := advance_goto l walk hi hanswer
            rw [hgoto, goto_thread_ne s' op st' hne, hsame]
        | some a =>
            obtain rfl := leaving_of_answer hanswer
            exact Function.update_of_ne hne _ _
  step_open := by
    intro s i op st hi hopen
    obtain ⟨s', st', hgoto, -⟩ := advance_goto l walk hi hopen
    exact ⟨st', by rw [step_of_thread l walk hi, hgoto, goto_thread_self]⟩
  step_answered := by
    intro s i op st a hi hanswer
    obtain rfl := leaving_of_answer hanswer
    left
    rw [step_of_thread l walk hi]
    exact Function.update_self _ _ _

/-- A call that begins is not visible yet. -/
theorem call_shared {s : State ι} {d : ProvisionStore} (h : Shared l s d) (i : ι) (op : Op) :
    Shared l (step l walk s (.call i op)) d := by
  show Shared l (if (s.thread i).isNone then s.goto i op .called else s) d
  cases hi : s.thread i with
  | some x => exact h
  | none =>
      refine h.goto True.intro (fun hno => absurd hno Bool.false_ne_true)
        (fun hno => absurd hno Bool.false_ne_true) ?_ fun _ => rfl
      intro hw
      obtain ⟨op', st, hthread, -⟩ := h.holder i hw
      cases hthread.symm.trans hi

/-- **SIMULATION**: the store in use behaves like the store used by one caller at a time. -/
theorem shared_simulates :
    (threads ι l walk).Simulates (exec l walk) (fun s d => Shared l s d) := by
  refine Threads.simulates_of ?_ ?_ ?_ ?_
  · exact fun s d i op h => call_shared l walk h i op
  · intro s d i h hi
    have hstep : step l walk s (.step i) = s := by
      have hnone : s.thread i = none := hi
      simp only [step, hnone]
    show Shared l (step l walk s (.step i)) d
    rw [hstep]
    exact h
  · intro s d i op st h hi hopen
    show Outcome l walk d i op (step l walk s (.step i))
    rw [step_of_thread l walk hi]
    exact advance_shared h hi hopen
  · intro s d i op st a h hi hanswer
    obtain rfl := leaving_of_answer hanswer
    show Shared l (step l walk s (.step i)) d
    rw [step_of_thread l walk hi]
    exact h.leave hi

/-- No search and no listing of a store that is in order meets a missing provision. -/
theorem exec_defined {d : ProvisionStore} (h : Kept l d) (op : Op) :
    (∀ e, (exec l walk d op).1 ≠ .found (.error e))
      ∧ ∀ e, (exec l walk d op).1 ≠ .listed (.error e) := by
  have hloop : ∀ (key : String) (keys : List String), (∀ k ∈ keys, k ∈ d.orderedKeys) →
      ∃ r, regexLoop l.lib key d.data keys = .ok r := by
    intro key keys
    induction keys with
    | nil => exact fun _ => ⟨none, rfl⟩
    | cons k keys ih =>
        intro hkeys
        obtain ⟨e, he⟩ := Option.isSome_iff_exists.mp
          ((h.keys k).mp (hkeys k List.mem_cons_self))
        have hdata : d.data.map.lookup k = some e.provisioned := by
          show (mapValues StoredProvision.provisioned d.map).lookup k = _
          rw [lookup_mapValues, he]
          rfl
        rw [regexLoop, hdata]
        dsimp only
        split
        · exact ⟨_, rfl⟩
        · exact ih fun k' hk' => hkeys k' (List.mem_cons_of_mem k hk')
  cases op with
  | loadSingle | clear | find =>
      constructor
      · intro e he
        cases he
      · intro e he
        cases he
  | findRegexMatching inState method uri =>
      obtain ⟨r, hr⟩ := hloop (calculateStringKey inState method uri) d.orderedKeys
        fun _ hk => hk
      have hanswer : (exec l walk d (.findRegexMatching inState method uri)).1
          = .found (.ok r) := congrArg Answer.found hr
      rw [hanswer]
      constructor
      · intro e he
        cases he
      · intro e he
        cases he
  | asJson ordered =>
      obtain ⟨all, hall, -⟩ := h.elements walk ordered
      have hanswer : ∃ documents,
          (exec l walk d (.asJson ordered)).1 = .listed (.ok documents) := by
        show ∃ documents, Answer.listed (d.asJson walk ordered false) = _
        rw [ProvisionStore.asJson, hall]
        exact ⟨_, rfl⟩
      obtain ⟨documents, hdocuments⟩ := hanswer
      rw [hdocuments]
      constructor
      · intro e he
        cases he
      · intro e he
        cases he

/-- **SHARING**: the calls of every run answer as if they had been made one after the
    other; no search and no listing meets a missing provision; and every provision there is
    has its resources. -/
theorem provisions_linearized (acts : List (Act ι Op)) :
    (threads ι l walk).Linearized {} acts (exec l walk) ProvisionStore.emptied
    ∧ (∀ x ∈ (threads ι l walk).settledCalls {} acts, ∀ e,
        x.2.2 ≠ .found (.error e) ∧ x.2.2 ≠ .listed (.error e))
    ∧ ∀ k e, ((threads ι l walk).reached ({} : State ι) acts).map.lookup k = some e →
        e.resources = true := by
  have hsim : (threads ι l walk).Simulates (exec l walk) _ := shared_simulates l walk
  refine ⟨hsim.linearized acts (shared_initial l) fun _ => rfl, ?_, ?_⟩
  · refine hsim.settled_forall acts (P := fun a => ∀ e, a ≠ .found (.error e)
      ∧ a ≠ .listed (.error e)) ?_ (shared_initial l)
    intro s d op h e
    obtain ⟨hfound, hlisted⟩ := exec_defined l walk h.kept op
    exact ⟨hfound e, hlisted e⟩
  · exact (hsim.outputs_eq acts {} _ (shared_initial l)).2.complete

end Runs

end H2ProvisionSharing
