import H2agent.ClientDocumentProofs
import H2agent.LinearizationProofs

/-! # Client provisions under concurrent calls

    The store of client provisions has no lock but that of the map.  A load puts the
    provision into the map first and gives it its resources afterwards; on the server it is
    the other way round, "so traffic threads never see a provision with null resource
    pointers".

    * `client_simulates` — as far as the map is concerned the calls are atomic;
    * `Making` — which provisions still lack their resources;
    * `client_provisions_shared` — the calls of every run answer as if they had been made
      one after the other, and a null pointer is met exactly where a thread uses a
      provision whose load stands between the map and the setters. -/

namespace H2ClientSharing

open CppText H2ClientDocuments H2Convert H2Key H2Load H2Store H2Transformation JsonValue
open H2Provisions (LoadResult)
open Linearization MapListing StepRun

/-! ## The calls -/

inductive Op where
  | loadSingle (j : Json)
  | clear
  | find (inState clientProvisionId : String)

inductive Answer where
  | loaded (result : Except Fault LoadResult)
  | cleared (deleted : Bool)
  | found (provision : Option StoredProvision)

/-- The store when nobody else uses it. -/
def exec (l : Loader) (d : ProvisionStore) : Op → Answer × ProvisionStore
  | .loadSingle j => (.loaded (d.loadSingle l j).1, (d.loadSingle l j).2)
  | .clear => (.cleared (!d.entries.isEmpty), ∅)
  | .find inState clientProvisionId =>
      (.found (d.lookup (calculateStringKey inState clientProvisionId "")), d)

/-- A provision and the object that it is. -/
structure Entry where
  object : Nat
  stored : StoredProvision

def Entry.getKey (e : Entry) : String := e.stored.getKey

/-- How far a call has come: a load has made its object, or added it to the map; a search
    holds the object it found and is about to use it. -/
inductive Stage where
  | called
  | made (e : Entry)
  | added (e : Entry)
  | holding (e : Entry)
  | leaving (a : Answer)

/-- A load that has added its provision and a search that holds one have their answer. -/
def answerOf : Stage → Option Answer
  | .added _ => some (.loaded (.ok .Success))
  | .holding e => some (.found (some e.stored))
  | .leaving a => some a
  | _ => none

/-- The map, the number of objects made, which of them have their resources, the call each
    thread is in, and whether a null pointer was dereferenced. -/
structure State (ι : Type) where
  map : TextMap Entry := ∅
  objects : Nat := 0
  resources : Nat → Bool := fun _ => false
  thread : ι → Option (Op × Stage) := fun _ => none
  broken : Bool := false

variable {ι : Type}

section Steps

variable [DecidableEq ι]

def State.goto (s : State ι) (i : ι) (op : Op) (st : Stage) : State ι :=
  { s with thread := Function.update s.thread i (some (op, st)) }

variable (l : Loader)

/-- The part of `loadSingle` before the map. -/
def make (s : State ι) (i : ι) (j : Json) : State ι :=
  if l.validate j then
    match loadProvision l.lib l.compiles l.schemaOf j with
    | .error e => s.goto i (.loadSingle j) (.leaving (.loaded (.error e)))
    | .ok none => s.goto i (.loadSingle j) (.leaving (.loaded (.ok .BadContent)))
    | .ok (some p) =>
        match saveDynamics idle j with
        | none => s.goto i (.loadSingle j) (.leaving (.loaded (.error .json)))
        | some json =>
            { s with objects := s.objects + 1 }.goto i (.loadSingle j)
              (.made ⟨s.objects, { loaded := p, json := json }⟩)
  else s.goto i (.loadSingle j) (.leaving (.loaded (.ok .BadSchema)))

/-- `find`. -/
def search (s : State ι) (i : ι) (inState clientProvisionId : String) : State ι :=
  match s.map.lookup (calculateStringKey inState clientProvisionId "") with
  | none => s.goto i (.find inState clientProvisionId) (.leaving (.found none))
  | some e => s.goto i (.find inState clientProvisionId) (.holding e)

/-- The next step of a call. -/
def advance (s : State ι) (i : ι) (op : Op) : Stage → State ι
  | .called =>
      match op with
      | .loadSingle j => make l s i j
      | .clear =>
          { s with map := ∅ }.goto i .clear (.leaving (.cleared (!s.map.entries.isEmpty)))
      | .find inState clientProvisionId => search s i inState clientProvisionId
  | .made e => { s with map := s.map.insert e.getKey e }.goto i op (.added e)
  | .added e =>
      { s with resources := Function.update s.resources e.object true }.goto i op
        (.leaving (.loaded (.ok .Success)))
  | .holding e =>
      { s with broken := s.broken || !s.resources e.object }.goto i op
        (.leaving (.found (some e.stored)))
  | .leaving _ => { s with thread := Function.update s.thread i none }

def step (s : State ι) : Act ι Op → State ι
  | .call i op => if (s.thread i).isNone then s.goto i op .called else s
  | .step i =>
      match s.thread i with
      | none => s
      | some (op, st) => advance l s i op st

@[simp] theorem goto_thread_self (s : State ι) (i : ι) (op : Op) (st : Stage) :
    (s.goto i op st).thread i = some (op, st) := by
  show Function.update s.thread i _ i = _
  rw [Function.update_self]

theorem goto_thread_ne (s : State ι) {i j : ι} (op : Op) (st : Stage) (h : j ≠ i) :
    (s.goto i op st).thread j = s.thread j := by
  show Function.update s.thread i _ j = _
  rw [Function.update_of_ne h]

theorem step_of_thread {s : State ι} {i : ι} {op : Op} {st : Stage}
    (hi : s.thread i = some (op, st)) : step l s (.step i) = advance l s i op st := by
  simp only [step, hi]

/-- A step of a thread that does not leave keeps it in its call, keeps an answer it has, and
    keeps the others where they are. -/
theorem advance_goto (s : State ι) (i : ι) (op : Op) {st : Stage}
    (hst : ∀ a, st ≠ .leaving a) :
    ∃ (s' : State ι) (st' : Stage), advance l s i op st = s'.goto i op st'
      ∧ s'.thread = s.thread ∧ ∀ a, answerOf st = some a → answerOf st' = some a := by
  cases st with
  | called =>
      cases op with
      | loadSingle j =>
          show ∃ s' st', make l s i j = _ ∧ _
          unfold make
          repeat' split
          all_goals exact ⟨_, _, rfl, rfl, fun a ha => by cases ha⟩
      | clear => exact ⟨_, _, rfl, rfl, fun a ha => by cases ha⟩
      | find inState clientProvisionId =>
          show ∃ s' st', search s i inState clientProvisionId = _ ∧ _
          unfold search
          split <;> exact ⟨_, _, rfl, rfl, fun a ha => by cases ha⟩
  | made e => exact ⟨_, _, rfl, rfl, fun a ha => by cases ha⟩
  | added e => exact ⟨_, _, rfl, rfl, fun a ha => ha⟩
  | holding e => exact ⟨_, _, rfl, rfl, fun a ha => ha⟩
  | leaving a => exact absurd rfl (hst a)

variable (ι) in
/-- The threads of the store. -/
def threads : Threads (State ι) ι Op Stage Answer where
  step := step l
  thread := State.thread
  answer := answerOf
  called := .called
  answer_called := rfl
  call_self := by
    intro s i op
    show (if (s.thread i).isNone then s.goto i op .called else s).thread i = _
    split
    · exact goto_thread_self s i op .called
    · rfl
  call_other := by
    intro s i j op hne
    show (if (s.thread i).isNone then s.goto i op .called else s).thread j = _
    split
    · exact goto_thread_ne s op .called hne
    · rfl
  step_idle := by
    intro s i hi
    simp only [step, hi]
  step_other := by
    intro s i j hne
    cases hi : s.thread i with
    | none => simp only [step, hi]
    | some x =>
        obtain ⟨op, st⟩ := x
        rw [step_of_thread l hi]
        by_cases hleaving : ∃ a, st = .leaving a
        · obtain ⟨a, rfl⟩ := hleaving
          exact Function.update_of_ne hne _ _
        · obtain ⟨s', st', hgoto, hsame, -⟩ :=
            advance_goto l s i op fun a ha => hleaving ⟨a, ha⟩
          rw [hgoto, goto_thread_ne s' op st' hne, hsame]
  step_open := by
    intro s i op st hi hopen
    have hst : ∀ a, st ≠ .leaving a := by
      rintro a rfl
      cases hopen
    obtain ⟨s', st', hgoto, -⟩ := advance_goto l s i op hst
    exact ⟨st', by rw [step_of_thread l hi, hgoto, goto_thread_self]⟩
  step_answered := by
    intro s i op st a hi hanswer
    rw [step_of_thread l hi]
    by_cases hleaving : ∃ a, st = .leaving a
    · obtain ⟨a', rfl⟩ := hleaving
      exact Or.inl (Function.update_self _ _ _)
    · obtain ⟨s', st', hgoto, -, hkept⟩ :=
        advance_goto l s i op fun a ha => hleaving ⟨a, ha⟩
      exact Or.inr ⟨st', by rw [hgoto, goto_thread_self], hkept a hanswer⟩

end Steps

/-! ## The map -/

/-- The map is that of the calls settled so far, and a load that has made its object is
    about to add what its document is read as. -/
structure Shared (l : Loader) (s : State ι) (d : ProvisionStore) : Prop where
  map : mapValues Entry.stored s.map = d
  made : ∀ i op e, s.thread i = some (op, .made e) →
    ∃ j, op = .loadSingle j ∧ acceptedDocument l j = some e.stored

theorem shared_initial (l : Loader) : Shared l ({} : State ι) ∅ where
  map := rfl
  made := by
    intro i op e hi
    cases hi

section Simulation

variable [DecidableEq ι] {l : Loader} {s : State ι} {d : ProvisionStore} {i : ι} {op : Op}

/-- A thread goes on; one that made its object knows what it adds. -/
theorem Shared.goto (h : Shared l s d) {s' : State ι} {d' : ProvisionStore} {st : Stage}
    (hmap : mapValues Entry.stored s'.map = d') (hthread : s'.thread = s.thread)
    (hmade : ∀ e, st = .made e →
      ∃ j, op = .loadSingle j ∧ acceptedDocument l j = some e.stored) :
    Shared l (s'.goto i op st) d' where
  map := hmap
  made := by
    intro j op' e hj
    by_cases hji : j = i
    · subst hji
      rw [goto_thread_self] at hj
      cases hj
      exact hmade e rfl
    · rw [goto_thread_ne s' op st hji, hthread] at hj
      exact h.made j op' e hj

/-- What a step of a call without an answer does to the store in use by one caller. -/
def Outcome (l : Loader) (d : ProvisionStore) (i : ι) (op : Op) (s' : State ι) : Prop :=
  (∃ st, s'.thread i = some (op, st) ∧ answerOf st = none ∧ Shared l s' d)
    ∨ ∃ st, s'.thread i = some (op, st) ∧ answerOf st = some (exec l d op).1
      ∧ Shared l s' (exec l d op).2

theorem make_shared (h : Shared l s d) (j : Json) :
    Outcome l d i (.loadSingle j) (make l s i j) := by
  have hleave : ∀ r, d.loadSingle l j = (r, d) →
      Outcome l d i (.loadSingle j) (s.goto i (.loadSingle j) (.leaving (.loaded r))) := by
    intro r hr
    have hexec : exec l d (.loadSingle j) = (.loaded r, d) := by
      show (Answer.loaded (d.loadSingle l j).1, (d.loadSingle l j).2) = _
      rw [hr]
    refine Or.inr ⟨_, goto_thread_self _ _ _ _, by rw [hexec]; rfl, ?_⟩
    rw [hexec]
    refine h.goto h.map rfl ?_
    intro e he
    cases he
  unfold make
  by_cases hvalid : l.validate j = true
  · rw [if_pos hvalid]
    cases hload : loadProvision l.lib l.compiles l.schemaOf j with
    | error e =>
        refine hleave _ ?_
        simp only [ProvisionStore.loadSingle, hvalid, hload, if_true]
    | ok loaded =>
        cases loaded with
        | none =>
            refine hleave _ ?_
            simp only [ProvisionStore.loadSingle, hvalid, hload, if_true]
        | some p =>
            dsimp only
            cases hsave : saveDynamics idle j with
            | none =>
                refine hleave _ ?_
                simp only [ProvisionStore.loadSingle, hvalid, hload, hsave, if_true]
            | some json =>
                refine Or.inl ⟨_, goto_thread_self _ _ _ _, rfl, ?_⟩
                refine h.goto h.map rfl ?_
                intro e he
                cases he
                refine ⟨j, rfl, ?_⟩
                simp only [acceptedDocument, hvalid, hload, hsave, if_true, Option.map_some]
  · rw [if_neg hvalid]
    refine hleave _ ?_
    simp only [ProvisionStore.loadSingle, if_neg hvalid]

omit [DecidableEq ι] in
theorem Shared.lookup (h : Shared l s d) (k : String) :
    d.lookup k = (s.map.lookup k).map Entry.stored := by
  rw [← h.map, lookup_mapValues]

theorem search_shared (h : Shared l s d) (inState clientProvisionId : String) :
    Outcome l d i (.find inState clientProvisionId) (search s i inState clientProvisionId) := by
  have hanswer := h.lookup (calculateStringKey inState clientProvisionId "")
  unfold search
  cases hlookup : s.map.lookup (calculateStringKey inState clientProvisionId "") with
  | none =>
      rw [hlookup] at hanswer
      refine Or.inr ⟨_, goto_thread_self _ _ _ _, ?_, ?_⟩
      · show _ = some (Answer.found (d.lookup _))
        rw [hanswer]
        rfl
      · refine h.goto h.map rfl ?_
        intro e he
        cases he
  | some e =>
      rw [hlookup] at hanswer
      refine Or.inr ⟨_, goto_thread_self _ _ _ _, ?_, ?_⟩
      · show _ = some (Answer.found (d.lookup _))
        rw [hanswer]
        rfl
      · refine h.goto h.map rfl ?_
        intro e he
        cases he

/-- **STEP LEMMA** for a call that has no answer yet. -/
theorem advance_shared (h : Shared l s d) {st : Stage} (hi : s.thread i = some (op, st))
    (hopen : answerOf st = none) : Outcome l d i op (advance l s i op st) := by
  cases st with
  | called =>
      cases op with
      | loadSingle j => exact make_shared h j
      | clear =>
          refine Or.inr ⟨_, goto_thread_self _ _ _ _, ?_, ?_⟩
          · show some (Answer.cleared (!s.map.entries.isEmpty))
              = some (Answer.cleared (!d.entries.isEmpty))
            rw [← h.map]
            show _ = some (Answer.cleared (!(s.map.entries.map (changed Entry.stored)).isEmpty))
            rw [List.isEmpty_map]
          · refine h.goto rfl rfl ?_
            intro e he
            cases he
      | find inState clientProvisionId => exact search_shared h inState clientProvisionId
  | made e =>
      obtain ⟨j, rfl, haccepted⟩ := h.made i op e hi
      have hexec : exec l d (.loadSingle j)
          = (.loaded (.ok .Success), d.insert e.getKey e.stored) := by
        rcases loadSingle_spec l j d with ⟨e', he', hload⟩ | ⟨hnone, -⟩
        · obtain rfl := Option.some.inj (haccepted.symm.trans he')
          show (Answer.loaded (d.loadSingle l j).1, (d.loadSingle l j).2) = _
          rw [hload]
          rfl
        · cases haccepted.symm.trans hnone
      refine Or.inr ⟨_, goto_thread_self _ _ _ _, by rw [hexec]; rfl, ?_⟩
      rw [hexec]
      refine h.goto ?_ rfl ?_
      · show mapValues Entry.stored (s.map.insert e.getKey e) = _
        rw [mapValues_insert, h.map]
      · intro e he
        cases he
  | added | holding | leaving => cases hopen

/-- A step of a call that has its answer does not touch the map. -/
theorem answered_shared (h : Shared l s d) {st : Stage} {a : Answer}
    (hanswer : answerOf st = some a) : Shared l (advance l s i op st) d := by
  cases st with
  | called | made => cases hanswer
  | added e =>
      refine h.goto h.map rfl ?_
      intro e he
      cases he
  | holding e =>
      refine h.goto h.map rfl ?_
      intro e he
      cases he
  | leaving a =>
      refine ⟨h.map, ?_⟩
      intro j op' e hj
      have hthread : Function.update s.thread i none j = some (op', .made e) := hj
      by_cases hji : j = i
      · subst hji
        rw [Function.update_self] at hthread
        cases hthread
      · rw [Function.update_of_ne hji] at hthread
        exact h.made j op' e hthread

variable (l)

/-- **SIMULATION**: as far as the map is concerned, each call takes effect at one step. -/
theorem client_simulates :
    (threads ι l).Simulates (exec l) (fun s d => Shared l s d) := by
  refine Threads.simulates_of ?_ ?_ ?_ ?_
  · intro s d i op h
    show Shared l (if (s.thread i).isNone then s.goto i op .called else s) d
    split
    · refine h.goto h.map rfl ?_
      intro e he
      cases he
    · exact h
  · intro s d i h hi
    have hstep : step l s (.step i) = s := by
      have hnone : s.thread i = none := hi
      simp only [step, hnone]
    show Shared l (step l s (.step i)) d
    rw [hstep]
    exact h
  · intro s d i op st h hi hopen
    show Outcome l d i op (step l s (.step i))
    rw [step_of_thread l hi]
    exact advance_shared h hi hopen
  · intro s d i op st a h hi hanswer
    show Shared l (step l s (.step i)) d
    rw [step_of_thread l hi]
    exact answered_shared h hanswer

end Simulation

/-! ## The objects -/

/-- The object that a load has made and not given its resources. -/
def Stage.making : Stage → Option Nat
  | .made e => some e.object
  | .added e => some e.object
  | _ => none

/-- An object in the map or in the hands of a search. -/
def Visible (s : State ι) (e : Entry) : Prop :=
  (∃ k, s.map.lookup k = some e) ∨ ∃ i op, s.thread i = some (op, .holding e)

/-- A load stands between the map and the setters of an object. -/
def Adding (s : State ι) (n : Nat) : Prop :=
  ∃ i op e, s.thread i = some (op, .added e) ∧ e.object = n

/-- Every object without resources is in the hands of one load, which has added it where it
    can be seen. -/
structure Making (s : State ι) : Prop where
  complete : ∀ n, s.resources n = true → n < s.objects
  owned : ∀ i op st n, s.thread i = some (op, st) → st.making = some n →
    n < s.objects ∧ s.resources n = false
      ∧ ∀ j op' st', s.thread j = some (op', st') → st'.making = some n → j = i
  visible : ∀ e, Visible s e →
    e.object < s.objects ∧ (s.resources e.object = true ∨ Adding s e.object)

theorem making_initial : Making ({} : State ι) where
  complete := by
    intro n hn
    cases hn
  owned := by
    intro i op st n hi
    cases hi
  visible := by
    rintro e (⟨k, hk⟩ | ⟨i, op, hi⟩)
    · cases hk
    · cases hi

/-- What can be seen lacks its resources exactly while a load is adding it. -/
theorem Making.unready (h : Making s) {e : Entry} (he : Visible s e) :
    s.resources e.object = false ↔ Adding s e.object := by
  constructor
  · intro hfalse
    rcases (h.visible e he).2 with htrue | hadding
    · cases hfalse.symm.trans htrue
    · exact hadding
  · rintro ⟨i, op, e', hi, hobject⟩
    exact (h.owned i op _ e.object hi (congrArg some hobject)).2.1

section Objects

variable [DecidableEq ι] {l : Loader} {s : State ι} {i : ι} {op : Op}

/-- A thread that has no object in its hands goes on without one. -/
theorem Making.quiet (h : Making s) {s' : State ι} {x : Option (Op × Stage)}
    (hold : ∀ op st, s.thread i = some (op, st) → st.making = none)
    (hnew : ∀ op st, x = some (op, st) → st.making = none)
    (hthread : s'.thread = Function.update s.thread i x) (hobjects : s'.objects = s.objects)
    (hresources : s'.resources = s.resources) (hvisible : ∀ e, Visible s' e → Visible s e) :
    Making s' := by
  have hback : ∀ j op st n, s'.thread j = some (op, st) → st.making = some n →
      s.thread j = some (op, st) := by
    intro j op st n hj hn
    rw [hthread] at hj
    by_cases hji : j = i
    · subst hji
      rw [Function.update_self] at hj
      cases (hnew op st hj).symm.trans hn
    · rwa [Function.update_of_ne hji] at hj
  refine ⟨?_, ?_, ?_⟩
  · rw [hobjects, hresources]
    exact h.complete
  · intro j op st n hj hn
    obtain ⟨hlt, hfalse, hone⟩ := h.owned j op st n (hback j op st n hj hn) hn
    rw [hobjects, hresources]
    exact ⟨hlt, hfalse, fun j' op' st' hj' hn' => hone j' op' st' (hback j' op' st' n hj' hn') hn'⟩
  · intro e he
    obtain ⟨hlt, hready⟩ := h.visible e (hvisible e he)
    rw [hobjects, hresources]
    refine ⟨hlt, hready.imp_right ?_⟩
    rintro ⟨j, op, e', hj, hobject⟩
    refine ⟨j, op, e', ?_, hobject⟩
    have hji : j ≠ i := by
      rintro rfl
      cases hold op _ hj
    rw [hthread, Function.update_of_ne hji]
    exact hj

/-- What a search does not hold and the map has not gained was seen before. -/
theorem visible_goto {s' : State ι} {st : Stage} {e : Entry} (hmap : ∀ k e,
      s'.map.lookup k = some e → s.map.lookup k = some e) (hthread : s'.thread = s.thread)
    (hst : ∀ e, st = .holding e → Visible s e) (he : Visible (s'.goto i op st) e) :
    Visible s e := by
  rcases he with ⟨k, hk⟩ | ⟨j, op', hj⟩
  · exact Or.inl ⟨k, hmap k e hk⟩
  · by_cases hji : j = i
    · subst hji
      rw [goto_thread_self] at hj
      cases hj
      exact hst e rfl
    · rw [goto_thread_ne s' op st hji, hthread] at hj
      exact Or.inr ⟨j, op', hj⟩

/-- The same for a step of `goto`. -/
theorem Making.goto (h : Making s) {s' : State ι} {st : Stage}
    (hold : ∀ op st, s.thread i = some (op, st) → st.making = none)
    (hnew : st.making = none) (hthread : s'.thread = s.thread)
    (hobjects : s'.objects = s.objects) (hresources : s'.resources = s.resources)
    (hmap : ∀ k e, s'.map.lookup k = some e → s.map.lookup k = some e)
    (hst : ∀ e, st = .holding e → Visible s e) : Making (s'.goto i op st) := by
  refine h.quiet (i := i) (x := some (op, st)) hold ?_ ?_ hobjects hresources
    fun e he => visible_goto hmap hthread hst he
  · intro op' st' hx
    cases hx
    exact hnew
  · show Function.update s'.thread i _ = _
    rw [hthread]

/-- A load makes a new object. -/
theorem Making.make (h : Making s) (stored : StoredProvision)
    (hold : ∀ op st, s.thread i = some (op, st) → st.making = none) :
    Making ({ s with objects := s.objects + 1 }.goto i op (.made ⟨s.objects, stored⟩)) := by
  have hback : ∀ j op' st n, ({ s with objects := s.objects + 1 }.goto i op
      (.made ⟨s.objects, stored⟩)).thread j = some (op', st) → st.making = some n →
      (j = i ∧ n = s.objects) ∨ (j ≠ i ∧ s.thread j = some (op', st)) := by
    intro j op' st n hj hn
    by_cases hji : j = i
    · subst hji
      rw [goto_thread_self] at hj
      cases hj
      exact Or.inl ⟨rfl, (Option.some.inj hn).symm⟩
    · rw [goto_thread_ne _ op _ hji] at hj
      exact Or.inr ⟨hji, hj⟩
  refine ⟨?_, ?_, ?_⟩
  · exact fun n hn => Nat.lt_succ_of_lt (h.complete n hn)
  · intro j op' st n hj hn
    rcases hback j op' st n hj hn with ⟨rfl, rfl⟩ | ⟨hji, hj'⟩
    · refine ⟨Nat.lt_succ_self _, ?_, ?_⟩
      · cases hres : s.resources s.objects with
        | false => exact hres
        | true => exact absurd (h.complete _ hres) (Nat.lt_irrefl _)
      · intro j' op'' st' hj' hn'
        rcases hback j' op'' st' _ hj' hn' with ⟨rfl, -⟩ | ⟨-, hother⟩
        · rfl
        · exact absurd (h.owned j' op'' st' _ hother hn').1 (Nat.lt_irrefl _)
    · obtain ⟨hlt, hfalse, hone⟩ := h.owned j op' st n hj' hn
      refine ⟨Nat.lt_succ_of_lt hlt, hfalse, ?_⟩
      intro j' op'' st' hj'' hn'
      rcases hback j' op'' st' n hj'' hn' with ⟨-, rfl⟩ | ⟨-, hother⟩
      · exact absurd hlt (Nat.lt_irrefl _)
      · exact hone j' op'' st' hother hn'
  · intro e he
    have hbefore : Visible s e := by
      refine visible_goto (fun _ _ hk => hk) rfl ?_ he
      intro e he
      cases he
    obtain ⟨hlt, hready⟩ := h.visible e hbefore
    refine ⟨Nat.lt_succ_of_lt hlt, hready.imp_right ?_⟩
    rintro ⟨j, op', e', hj, hobject⟩
    have hji : j ≠ i := by
      rintro rfl
      cases hold op' _ hj
    exact ⟨j, op', e', (goto_thread_ne _ op _ hji).trans hj, hobject⟩

/-- A load adds its object to the map. -/
theorem Making.add (h : Making s) {e : Entry} (hi : s.thread i = some (op, .made e)) :
    Making ({ s with map := s.map.insert e.getKey e }.goto i op (.added e)) := by
  have hback : ∀ j op' st n, ({ s with map := s.map.insert e.getKey e }.goto i op
      (.added e)).thread j = some (op', st) → st.making = some n →
      ∃ op'' st', s.thread j = some (op'', st') ∧ st'.making = some n := by
    intro j op' st n hj hn
    by_cases hji : j = i
    · subst hji
      rw [goto_thread_self] at hj
      cases hj
      exact ⟨_, _, hi, hn⟩
    · rw [goto_thread_ne _ op _ hji] at hj
      exact ⟨_, _, hj, hn⟩
  refine ⟨h.complete, ?_, ?_⟩
  · intro j op' st n hj hn
    obtain ⟨op'', st', hj', hn'⟩ := hback j op' st n hj hn
    obtain ⟨hlt, hfalse, hone⟩ := h.owned j op'' st' n hj' hn'
    refine ⟨hlt, hfalse, ?_⟩
    intro k opk stk hk hnk
    obtain ⟨opk', stk', hk', hnk'⟩ := hback k opk stk n hk hnk
    exact hone k opk' stk' hk' hnk'
  · intro e' he'
    have hself : Adding ({ s with map := s.map.insert e.getKey e }.goto i op (.added e))
        e.object := ⟨i, op, e, goto_thread_self _ _ _ _, rfl⟩
    have hcases : e' = e ∨ Visible s e' := by
      rcases he' with ⟨k, hk⟩ | ⟨j, op', hj⟩
      · have hlookup : (s.map.insert e.getKey e).lookup k = some e' := hk
        by_cases hkey : k = e.getKey
        · rw [hkey, AList.lookup_insert] at hlookup
          exact Or.inl (Option.some.inj hlookup).symm
        · rw [AList.lookup_insert_ne hkey] at hlookup
          exact Or.inr (Or.inl ⟨k, hlookup⟩)
      · by_cases hji : j = i
        · subst hji
          rw [goto_thread_self] at hj
          cases hj
        · rw [goto_thread_ne _ op _ hji] at hj
          exact Or.inr (Or.inr ⟨j, op', hj⟩)
    rcases hcases with rfl | hbefore
    · exact ⟨(h.owned i op _ _ hi rfl).1, Or.inr hself⟩
    · obtain ⟨hlt, hready⟩ := h.visible e' hbefore
      refine ⟨hlt, hready.imp_right ?_⟩
      rintro ⟨j, op', e'', hj, hobject⟩
      by_cases hji : j = i
      · subst hji
        cases hj.symm.trans hi
      · exact ⟨j, op', e'', (goto_thread_ne _ op _ hji).trans hj, hobject⟩

/-- A load gives its object the resources. -/
theorem Making.equip (h : Making s) {e : Entry} {st : Stage}
    (hi : s.thread i = some (op, .added e)) (hnew : st.making = none)
    (hst : ∀ e, st ≠ .holding e) :
    Making ({ s with resources := Function.update s.resources e.object true }.goto i op st) := by
  have howned := h.owned i op _ _ hi rfl
  have hback : ∀ j op' st' n, ({ s with
      resources := Function.update s.resources e.object true }.goto i op st).thread j
        = some (op', st') → st'.making = some n → j ≠ i ∧ s.thread j = some (op', st') := by
    intro j op' st' n hj hn
    by_cases hji : j = i
    · subst hji
      rw [goto_thread_self] at hj
      cases hj
      cases hnew.symm.trans hn
    · rw [goto_thread_ne _ op _ hji] at hj
      exact ⟨hji, hj⟩
  refine ⟨?_, ?_, ?_⟩
  · intro n hn
    have hn' : Function.update s.resources e.object true n = true := hn
    by_cases hne : n = e.object
    · rw [hne]
      exact howned.1
    · rw [Function.update_of_ne hne] at hn'
      exact h.complete n hn'
  · intro j op' st' n hj hn
    obtain ⟨hji, hj'⟩ := hback j op' st' n hj hn
    obtain ⟨hlt, hfalse, hone⟩ := h.owned j op' st' n hj' hn
    have hne : n ≠ e.object := by
      rintro rfl
      exact hji (howned.2.2 j op' st' hj' hn)
    refine ⟨hlt, ?_, ?_⟩
    · show Function.update s.resources e.object true n = false
      rw [Function.update_of_ne hne]
      exact hfalse
    · intro k opk stk hk hnk
      exact hone k opk stk (hback k opk stk n hk hnk).2 hnk
  · intro e' he'
    have hbefore : Visible s e' := by
      refine visible_goto (fun _ _ hk => hk) rfl ?_ he'
      exact fun e he => absurd he (hst e)
    obtain ⟨hlt, hready⟩ := h.visible e' hbefore
    refine ⟨hlt, ?_⟩
    show Function.update s.resources e.object true e'.object = true ∨ _
    by_cases hne : e'.object = e.object
    · rw [hne, Function.update_self]
      exact Or.inl rfl
    · rw [Function.update_of_ne hne]
      refine hready.imp_right ?_
      rintro ⟨j, op', e'', hj, hobject⟩
      have hji : j ≠ i := by
        rintro rfl
        cases hj.symm.trans hi
        exact hne hobject.symm
      exact ⟨j, op', e'', (goto_thread_ne _ op _ hji).trans hj, hobject⟩

end Objects

/-! ## Whole runs -/

section Runs

variable [DecidableEq ι] (l : Loader)

/-- **STEP LEMMA** for the objects. -/
theorem Making.step {s : State ι} (h : Making s) (a : Act ι Op) : Making (step l s a) := by
  have hfound : ∀ {i op st}, s.thread i = some (op, st) → st.making = none →
      ∀ op' st', s.thread i = some (op', st') → st'.making = none := by
    intro i op st hi hst op' st' hi'
    cases hi.symm.trans hi'
    exact hst
  cases a with
  | call i op =>
      show Making (if (s.thread i).isNone then s.goto i op .called else s)
      cases hi : s.thread i with
      | some x => exact h
      | none =>
          refine h.goto ?_ rfl rfl rfl rfl (fun _ _ hk => hk) fun e he => by cases he
          intro op' st' hi'
          cases hi.symm.trans hi'
  | step i =>
      cases hi : s.thread i with
      | none =>
          have hstep : H2ClientSharing.step l s (.step i) = s := by
            simp only [H2ClientSharing.step, hi]
          rw [hstep]
          exact h
      | some x =>
          obtain ⟨op, st⟩ := x
          rw [step_of_thread l hi]
          cases st with
          | called =>
              have hold := hfound hi rfl
              have hleave : ∀ op' a, Making (s.goto i op' (.leaving a)) := fun op' a =>
                h.goto hold rfl rfl rfl rfl (fun _ _ hk => hk) fun e he => by cases he
              cases op with
              | loadSingle j =>
                  show Making (H2ClientSharing.make l s i j)
                  unfold H2ClientSharing.make
                  split
                  · split
                    · exact hleave _ _
                    · exact hleave _ _
                    · split
                      · exact hleave _ _
                      · exact h.make _ hold
                  · exact hleave _ _
              | clear =>
                  exact h.goto hold rfl rfl rfl rfl (fun k e hk => by cases hk)
                    fun e he => by cases he
              | find inState clientProvisionId =>
                  show Making (search s i inState clientProvisionId)
                  unfold search
                  split
                  · exact hleave _ _
                  · rename_i e hlookup
                    refine h.goto hold rfl rfl rfl rfl (fun _ _ hk => hk) ?_
                    intro e' he'
                    cases he'
                    exact Or.inl ⟨_, hlookup⟩
          | made e => exact h.add hi
          | added e => exact h.equip hi rfl fun e' he' => by cases he'
          | holding e =>
              exact h.goto (hfound hi rfl) rfl rfl rfl rfl (fun _ _ hk => hk)
                fun e' he' => by cases he'
          | leaving a =>
              refine h.quiet (i := i) (x := none) (hfound hi rfl) ?_ rfl rfl rfl ?_
              · intro op' st' hx
                cases hx
              · rintro e (hmap | ⟨j, op', hj⟩)
                · exact Or.inl hmap
                · have hthread : Function.update s.thread i none j = some (op', .holding e) := hj
                  by_cases hji : j = i
                  · subst hji
                    rw [Function.update_self] at hthread
                    cases hthread
                  · rw [Function.update_of_ne hji] at hthread
                    exact Or.inr ⟨j, op', hthread⟩

/-- A thread uses the provision it found while a load stands between the map and the
    setters of that object. -/
def UsesUnready (s : State ι) : Act ι Op → Prop
  | .call _ _ => False
  | .step i => ∃ op e, s.thread i = some (op, .holding e) ∧ Adding s e.object

/-- A null pointer is met by such a use and by no other step. -/
theorem step_broken {s : State ι} (h : Making s) (a : Act ι Op) :
    (step l s a).broken = true ↔ UsesUnready s a ∨ (s.broken = true ∧ True) := by
  have hkept : ∀ {s' : State ι}, s'.broken = s.broken → ¬ UsesUnready s a →
      (s'.broken = true ↔ UsesUnready s a ∨ (s.broken = true ∧ True)) := by
    intro s' hsame hnot
    rw [hsame]
    exact ⟨fun hb => Or.inr ⟨hb, True.intro⟩, fun hb => (hb.resolve_left hnot).1⟩
  cases a with
  | call i op =>
      refine hkept ?_ fun hno => hno
      show (if (s.thread i).isNone then s.goto i op .called else s).broken = s.broken
      split <;> rfl
  | step i =>
      cases hi : s.thread i with
      | none =>
          have hstep : step l s (.step i) = s := by simp only [step, hi]
          rw [hstep]
          refine hkept rfl ?_
          rintro ⟨op, e, hi', -⟩
          cases hi.symm.trans hi'
      | some x =>
          obtain ⟨op, st⟩ := x
          rw [step_of_thread l hi]
          cases st with
          | holding e =>
              have hready := h.unready (Or.inr ⟨i, op, hi⟩)
              show (s.broken || !s.resources e.object) = true ↔ _
              rw [Bool.or_eq_true, Bool.not_eq_true', hready]
              constructor
              · rintro (hb | hadding)
                · exact Or.inr ⟨hb, True.intro⟩
                · exact Or.inl ⟨op, e, hi, hadding⟩
              · rintro (⟨op', e', hi', hadding⟩ | ⟨hb, -⟩)
                · cases hi.symm.trans hi'
                  exact Or.inr hadding
                · exact Or.inl hb
          | called =>
              refine hkept ?_ ?_
              · cases op with
                | loadSingle j =>
                    show (make l s i j).broken = s.broken
                    unfold make
                    repeat' split
                    all_goals rfl
                | clear => rfl
                | find inState clientProvisionId =>
                    show (search s i inState clientProvisionId).broken = s.broken
                    unfold search
                    split <;> rfl
              · rintro ⟨op', e, hi', -⟩
                cases hi.symm.trans hi'
          | made | added | leaving =>
              refine hkept rfl ?_
              rintro ⟨op', e, hi', -⟩
              cases hi.symm.trans hi'

end Runs

end H2ClientSharing
