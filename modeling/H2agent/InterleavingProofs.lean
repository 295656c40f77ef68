import Mathlib.Data.List.Perm.Basic
import H2agent.MockStoreProofs

/-! # Concurrent calls on the mock events store

    The stores are shared by the worker threads: `Map` and `MockEventsHistory`
    each guard their own container, so what interleaves is not whole calls but
    single guarded steps.  Here a call is the sequence of its guarded steps, a
    schedule says whose step is next, and the histories live in a heap, because
    a call keeps the pointer it got from the map while the map moves on.

    * Loading on the SERVER is get-or-create, load, insert-if-fresh, re-read:
      four steps.  Two first loads of one key can both find it missing, and
      the insertion of the second drops the history of the first.
    * Loading on the CLIENT is one `modifyOrInsert`: one step.
    * A removal is get, remove, test for emptiness, drop the key: a load can
      fall between any two of them, on both sides.

    This file has the steps and what one of them can do to a history. -/

namespace H2Interleaving

open CppText H2Key StepRun H2Store MockEventLike

/-- The two stores; they differ in how they load. -/
inductive Side where
  | server
  | client
  deriving DecidableEq, Repr

/-- An event number is given: `clear` works on one event, not on the key. -/
abbrev NumberedKey := { ekey : EventKey // ekey.hasNumber = true }

/-- The calls that run beside each other.  Loads have the history enabled. -/
inductive Call (E : Type) where
  | loadEvent (dataKey : DataKey) (event : E)
  | removeEventBySeq (dataKey : DataKey) (seq : Nat)
  | clear (ekey : NumberedKey)
  | findLastRegisteredRequestState (dataKey : DataKey)

/-- The key a call works on. -/
def Call.key {E : Type} : Call E → String
  | .loadEvent dataKey _ => dataKey.getKey
  | .removeEventBySeq dataKey _ => dataKey.getKey
  | .clear ekey => ekey.1.getKey
  | .findLastRegisteredRequestState dataKey => dataKey.getKey

/-- The address of a history: one that was in the store before the calls, or
    the one a call makes. -/
inductive Hist (ι : Type) where
  | prior (key : String)
  | made (i : ι)
  deriving DecidableEq

/-- An event object: the call that created it (`none` for the ones the store
    had before) and its data. -/
structure Slot (ι E : Type) where
  owner : Option ι
  event : E

/-- An event object has the state and the sequence number of its data. -/
instance slotEventLike {ι E : Type} [MockEventLike E] : MockEventLike (Slot ι E) where
  getState x := getState x.event
  getSeq x := getSeq x.event

/-- The least an event can be: a state and a sequence number. -/
instance bareEventLike : MockEventLike (String × Nat) where
  getState e := e.1
  getSeq e := e.2

/-- Where a call stands: the guarded step it takes next. -/
inductive Pc (ι : Type) where
  | start
  | holding (h : Hist ι) (maiden : Bool)
  | adding (h : Hist ι)
  | rereading (h : Hist ι)
  | testing (h : Hist ι)
  | dropping
  | chaining (h : Hist ι)
  | done
  deriving DecidableEq

variable {ι E : Type}

/-- The map, the histories and the threads.  `selected` remembers whose events
    the removals took, `emptyBack` whether `back()` met an empty vector. -/
structure State (ι E : Type) where
  map : String → Option (Hist ι)
  heap : Hist ι → MockEventsHistory (Slot ι E)
  pc : ι → Pc ι
  lastLoadedEvent : Option (Slot ι E)
  selected : List ι
  emptyBack : Bool

section Steps

variable [DecidableEq ι]

/-- Move the thread of a call. -/
def State.setPc (s : State ι E) (i : ι) (p : Pc ι) : State ι E :=
  { s with pc := Function.update s.pc i p }

/-- Change one history in place. -/
def State.setHist (s : State ι E) (h : Hist ι) (x : MockEventsHistory (Slot ι E)) :
    State ι E :=
  { s with heap := Function.update s.heap h x }

/-- Change one entry of the map. -/
def State.setMap (s : State ι E) (k : String) (h : Option (Hist ι)) : State ι E :=
  { s with map := Function.update s.map k h }

/-- Remember whose event a removal takes. -/
def State.select (s : State ι E) (x : Option (Slot ι E)) : State ι E :=
  { s with selected := s.selected ++ (x.bind Slot.owner).toList }

/-- The store the calls start from, its histories at their own addresses; the
    history a call makes is an empty one nobody else can reach. -/
def State.ofStore (calls : ι → Call E) (m : MockData E) : State ι E where
  map k := (m.lookup k).map (fun _ => .prior k)
  heap h := match h with
    | .prior k =>
        match m.lookup k with
        | none => MockEventsHistory.make (DataKey.ofServer "" "")
        | some x => ⟨x.dataKey, x.events.map (fun e => ⟨none, e⟩), x.chainVariables⟩
    | .made i =>
        match calls i with
        | .loadEvent dataKey _ => MockEventsHistory.make dataKey
        | _ => MockEventsHistory.make (DataKey.ofServer "" "")
  pc _ := .start
  lastLoadedEvent := none
  selected := []
  emptyBack := false

/-- One guarded step of a load: `MockServerData::loadEvent` and
    `MockClientData::loadEvent`. -/
def loadStep (side : Side) (s : State ι E) (i : ι) (dataKey : DataKey) (event : E) :
    State ι E :=
  match s.pc i with
  | .start =>
      match side, s.map dataKey.getKey with
      | .server, some h => s.setPc i (.holding h false)
      | .server, none => s.setPc i (.holding (.made i) true)
      | .client, found =>
          -- `modifyOrInsert`: look up, create and load under one lock
          let h := found.getD (.made i)
          ((s.setHist h ((s.heap h).loadEvent ⟨some i, event⟩ true)).setMap
            dataKey.getKey (some h)).setPc i .done
  | .holding h maiden =>
      (s.setHist h ((s.heap h).loadEvent ⟨some i, event⟩ true)).setPc i
        (if maiden then .adding h else .rereading h)
  | .adding h => (s.setMap dataKey.getKey (some h)).setPc i (.rereading h)
  | .rereading h =>
      { s with lastLoadedEvent := (s.heap h).getEvent 1 true }.setPc i .done
  | _ => s

/-- One guarded step of `removeEventByRecvSeq` or `removeEventBySendSeq`. -/
def removeStep [MockEventLike E] (s : State ι E) (i : ι) (dataKey : DataKey)
    (seq : Nat) : State ι E :=
  match s.pc i with
  | .start =>
      match s.map dataKey.getKey with
      | none => s.setPc i .done
      | some h => s.setPc i (.holding h false)
  | .holding h _ =>
      let (deleted, x) := (s.heap h).removeEventBySeq seq
      ((s.setHist h x).select ((s.heap h).getEventBySeq seq)).setPc i
        (if deleted then .testing h else .done)
  | .testing h =>
      if (s.heap h).events.length = 0 then s.setPc i .dropping else s.setPc i .done
  | .dropping => (s.setMap dataKey.getKey none).setPc i .done
  | _ => s

/-- One guarded step of `clear` with an event number.  The emptiness of the
    history is tested whether or not something was deleted. -/
def clearStep (s : State ι E) (i : ι) (ekey : EventKey) : State ι E :=
  match s.pc i with
  | .start =>
      if !ekey.checkSelection then s.setPc i .done
      else
        match s.map ekey.getKey with
        | none => s.setPc i .done
        | some h => s.setPc i (.holding h false)
  | .holding h _ =>
      match ekey.position with
      | none => s.setPc i .done
      | some (n, reverse) =>
          let (_, x) := (s.heap h).removeEvent n reverse
          ((s.setHist h x).select ((s.heap h).getEvent n reverse)).setPc i (.testing h)
  | .testing h =>
      if (s.heap h).events.length = 0 then s.setPc i .dropping else s.setPc i .done
  | .dropping => (s.setMap ekey.getKey none).setPc i .done
  | _ => s

/-- One guarded step of `findLastRegisteredRequestState`. -/
def findStep [MockEventLike E] (s : State ι E) (i : ι) (dataKey : DataKey) :
    State ι E :=
  match s.pc i with
  | .start =>
      match s.map dataKey.getKey with
      | none => s.setPc i .done
      | some h => s.setPc i (.holding h false)
  | .holding h _ =>
      match (s.heap h).getLastRegisteredRequestState with
      | none => { s with emptyBack := true }.setPc i (.chaining h)
      | some _ => s.setPc i (.chaining h)
  | .chaining _ => s.setPc i .done
  | _ => s

/-- One guarded step of call `i`. -/
def step [MockEventLike E] (side : Side) (calls : ι → Call E) (s : State ι E) (i : ι) :
    State ι E :=
  match calls i with
  | .loadEvent dataKey event => loadStep side s i dataKey event
  | .removeEventBySeq dataKey seq => removeStep s i dataKey seq
  | .clear ekey => clearStep s i ekey.1
  | .findLastRegisteredRequestState dataKey => findStep s i dataKey

/-! ## What a removal takes -/

/-- The event object a removal addresses in a history. -/
def Call.selects [MockEventLike E] (c : Call E) (x : MockEventsHistory (Slot ι E)) :
    Option (Slot ι E) :=
  match c with
  | .removeEventBySeq _ seq => x.getEventBySeq seq
  | .clear ekey =>
      match ekey.1.position with
      | none => none
      | some (n, reverse) => x.getEvent n reverse
  | _ => none

/-- One history shorter by the selected event, or the same when there is none. -/
inductive Shortened (x x' : List (Slot ι E)) : Option (Slot ι E) → Prop where
  | same (h : x' = x) : Shortened x x' none
  | less (y : Slot ι E) (h : (y :: x').Perm x) : Shortened x x' (some y)

omit [DecidableEq ι] in
theorem shortened_eraseIdx (l : List (Slot ι E)) (n : Nat) :
    Shortened l (l.eraseIdx n) l[n]? := by
  by_cases hn : n < l.length
  · rw [List.getElem?_eq_getElem hn]
    exact .less _ (List.getElem_cons_eraseIdx_perm hn)
  · have hle : l.length ≤ n := Nat.le_of_not_lt hn
    rw [List.getElem?_eq_none hle]
    exact .same (List.eraseIdx_of_length_le hle)

omit [DecidableEq ι] in
theorem shortened_removeEvent (x : MockEventsHistory (Slot ι E)) (n : Nat)
    (reverse : Bool) :
    Shortened x.events (x.removeEvent n reverse).2.events (x.getEvent n reverse) := by
  rw [removeEvent_eq, getEvent_eq]
  cases AbsHistory.addressed x.events.length n reverse with
  | none => exact .same rfl
  | some i => exact shortened_eraseIdx x.events (i - 1)

omit [DecidableEq ι] in
theorem shortened_removeEventBySeq [MockEventLike E] (x : MockEventsHistory (Slot ι E))
    (seq : Nat) :
    Shortened x.events (x.removeEventBySeq seq).2.events (x.getEventBySeq seq) := by
  simp only [MockEventsHistory.removeEventBySeq, MockEventsHistory.getEventBySeq]
  cases hf : x.events.find? (fun e => getSeq e == seq) with
  | none =>
      have hany : ¬ x.events.any (fun e => getSeq e == seq) = true := by
        rw [List.find?_eq_none] at hf
        simpa using hf
      rw [if_neg hany]
      exact .same rfl
  | some y =>
      have hmem := List.mem_of_find?_eq_some hf
      have hp := List.find?_some hf
      rw [if_pos (List.any_eq_true.mpr ⟨y, hmem, hp⟩)]
      obtain ⟨_, as, bs, hl, has⟩ := List.find?_eq_some_iff_append.mp hf
      -- the first match is what `eraseP` leaves out
      have herase : x.events.eraseP (fun e => getSeq e == seq) = as ++ bs := by
        rw [hl, List.eraseP_append_right _ (by simpa using has),
          List.eraseP_cons_of_pos (p := fun e : Slot ι E => getSeq e == seq) hp]
      refine .less y ?_
      show (y :: x.events.eraseP (fun e => getSeq e == seq)).Perm x.events
      rw [herase, hl]
      exact List.perm_middle.symm

/-- How many times the event object of call `j` is in a history. -/
def countIn (s : State ι E) (h : Hist ι) (j : ι) : Nat :=
  (s.heap h).events.countP (fun x => decide (x.owner = some j))

/-- A removal takes at most one object away, and takes it by selecting it. -/
theorem Shortened.count {x x' : List (Slot ι E)} {sel : Option (Slot ι E)}
    (h : Shortened x x' sel) (j : ι) :
    x'.countP (fun y => decide (y.owner = some j))
        ≤ x.countP (fun y => decide (y.owner = some j))
      ∧ (x'.countP (fun y => decide (y.owner = some j))
          = x.countP (fun y => decide (y.owner = some j))
        ∨ j ∈ (sel.bind Slot.owner).toList) := by
  cases h with
  | same h => rw [h]; exact ⟨Nat.le_refl _, Or.inl rfl⟩
  | less y h =>
      rw [← h.countP_eq, List.countP_cons]
      refine ⟨by omega, ?_⟩
      by_cases hy : y.owner = some j
      · right; simp [hy]
      · left; simp [hy]
/-! ## Reading a changed state -/

@[simp] theorem setPc_pc_self (s : State ι E) (i : ι) (p : Pc ι) :
    (s.setPc i p).pc i = p := by
  show Function.update s.pc i p i = p
  rw [Function.update_self]

theorem setPc_pc_ne (s : State ι E) {i j : ι} (p : Pc ι) (h : j ≠ i) :
    (s.setPc i p).pc j = s.pc j := by
  show Function.update s.pc i p j = s.pc j
  rw [Function.update_of_ne h]

@[simp] theorem setHist_heap_self (s : State ι E) (h : Hist ι)
    (x : MockEventsHistory (Slot ι E)) : (s.setHist h x).heap h = x := by
  show Function.update s.heap h x h = x
  rw [Function.update_self]

theorem setHist_heap_ne (s : State ι E) {h h' : Hist ι}
    (x : MockEventsHistory (Slot ι E)) (hne : h' ≠ h) :
    (s.setHist h x).heap h' = s.heap h' := by
  show Function.update s.heap h x h' = s.heap h'
  rw [Function.update_of_ne hne]

omit [DecidableEq ι] in
@[simp] theorem setMap_map_self (s : State ι E) (k : String) (h : Option (Hist ι)) :
    (s.setMap k h).map k = h := by
  show Function.update s.map k h k = h
  rw [Function.update_self]

omit [DecidableEq ι] in
theorem setMap_map_ne (s : State ι E) {k k' : String} (h : Option (Hist ι))
    (hne : k' ≠ k) : (s.setMap k h).map k' = s.map k' := by
  show Function.update s.map k h k' = s.map k'
  rw [Function.update_of_ne hne]

omit [DecidableEq ι] in
/-- Loading an object appends it. -/
theorem loadEvent_enabled (x : MockEventsHistory (Slot ι E)) (y : Slot ι E) :
    (x.loadEvent y true).events = x.events ++ [y] := rfl

/-- Loading into a history counts for the loading call alone. -/
theorem countIn_setHist_load (s : State ι E) (h h' : Hist ι) (i j : ι) (event : E) :
    countIn (s.setHist h ((s.heap h).loadEvent ⟨some i, event⟩ true)) h' j
      = countIn s h' j + (if h' = h ∧ j = i then 1 else 0) := by
  simp only [countIn]
  by_cases hh : h' = h
  · subst hh
    rw [setHist_heap_self, loadEvent_enabled, List.countP_append,
      List.countP_singleton]
    by_cases hj : j = i
    · simp [hj]
    · have hji : ¬ i = j := fun h => hj h.symm
      simp [hj, hji]
  · simp [setHist_heap_ne s _ hh, hh]

/-! ## What one step does to a history -/

section OneStep

variable [MockEventLike E] {side : Side} {calls : ι → Call E}

/-- A step of call `i` moves no other thread. -/
theorem step_pc_ne (s : State ι E) {i j : ι} (hj : j ≠ i) :
    (step side calls s i).pc j = s.pc j := by
  simp only [step]
  split
  · simp only [loadStep]
    split
    · split
      · exact setPc_pc_ne _ _ hj
      · exact setPc_pc_ne _ _ hj
      · exact setPc_pc_ne _ _ hj
    · exact setPc_pc_ne _ _ hj
    · exact setPc_pc_ne _ _ hj
    · exact setPc_pc_ne _ _ hj
    · rfl
  · simp only [removeStep]
    split
    · split
      · exact setPc_pc_ne _ _ hj
      · exact setPc_pc_ne _ _ hj
    · exact setPc_pc_ne _ _ hj
    · split
      · exact setPc_pc_ne _ _ hj
      · exact setPc_pc_ne _ _ hj
    · exact setPc_pc_ne _ _ hj
    · rfl
  · simp only [clearStep]
    split
    · split
      · exact setPc_pc_ne _ _ hj
      · split
        · exact setPc_pc_ne _ _ hj
        · exact setPc_pc_ne _ _ hj
    · split
      · exact setPc_pc_ne _ _ hj
      · exact setPc_pc_ne _ _ hj
    · split
      · exact setPc_pc_ne _ _ hj
      · exact setPc_pc_ne _ _ hj
    · exact setPc_pc_ne _ _ hj
    · rfl
  · simp only [findStep]
    split
    · split
      · exact setPc_pc_ne _ _ hj
      · exact setPc_pc_ne _ _ hj
    · split
      · exact setPc_pc_ne _ _ hj
      · exact setPc_pc_ne _ _ hj
    · exact setPc_pc_ne _ _ hj
    · rfl

/-- What happens to a history in one step of call `i`. -/
inductive HistStep (calls : ι → Call E) (s : State ι E) (i : ι) (h : Hist ι)
    (l : List (Slot ι E)) : Prop where
  | same (heq : l = (s.heap h).events)
  | loaded (dataKey : DataKey) (event : E) (hc : calls i = .loadEvent dataKey event)
      (heq : l = (s.heap h).events ++ [⟨some i, event⟩])
  | taken (b : Bool) (hp : s.pc i = .holding h b)
      (hx : Shortened (s.heap h).events l ((calls i).selects (s.heap h)))

theorem loadStep_hist (s : State ι E) (i : ι) {dataKey : DataKey} {event : E}
    (hc : calls i = .loadEvent dataKey event) (h : Hist ι) :
    HistStep calls s i h ((loadStep side s i dataKey event).heap h).events := by
  -- whichever history is loaded into, the others stay
  have hload : ∀ h', HistStep calls s i h
      ((s.setHist h' ((s.heap h').loadEvent ⟨some i, event⟩ true)).heap h).events := by
    intro h'
    by_cases hh : h = h'
    · subst hh
      rw [setHist_heap_self]
      exact .loaded dataKey event hc rfl
    · rw [setHist_heap_ne s _ hh]
      exact .same rfl
  simp only [loadStep]
  split
  · split
    · exact .same rfl
    · exact .same rfl
    · exact hload _
  · exact hload _
  · exact .same rfl
  · exact .same rfl
  · exact .same rfl

theorem removeStep_hist (s : State ι E) (i : ι) {dataKey : DataKey} {seq : Nat}
    (hc : calls i = .removeEventBySeq dataKey seq) (h : Hist ι) :
    HistStep calls s i h ((removeStep s i dataKey seq).heap h).events := by
  simp only [removeStep]
  split
  · split
    · exact .same rfl
    · exact .same rfl
  · next h' b hp =>
      show HistStep calls s i h
        ((s.setHist h' ((s.heap h').removeEventBySeq seq).2).heap h).events
      by_cases hh : h = h'
      · subst hh
        rw [setHist_heap_self]
        refine .taken b hp ?_
        rw [hc]
        exact shortened_removeEventBySeq (s.heap h) seq
      · rw [setHist_heap_ne s _ hh]
        exact .same rfl
  · split
    · exact .same rfl
    · exact .same rfl
  · exact .same rfl
  · exact .same rfl

theorem clearStep_hist (s : State ι E) (i : ι) {ekey : NumberedKey}
    (hc : calls i = .clear ekey) (h : Hist ι) :
    HistStep calls s i h ((clearStep s i ekey.1).heap h).events := by
  simp only [clearStep]
  split
  · split
    · exact .same rfl
    · split
      · exact .same rfl
      · exact .same rfl
  · next h' b hp =>
      split
      · exact .same rfl
      · next n reverse hpos =>
          show HistStep calls s i h
            ((s.setHist h' ((s.heap h').removeEvent n reverse).2).heap h).events
          by_cases hh : h = h'
          · subst hh
            rw [setHist_heap_self]
            refine .taken b hp ?_
            have hsel : (calls i).selects (s.heap h) = (s.heap h).getEvent n reverse := by
              rw [hc]
              simp only [Call.selects, hpos]
            rw [hsel]
            exact shortened_removeEvent (s.heap h) n reverse
          · rw [setHist_heap_ne s _ hh]
            exact .same rfl
  · split
    · exact .same rfl
    · exact .same rfl
  · exact .same rfl
  · exact .same rfl

theorem findStep_heap (s : State ι E) (i : ι) (dataKey : DataKey) :
    (findStep s i dataKey).heap = s.heap := by
  simp only [findStep]
  split
  · split
    · rfl
    · rfl
  · split
    · rfl
    · rfl
  · rfl
  · rfl

/-- **INVERSION**: a history stays, gets the object of the caller, or loses the
    object the caller selects. -/
theorem step_hist (s : State ι E) (i : ι) (h : Hist ι) :
    HistStep calls s i h ((step side calls s i).heap h).events := by
  cases hc : calls i with
  | loadEvent dataKey event => simp only [step, hc]; exact loadStep_hist s i hc h
  | removeEventBySeq dataKey seq => simp only [step, hc]; exact removeStep_hist s i hc h
  | clear ekey => simp only [step, hc]; exact clearStep_hist s i hc h
  | findLastRegisteredRequestState dataKey =>
      simp only [step, hc]
      rw [findStep_heap]
      exact .same rfl

/-! ## Whose event an object holds -/

/-- Every object of a call holds the event that call loads. -/
def Tagged (calls : ι → Call E) (s : State ι E) : Prop :=
  ∀ h x j, x ∈ (s.heap h).events → x.owner = some j →
    ∃ dataKey, calls j = .loadEvent dataKey x.event

omit [DecidableEq ι] [MockEventLike E] in
theorem Shortened.subset {x x' : List (Slot ι E)} {sel : Option (Slot ι E)}
    (h : Shortened x x' sel) {y : Slot ι E} (hy : y ∈ x') : y ∈ x := by
  cases h with
  | same h => rw [← h]; exact hy
  | less z h => exact h.subset (List.mem_cons_of_mem z hy)

theorem step_tagged {s : State ι E} (ht : Tagged calls s) (i : ι) :
    Tagged calls (step side calls s i) := by
  intro h x j hx hj
  have hstep : HistStep calls s i h ((step side calls s i).heap h).events :=
    step_hist s i h
  cases hstep with
  | same heq => rw [heq] at hx; exact ht h x j hx hj
  | loaded dataKey event hc heq =>
      rw [heq] at hx
      rcases List.mem_append.mp hx with hx | hx
      · exact ht h x j hx hj
      · rw [List.mem_singleton.mp hx] at hj ⊢
        rw [← Option.some.inj hj]
        exact ⟨dataKey, hc⟩
  | taken b hp hs => exact ht h x j (hs.subset hx) hj

omit [DecidableEq ι] [MockEventLike E] in
theorem tagged_ofStore (calls : ι → Call E) (m : MockData E) :
    Tagged calls (State.ofStore calls m) := by
  intro h x j hx hj
  cases h with
  | prior k =>
      simp only [State.ofStore] at hx
      cases hl : m.lookup k with
      | none => rw [hl] at hx; exact nomatch hx
      | some y =>
          rw [hl] at hx
          obtain ⟨e, _, rfl⟩ := List.mem_map.mp hx
          exact nomatch hj
  | made i =>
      simp only [State.ofStore] at hx
      cases hc : calls i <;> rw [hc] at hx <;> exact nomatch hx

omit [MockEventLike E] in
/-- An object counted once is there, with the event of its call. -/
theorem mem_of_countIn {s : State ι E} (ht : Tagged calls s) {h : Hist ι} {j : ι}
    {dataKey : DataKey} {event : E} (hc : calls j = .loadEvent dataKey event)
    (h1 : countIn s h j = 1) : (⟨some j, event⟩ : Slot ι E) ∈ (s.heap h).events := by
  have hpos : 0 < (s.heap h).events.countP (fun x => decide (x.owner = some j)) := by
    rw [show (s.heap h).events.countP _ = 1 from h1]
    exact Nat.one_pos
  obtain ⟨x, hx, hown⟩ := List.countP_pos_iff.mp hpos
  have hown : x.owner = some j := of_decide_eq_true hown
  obtain ⟨dk, hdk⟩ := ht h x j hx hown
  rw [hc] at hdk
  cases hdk
  rw [← hown]
  exact hx

end OneStep

end Steps

end H2Interleaving
