import H2agent.InterleavedLoadsProofs

/-! # Concurrent removals

    A removal is get, remove, test for emptiness, drop the key, and the state
    search is get, read the last event.  A load can fall between any two steps
    of a removal and be dropped with the key; a search can get a history that
    is emptied before it is read.  `removals_spare_loads` says that every run
    without such a step, on either store, keeps every event no removal
    selected and never reads the end of an empty history. -/

namespace H2Interleaving

open CppText H2Key StepRun H2Store MockEventLike

variable {ι E : Type} [DecidableEq ι]

/-- A key is dropped while its history is still empty and no load has got it
    and not yet loaded into it. -/
def DropsEmpty (calls : ι → Call E) (s : State ι E) (i : ι) : Prop :=
  s.pc i = .dropping → ∀ h, s.map (calls i).key = some h →
    (s.heap h).events = []
      ∧ ∀ j dataKey event, calls j = .loadEvent dataKey event →
          s.pc j ≠ .holding h false

/-- A search for the last state does not get a history that a removal has just
    emptied, and no removal takes the last event of a history it has got. -/
def FindsSettled [MockEventLike E] (calls : ι → Call E) (s : State ι E) (i : ι) : Prop :=
  (∀ dataKey, calls i = .findLastRegisteredRequestState dataKey → s.pc i = .start →
      ∀ h, s.map dataKey.getKey = some h → (s.heap h).events ≠ [])
    ∧ ∀ h b, s.pc i = .holding h b → (s.heap h).events.length = 1 →
        ((calls i).selects (s.heap h)).isSome →
          ∀ j dataKey b', calls j = .findLastRegisteredRequestState dataKey →
            s.pc j ≠ .holding h b'

/-- The three conditions together. -/
def Orderly [MockEventLike E] (side : Side) (calls : ι → Call E) (s : State ι E)
    (i : ι) : Prop :=
  MaidenAlone side calls s i ∧ DropsEmpty calls s i ∧ FindsSettled calls s i
/-- Under a key whose history is empty and got by no load, every load is
    detached. -/
theorem LoadOk.detached_of_empty {s : State ι E} {k : String} {j : ι} {h : Hist ι}
    (hok : LoadOk s k j) (hmap : s.map k = some h) (hempty : (s.heap h).events = [])
    (hfree : s.pc j ≠ .holding h false) : Detached s j := by
  have hset : Settled s k j → j ∈ s.selected := by
    rintro (h1 | ⟨h', hm, h1⟩)
    · exact h1
    · rw [hmap] at hm
      rw [← Option.some.inj hm] at h1
      simp only [countIn] at h1
      rw [hempty] at h1
      cases h1
  simp only [LoadOk] at hok
  simp only [Detached]
  cases hp : s.pc j with
  | start => rw [hp] at hok; exact hok
  | holding h' maiden =>
      rw [hp] at hok
      cases maiden with
      | false =>
          have hm := hok.2
          rw [hmap] at hm
          refine hfree ?_
          rw [hp, Option.some.inj hm]
      | true =>
          have hm := hok.2
          rw [hmap] at hm
          cases hm
  | adding h' =>
      rw [hp] at hok
      have hm := hok.2
      rw [hmap] at hm
      cases hm
  | rereading h => rw [hp] at hok; exact hset hok
  | testing h => rw [hp] at hok; exact hset hok
  | dropping => rw [hp] at hok; exact hset hok
  | chaining h => rw [hp] at hok; exact hset hok
  | done => rw [hp] at hok; exact hset hok

/-! ## One step of a removal or of a search -/

section OtherSteps

variable {side : Side} {calls : ι → Call E} {s : State ι E} {i : ι}

/-- A call that is no load moves its thread, and takes nothing unselected. -/
theorem kept_other {s' : State ι E} (hk : Kept side calls s)
    (hc : ∀ dk e, calls i ≠ .loadEvent dk e) (hf : Frame s s' i)
    (hmap : s'.map = s.map) (hmi : ¬ Maiden s' i) : Kept side calls s' := by
  refine hk.of_frame hf ?_ (fun h => (hmi h).elim)
  intro j dk e hcj
  have hj : j ≠ i := by
    intro h
    rw [h] at hcj
    exact hc dk e hcj
  exact hk.others hf hmap hj hcj

theorem kept_move (hk : Kept side calls s) (hc : ∀ dk e, calls i ≠ .loadEvent dk e)
    {p : Pc ι} (hp : p.maiden = false) : Kept side calls (s.setPc i p) :=
  kept_other hk hc (frame_setPc s i p) rfl (not_maiden_setPc s i hp)

/-- A removal takes the object it selects. -/
theorem kept_take (hk : Kept side calls s) (hc : ∀ dk e, calls i ≠ .loadEvent dk e)
    {h : Hist ι} {x : MockEventsHistory (Slot ι E)} {sel : Option (Slot ι E)}
    (hx : Shortened (s.heap h).events x.events sel) {p : Pc ι}
    (hp : p.maiden = false) :
    Kept side calls (((s.setHist h x).select sel).setPc i p) := by
  refine kept_other hk hc ⟨?_, ?_, ?_⟩ rfl (not_maiden_setPc _ i hp)
  · intro j hj
    exact setPc_pc_ne _ p hj
  · intro j _ h'
    by_cases hh : h' = h
    · subst hh
      have hcount := hx.count j
      have heq : countIn (((s.setHist h' x).select sel).setPc i p) h' j
          = x.events.countP (fun y => decide (y.owner = some j)) := by
        show ((s.setHist h' x).heap h').events.countP _ = _
        rw [setHist_heap_self]
      rw [heq]
      refine ⟨hcount.1, ?_⟩
      rcases hcount.2 with h1 | h1
      · exact Or.inl h1
      · exact Or.inr (List.mem_append_right _ h1)
    · have heq : countIn (((s.setHist h x).select sel).setPc i p) h' j
          = countIn s h' j := by
        show ((s.setHist h x).heap h').events.countP _ = _
        rw [setHist_heap_ne s x hh]
        rfl
      rw [heq]
      exact ⟨Nat.le_refl _, Or.inl rfl⟩
  · intro j hj
    exact List.mem_append_left _ hj

/-- A removal drops its key: nothing is there to be lost. -/
theorem kept_drop (hk : Kept side calls s) (hc : ∀ dk e, calls i ≠ .loadEvent dk e)
    (hp : s.pc i = .dropping) (hd : DropsEmpty calls s i) :
    Kept side calls ((s.setMap (calls i).key none).setPc i .done) := by
  have hf := (frame_setMap s i (calls i).key none).trans (frame_setPc _ i .done)
  refine hk.of_frame hf ?_ (fun h => (not_maiden_setPc _ i rfl h).elim)
  intro j dk e hcj
  have hj : j ≠ i := by
    intro h
    rw [h] at hcj
    exact hc dk e hcj
  have hok := hk.load j dk e hcj
  by_cases hkey : dk.getKey = (calls i).key
  · cases hm : s.map (calls i).key with
    | none =>
        refine hok.frame (hf.pc j hj) ?_ (hf.count j hj) (hf.sel j)
        rw [hkey, hm]
        exact setMap_map_self _ _ _
    | some h =>
        obtain ⟨hempty, hfree⟩ := hd hp h hm
        have hdet : Detached s j :=
          hok.detached_of_empty (hkey ▸ hm) hempty (hfree j dk e hcj)
        exact hdet.loadOk (hf.pc j hj) (hf.count j hj) (hf.sel j) _
  · exact hok.frame (hf.pc j hj) (setMap_map_ne _ _ hkey) (hf.count j hj) (hf.sel j)

variable [MockEventLike E]

/-- **STEP LEMMA, REMOVALS BY SEQUENCE**. -/
theorem removeStep_kept (hk : Kept side calls s) {dataKey : DataKey} {seq : Nat}
    (hc : calls i = .removeEventBySeq dataKey seq) (hd : DropsEmpty calls s i) :
    Kept side calls (removeStep s i dataKey seq) := by
  have hnl : ∀ dk e, calls i ≠ .loadEvent dk e := by
    intro dk e h
    rw [hc] at h
    exact nomatch h
  cases hp : s.pc i with
  | start =>
      cases hm : s.map dataKey.getKey with
      | none => simp only [removeStep, hp, hm]; exact kept_move hk hnl rfl
      | some h => simp only [removeStep, hp, hm]; exact kept_move hk hnl rfl
  | holding h maiden =>
      simp only [removeStep, hp]
      refine kept_take hk hnl (shortened_removeEventBySeq (s.heap h) seq) ?_
      split
      · rfl
      · rfl
  | testing h =>
      simp only [removeStep, hp]
      split
      · exact kept_move hk hnl rfl
      · exact kept_move hk hnl rfl
  | dropping =>
      simp only [removeStep, hp]
      have := kept_drop hk hnl hp hd
      rw [hc] at this
      exact this
  | adding h => simp only [removeStep, hp]; exact hk
  | rereading h => simp only [removeStep, hp]; exact hk
  | chaining h => simp only [removeStep, hp]; exact hk
  | done => simp only [removeStep, hp]; exact hk

omit [MockEventLike E] in
/-- **STEP LEMMA, CLEAR WITH AN EVENT NUMBER**. -/
theorem clearStep_kept (hk : Kept side calls s) {ekey : NumberedKey}
    (hc : calls i = .clear ekey) (hd : DropsEmpty calls s i) :
    Kept side calls (clearStep s i ekey.1) := by
  have hnl : ∀ dk e, calls i ≠ .loadEvent dk e := by
    intro dk e h
    rw [hc] at h
    exact nomatch h
  cases hp : s.pc i with
  | start =>
      simp only [clearStep, hp]
      split
      · exact kept_move hk hnl rfl
      · split
        · exact kept_move hk hnl rfl
        · exact kept_move hk hnl rfl
  | holding h maiden =>
      simp only [clearStep, hp]
      split
      · exact kept_move hk hnl rfl
      · next n reverse _ =>
          exact kept_take hk hnl (shortened_removeEvent (s.heap h) n reverse) rfl
  | testing h =>
      simp only [clearStep, hp]
      split
      · exact kept_move hk hnl rfl
      · exact kept_move hk hnl rfl
  | dropping =>
      simp only [clearStep, hp]
      have := kept_drop hk hnl hp hd
      rw [hc] at this
      exact this
  | adding h => simp only [clearStep, hp]; exact hk
  | rereading h => simp only [clearStep, hp]; exact hk
  | chaining h => simp only [clearStep, hp]; exact hk
  | done => simp only [clearStep, hp]; exact hk

/-- **STEP LEMMA, SEARCHES**. -/
theorem findStep_kept (hk : Kept side calls s) {dataKey : DataKey}
    (hc : calls i = .findLastRegisteredRequestState dataKey) :
    Kept side calls (findStep s i dataKey) := by
  have hnl : ∀ dk e, calls i ≠ .loadEvent dk e := by
    intro dk e h
    rw [hc] at h
    exact nomatch h
  cases hp : s.pc i with
  | start =>
      simp only [findStep, hp]
      split
      · exact kept_move hk hnl rfl
      · exact kept_move hk hnl rfl
  | holding h maiden =>
      simp only [findStep, hp]
      split
      · exact kept_other hk hnl ⟨fun _ hj => setPc_pc_ne _ _ hj,
          fun j _ => CountsKept.refl_of_heap rfl j, fun _ h => h⟩ rfl
          (not_maiden_setPc _ i rfl)
      · exact kept_move hk hnl rfl
  | chaining h => simp only [findStep, hp]; exact kept_move hk hnl rfl
  | testing h => simp only [findStep, hp]; exact hk
  | dropping => simp only [findStep, hp]; exact hk
  | adding h => simp only [findStep, hp]; exact hk
  | rereading h => simp only [findStep, hp]; exact hk
  | done => simp only [findStep, hp]; exact hk

/-- **STEP LEMMA**: a step that meets the first two conditions keeps the loads. -/
theorem step_kept (hk : Kept side calls s) (ha : MaidenAlone side calls s i)
    (hd : DropsEmpty calls s i) : Kept side calls (step side calls s i) := by
  cases hc : calls i with
  | loadEvent dataKey event =>
      simp only [step, hc]
      exact loadStep_kept hk hc ha
  | removeEventBySeq dataKey seq =>
      simp only [step, hc]
      exact removeStep_kept hk hc hd
  | clear ekey =>
      simp only [step, hc]
      exact clearStep_kept hk hc hd
  | findLastRegisteredRequestState dataKey =>
      simp only [step, hc]
      exact findStep_kept hk hc

end OtherSteps
/-! ## The last element of an empty history is never taken -/

section Searches

variable [MockEventLike E] {side : Side} {calls : ι → Call E}

/-- Every search holds a history with an event, and none has met an empty one. -/
structure Backed (calls : ι → Call E) (s : State ι E) : Prop where
  held : ∀ j dataKey h b, calls j = .findLastRegisteredRequestState dataKey →
    s.pc j = .holding h b → (s.heap h).events ≠ []
  never : s.emptyBack = false

/-- A history a search holds keeps an event. -/
theorem step_held {s : State ι E} {i j : ι} (hset : FindsSettled calls s i)
    {dataKey : DataKey} {h : Hist ι} {b : Bool}
    (hc : calls j = .findLastRegisteredRequestState dataKey)
    (hp : s.pc j = .holding h b) (hne : (s.heap h).events ≠ []) :
    ((step side calls s i).heap h).events ≠ [] := by
  have hstep : HistStep calls s i h ((step side calls s i).heap h).events :=
    step_hist s i h
  generalize ((step side calls s i).heap h).events = l at hstep ⊢
  cases hstep with
  | same heq => rw [heq]; exact hne
  | loaded dk e _ heq => rw [heq]; simp
  | taken b' hp' hx =>
      intro hnil
      subst hnil
      have hblocked := hset.2 h b' hp'
      revert hblocked
      generalize (calls i).selects (s.heap h) = sel at hx
      cases hx with
      | same heq => exact fun _ => hne heq.symm
      | less y hperm =>
          intro hblocked
          have hlen : (s.heap h).events.length = 1 := hperm.length_eq.symm
          exact hblocked hlen rfl j dataKey b hc hp

theorem findStep_backed {s : State ι E} {i : ι} {dataKey : DataKey}
    (hb : Backed calls s) (hc : calls i = .findLastRegisteredRequestState dataKey)
    (hset : FindsSettled calls s i) : Backed calls (findStep s i dataKey) := by
  have hheap := findStep_heap s i dataKey
  have hpcne : ∀ j, j ≠ i → (findStep s i dataKey).pc j = s.pc j := by
    intro j hj
    have h : (step .server calls s i).pc j = s.pc j := step_pc_ne s hj
    simp only [step, hc] at h
    exact h
  -- the others hold what they held; the search itself is looked at below
  have hheld : (∀ h b, (findStep s i dataKey).pc i = .holding h b →
      (s.heap h).events ≠ []) →
      ∀ j dk h b, calls j = .findLastRegisteredRequestState dk →
        (findStep s i dataKey).pc j = .holding h b →
          ((findStep s i dataKey).heap h).events ≠ [] := by
    intro hi j dk h b hcj hpj
    rw [hheap]
    by_cases hj : j = i
    · subst hj
      exact hi h b hpj
    · rw [hpcne j hj] at hpj
      exact hb.held j dk h b hcj hpj
  cases hp : s.pc i with
  | start =>
      cases hm : s.map dataKey.getKey with
      | none =>
          refine ⟨hheld ?_, ?_⟩
          · intro h b hpi
            simp only [findStep, hp, hm, setPc_pc_self] at hpi
            cases hpi
          · simp only [findStep, hp, hm]
            exact hb.never
      | some h0 =>
          refine ⟨hheld ?_, ?_⟩
          · intro h b hpi
            simp only [findStep, hp, hm, setPc_pc_self] at hpi
            cases hpi
            exact hset.1 dataKey hc hp _ hm
          · simp only [findStep, hp, hm]
            exact hb.never
  | holding h0 b0 =>
      -- `back()` is read from a history that has an event
      have hne := hb.held i dataKey h0 b0 hc hp
      have hlast : (s.heap h0).getLastRegisteredRequestState
          = some (AbsHistory.lastState ⟨⟨_, hne⟩, (s.heap h0).chainVariables⟩) :=
        getLastRegisteredRequestState_eq (s.heap h0) hne
      refine ⟨hheld ?_, ?_⟩
      · intro h b hpi
        simp only [findStep, hp, hlast, setPc_pc_self] at hpi
        cases hpi
      · simp only [findStep, hp, hlast]
        exact hb.never
  | chaining h0 =>
      refine ⟨hheld ?_, ?_⟩
      · intro h b hpi
        simp only [findStep, hp, setPc_pc_self] at hpi
        cases hpi
      · simp only [findStep, hp]
        exact hb.never
  | testing h0 => simp only [findStep, hp]; exact hb
  | dropping => simp only [findStep, hp]; exact hb
  | adding h0 => simp only [findStep, hp]; exact hb
  | rereading h0 => simp only [findStep, hp]; exact hb
  | done => simp only [findStep, hp]; exact hb

/-- Only a search reads `back()`. -/
theorem step_emptyBack {s : State ι E} {i : ι}
    (hc : ∀ dk, calls i ≠ .findLastRegisteredRequestState dk) :
    (step side calls s i).emptyBack = s.emptyBack := by
  simp only [step]
  split
  · simp only [loadStep]
    split
    · split
      · rfl
      · rfl
      · rfl
    · rfl
    · rfl
    · rfl
    · rfl
  · simp only [removeStep]
    split
    · split
      · rfl
      · rfl
    · rfl
    · split
      · rfl
      · rfl
    · rfl
    · rfl
  · simp only [clearStep]
    split
    · split
      · rfl
      · split
        · rfl
        · rfl
    · split
      · rfl
      · rfl
    · split
      · rfl
      · rfl
    · rfl
    · rfl
  · next dk h => exact (hc dk h).elim

/-- **STEP LEMMA**: a step that meets the third condition leaves every search
    with an event to read. -/
theorem step_backed {s : State ι E} {i : ι} (hb : Backed calls s)
    (hset : FindsSettled calls s i) : Backed calls (step side calls s i) := by
  by_cases hfind : ∃ dk, calls i = .findLastRegisteredRequestState dk
  · obtain ⟨dk, hc⟩ := hfind
    have := findStep_backed hb hc hset
    simp only [step, hc]
    exact this
  · have hc : ∀ dk, calls i ≠ .findLastRegisteredRequestState dk :=
      fun dk h => hfind ⟨dk, h⟩
    refine ⟨?_, (step_emptyBack hc).trans hb.never⟩
    intro j dk h b hcj hpj
    have hj : j ≠ i := by
      intro hji
      rw [hji] at hcj
      exact hc dk hcj
    rw [step_pc_ne s hj] at hpj
    exact step_held hset hcj hpj (hb.held j dk h b hcj hpj)

omit [DecidableEq ι] [MockEventLike E] in
theorem backed_ofStore (calls : ι → Call E) (m : MockData E) :
    Backed calls (State.ofStore calls m) := by
  refine ⟨?_, rfl⟩
  intro j dk h b _ hp
  exact nomatch hp

end Searches

/-! ## Runs of loads and removals -/
variable [MockEventLike E]

/-- **REMOVALS SPARE THE LOADS OF ORDERLY RUNS**: on either store, from any
    store, in every run whose steps are all orderly `back()` never meets an
    empty history, and once all calls have returned every loaded event that no
    removal selected is in the store. -/
theorem removals_spare_loads (side : Side) (calls : ι → Call E) (m : MockData E)
    (schedule : List ι)
    (horderly : AllSteps (step side calls) (Orderly side calls)
      (State.ofStore calls m) schedule) :
    let s := run (step side calls) (State.ofStore calls m) schedule
    s.emptyBack = false ∧
      (Finished s → ∀ i dataKey event, calls i = .loadEvent dataKey event →
        i ∉ s.selected → InStore s dataKey.getKey i event) := by
  have hinv := run_invariant_of
    (I := fun s => Kept side calls s ∧ Tagged calls s ∧ Backed calls s)
    (fun s i hI hO => ⟨step_kept hI.1 hO.1 hO.2.1, step_tagged hI.2.1 i,
      step_backed hI.2.2 hO.2.2⟩)
    schedule (State.ofStore calls m)
    ⟨kept_ofStore side calls m, tagged_ofStore calls m, backed_ofStore calls m⟩
    horderly
  intro s
  obtain ⟨hk, ht, hb⟩ := hinv
  refine ⟨hb.never, ?_⟩
  intro hfin i dataKey event hc hsel
  have hok : LoadOk s dataKey.getKey i := hk.load i dataKey event hc
  simp only [LoadOk] at hok
  rw [hfin i] at hok
  rcases hok with h1 | ⟨h, hm, h1⟩
  · exact (hsel h1).elim
  · exact ⟨h, hm, mem_of_countIn ht hc h1⟩

/-- The key of the runs below, and a store with one event under it. -/
def oneKey : DataKey := DataKey.ofClient "myEndpoint" "GET" "/a"

def oneEvent : MockData (String × Nat) :=
  MockClientData.loadEvent ∅ oneKey ("initial", 1) true

/-- A load beside the removal of the event that is there. -/
def loadAndRemove : Bool → Call (String × Nat)
  | false => .loadEvent oneKey ("initial", 2)
  | true => .removeEventBySeq oneKey 1

/-- A state search beside the removal of the event that is there. -/
def findAndRemove : Bool → Call (String × Nat)
  | false => .findLastRegisteredRequestState oneKey
  | true => .removeEventBySeq oneKey 1

omit [DecidableEq ι] [MockEventLike E] in
/-- Without a search the third condition asks nothing. -/
theorem findsSettled_of_none [MockEventLike E] {calls : ι → Call E}
    (hc : ∀ i dk, calls i ≠ .findLastRegisteredRequestState dk) (s : State ι E) (i : ι) :
    FindsSettled calls s i :=
  ⟨fun dk h => (hc i dk h).elim, fun _ _ _ _ _ j dk _ h => (hc j dk h).elim⟩

omit [DecidableEq ι] [MockEventLike E] in
theorem dropsEmpty_of_ne {calls : ι → Call E} {s : State ι E} {i : ι}
    (hp : s.pc i ≠ .dropping) : DropsEmpty calls s i :=
  fun h => (hp h).elim

/-- The load falls between the lookup of the removal and its removal step: an
    orderly run. -/
theorem load_within_removal :
    let s := run (step .client loadAndRemove) (State.ofStore loadAndRemove oneEvent)
      [true, false, true, true]
    Finished s ∧ false ∉ s.selected ∧ InStore s oneKey.getKey false ("initial", 2) := by
  intro s
  have hfin : Finished s := by
    intro i
    cases i with
    | false => decide
    | true => decide
  have hsel : false ∉ s.selected := by decide
  have hnofind : ∀ i dk, loadAndRemove i ≠ .findLastRegisteredRequestState dk := by
    intro i dk h
    cases i with
    | false => exact nomatch h
    | true => exact nomatch h
  have horderly : ∀ (t : State Bool (String × Nat)) (i : Bool), t.pc i ≠ .dropping →
      Orderly .client loadAndRemove t i := by
    intro t i hp
    exact ⟨maidenAlone_client _ t i, dropsEmpty_of_ne hp, findsSettled_of_none hnofind t i⟩
  refine ⟨hfin, hsel, ?_⟩
  exact (removals_spare_loads .client loadAndRemove oneEvent [true, false, true, true]
    ⟨horderly _ _ (by decide), horderly _ _ (by decide), horderly _ _ (by decide),
      horderly _ _ (by decide), True.intro⟩).2 hfin false oneKey ("initial", 2) rfl hsel

/-- The load falls between the emptiness test and the drop of the key, and is
    dropped with it; and a search reads a history that was emptied after it
    got it. -/
theorem removal_drops_load_and_empties_back :
    (¬ ∀ (calls : Bool → Call (String × Nat)) (m : MockData (String × Nat))
        (schedule : List Bool),
        let s := run (step .client calls) (State.ofStore calls m) schedule
        Finished s → ∀ i dataKey event, calls i = .loadEvent dataKey event →
          i ∉ s.selected → InStore s dataKey.getKey i event)
      ∧ ¬ ∀ (calls : Bool → Call (String × Nat)) (m : MockData (String × Nat))
        (schedule : List Bool),
        (run (step .client calls) (State.ofStore calls m) schedule).emptyBack = false := by
  refine ⟨?_, ?_⟩
  · intro hall
    have hlaw := hall loadAndRemove oneEvent [true, true, true, false, true]
      (by
        intro i
        cases i with
        | false => decide
        | true => decide)
      false oneKey ("initial", 2) rfl (by decide)
    obtain ⟨h, hm, _⟩ := hlaw
    have hmap : (run (step .client loadAndRemove) (State.ofStore loadAndRemove oneEvent)
        [true, true, true, false, true]).map oneKey.getKey = none := by decide
    rw [hmap] at hm
    exact nomatch hm
  · intro hall
    have hlaw := hall findAndRemove oneEvent [false, true, true, false]
    exact absurd hlaw (by decide)

end H2Interleaving
