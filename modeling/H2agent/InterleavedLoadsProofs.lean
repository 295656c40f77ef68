import H2agent.InterleavingProofs

/-! # Concurrent loads

    Loading on the server is get-or-create, load, insert-if-fresh, re-read.
    Two first loads of one key can both find it missing, and the insertion of
    the second one drops the history of the first.  `concurrent_loads_kept`
    says that nothing else loses an event: a complete run of server loads
    keeps every event once EXACTLY when no load missed its key while another
    one was about to insert it, and client loads always do. -/

namespace H2Interleaving

open CppText H2Key StepRun H2Store MockEventLike

variable {ι E : Type} [DecidableEq ι]

/-! ## The steps that break the law -/

/-- The steps between making a history and inserting it. -/
def Pc.maiden : Pc ι → Bool
  | .holding _ maiden => maiden
  | .adding _ => true
  | _ => false

/-- Call `j` has made a history of its own and not yet inserted it. -/
def Maiden (s : State ι E) (j : ι) : Prop := (s.pc j).maiden = true

/-- A load that finds its key missing does so while no other call is about to
    insert a history for that key. -/
def MaidenAlone (side : Side) (calls : ι → Call E) (s : State ι E) (i : ι) : Prop :=
  ∀ dataKey event, calls i = .loadEvent dataKey event → side = .server →
    s.pc i = .start → s.map dataKey.getKey = none →
      ∀ j, j ≠ i → (calls j).key = dataKey.getKey → ¬ Maiden s j
/-! ## The loads are kept -/

/-- The object of a load that is past its load step: taken by a removal, or once
    in the history under the key. -/
def Settled (s : State ι E) (k : String) (j : ι) : Prop :=
  j ∈ s.selected ∨ ∃ h, s.map k = some h ∧ countIn s h j = 1

/-- What holds of a load at each of its steps. -/
def LoadOk (s : State ι E) (k : String) (j : ι) : Prop :=
  match s.pc j with
  | .start => ∀ h, countIn s h j = 0
  | .holding h false => (∀ h, countIn s h j = 0) ∧ s.map k = some h
  | .holding _ true => (∀ h, countIn s h j = 0) ∧ s.map k = none
  | .adding h => (j ∈ s.selected ∨ countIn s h j = 1) ∧ s.map k = none
  | _ => Settled s k j

/-- The invariant of the loads: each is where it should be, and no two are about
    to insert a history for one key. -/
structure Kept (side : Side) (calls : ι → Call E) (s : State ι E) : Prop where
  load : ∀ j dataKey event, calls j = .loadEvent dataKey event →
    LoadOk s dataKey.getKey j
  lone : ∀ i j, i ≠ j → Maiden s i → Maiden s j → (calls i).key ≠ (calls j).key
  client : side = .client → ∀ j, ¬ Maiden s j

/-- The counts of `j` did not grow, and where one fell `j` was selected. -/
def CountsKept (s s' : State ι E) (j : ι) : Prop :=
  ∀ h, countIn s' h j ≤ countIn s h j
    ∧ (countIn s' h j = countIn s h j ∨ j ∈ s'.selected)

theorem CountsKept.refl_of_heap {s s' : State ι E} (h : s'.heap = s.heap) (j : ι) :
    CountsKept s s' j := by
  intro x
  simp only [countIn]
  rw [h]
  exact ⟨Nat.le_refl _, Or.inl rfl⟩

/-- **FRAME**: a step that leaves the thread of `j` and the entry of its key
    alone, and takes nothing unselected, leaves `j` where it should be. -/
theorem LoadOk.frame {s s' : State ι E} {k : String} {j : ι} (hok : LoadOk s k j)
    (hpc : s'.pc j = s.pc j) (hmap : s'.map k = s.map k)
    (hcount : CountsKept s s' j) (hsel : j ∈ s.selected → j ∈ s'.selected) :
    LoadOk s' k j := by
  have habsent : (∀ h, countIn s h j = 0) → ∀ h, countIn s' h j = 0 := by
    intro h0 h
    have := (hcount h).1
    rw [h0 h] at this
    omega
  have hone : ∀ h, (j ∈ s.selected ∨ countIn s h j = 1) →
      (j ∈ s'.selected ∨ countIn s' h j = 1) := by
    intro h h1
    rcases h1 with h1 | h1
    · exact Or.inl (hsel h1)
    · rcases (hcount h).2 with h2 | h2
      · exact Or.inr (h2.trans h1)
      · exact Or.inl h2
  have hset : Settled s k j → Settled s' k j := by
    rintro (h1 | ⟨h, hm, h1⟩)
    · exact Or.inl (hsel h1)
    · rcases hone h (Or.inr h1) with h2 | h2
      · exact Or.inl h2
      · exact Or.inr ⟨h, hmap.trans hm, h2⟩
  simp only [LoadOk] at hok ⊢
  rw [hpc]
  cases hp : s.pc j with
  | start => rw [hp] at hok; exact habsent hok
  | holding h maiden =>
      rw [hp] at hok
      cases maiden with
      | false => exact ⟨habsent hok.1, hmap.trans hok.2⟩
      | true => exact ⟨habsent hok.1, hmap.trans hok.2⟩
  | adding h => rw [hp] at hok; exact ⟨hone h hok.1, hmap.trans hok.2⟩
  | rereading h => rw [hp] at hok; exact hset hok
  | testing h => rw [hp] at hok; exact hset hok
  | dropping => rw [hp] at hok; exact hset hok
  | chaining h => rw [hp] at hok; exact hset hok
  | done => rw [hp] at hok; exact hset hok

/-- A load that does not depend on what the map holds: it has not begun, or its
    object was taken. -/
def Detached (s : State ι E) (j : ι) : Prop :=
  match s.pc j with
  | .start => ∀ h, countIn s h j = 0
  | .holding _ _ => False
  | .adding _ => False
  | _ => j ∈ s.selected

theorem Detached.loadOk {s s' : State ι E} {j : ι} (hd : Detached s j)
    (hpc : s'.pc j = s.pc j) (hcount : CountsKept s s' j)
    (hsel : j ∈ s.selected → j ∈ s'.selected) (k : String) : LoadOk s' k j := by
  simp only [Detached] at hd
  simp only [LoadOk]
  rw [hpc]
  cases hp : s.pc j with
  | start =>
      rw [hp] at hd
      intro h
      have := (hcount h).1
      rw [hd h] at this
      omega
  | holding h maiden => rw [hp] at hd; exact hd.elim
  | adding h => rw [hp] at hd; exact hd.elim
  | rereading h => rw [hp] at hd; exact Or.inl (hsel hd)
  | testing h => rw [hp] at hd; exact Or.inl (hsel hd)
  | dropping => rw [hp] at hd; exact Or.inl (hsel hd)
  | chaining h => rw [hp] at hd; exact Or.inl (hsel hd)
  | done => rw [hp] at hd; exact Or.inl (hsel hd)

/-- Under a missing key every load that is not about to insert is detached. -/
theorem LoadOk.detached_of_none {s : State ι E} {k : String} {j : ι}
    (hok : LoadOk s k j) (hmap : s.map k = none) (hm : ¬ Maiden s j) :
    Detached s j := by
  have hset : Settled s k j → j ∈ s.selected := by
    rintro (h1 | ⟨h, hm, _⟩)
    · exact h1
    · rw [hmap] at hm
      exact nomatch hm
  simp only [LoadOk] at hok
  simp only [Detached]
  cases hp : s.pc j with
  | start => rw [hp] at hok; exact hok
  | holding h maiden =>
      rw [hp] at hok
      cases maiden with
      | false =>
          have := hok.2
          rw [hmap] at this
          exact nomatch this
      | true => exact hm (by simp only [Maiden]; rw [hp]; rfl)
  | adding h => exact hm (by simp only [Maiden]; rw [hp]; rfl)
  | rereading h => rw [hp] at hok; exact hset hok
  | testing h => rw [hp] at hok; exact hset hok
  | dropping => rw [hp] at hok; exact hset hok
  | chaining h => rw [hp] at hok; exact hset hok
  | done => rw [hp] at hok; exact hset hok
/-! ## One step of a load -/

/-- What a step of call `i` owes to the loads of the others. -/
structure Frame (s s' : State ι E) (i : ι) : Prop where
  pc : ∀ j, j ≠ i → s'.pc j = s.pc j
  count : ∀ j, j ≠ i → CountsKept s s' j
  sel : ∀ j, j ∈ s.selected → j ∈ s'.selected

theorem Frame.maiden {s s' : State ι E} {i j : ι} (hf : Frame s s' i) (hj : j ≠ i) :
    Maiden s' j ↔ Maiden s j := by
  simp only [Maiden]
  rw [hf.pc j hj]

/-- Assemble the invariant after a step of `i` from what it says of the loads
    one by one and of `i` as a maiden. -/
theorem Kept.of_frame {side : Side} {calls : ι → Call E} {s s' : State ι E} {i : ι}
    (hk : Kept side calls s) (hf : Frame s s' i)
    (hload : ∀ j dataKey event, calls j = .loadEvent dataKey event →
      LoadOk s' dataKey.getKey j)
    (hmaiden : Maiden s' i → side = .server ∧
      ∀ j, j ≠ i → Maiden s j → (calls j).key ≠ (calls i).key) :
    Kept side calls s' := by
  refine ⟨hload, ?_, ?_⟩
  · intro a b hab ha hb
    by_cases hai : a = i
    · subst hai
      have hba : b ≠ a := fun h => hab h.symm
      exact fun h => (hmaiden ha).2 b hba ((hf.maiden hba).mp hb) h.symm
    · by_cases hbi : b = i
      · subst hbi
        exact (hmaiden hb).2 a hab ((hf.maiden hab).mp ha)
      · exact hk.lone a b hab ((hf.maiden hai).mp ha) ((hf.maiden hbi).mp hb)
  · intro hc j hj
    by_cases hji : j = i
    · subst hji
      have := (hmaiden hj).1
      rw [hc] at this
      exact nomatch this
    · exact hk.client hc j ((hf.maiden hji).mp hj)

/-- A call that only moves its own thread. -/
theorem frame_setPc (s : State ι E) (i : ι) (p : Pc ι) : Frame s (s.setPc i p) i where
  pc _ hj := setPc_pc_ne s p hj
  count j _ := CountsKept.refl_of_heap rfl j
  sel _ h := h

/-- A call that loads its own object. -/
theorem frame_load (s : State ι E) (i : ι) (h : Hist ι) (event : E) :
    Frame s (s.setHist h ((s.heap h).loadEvent ⟨some i, event⟩ true)) i where
  pc _ _ := rfl
  count j hj := by
    intro h'
    rw [countIn_setHist_load, if_neg (fun hc => hj hc.2)]
    exact ⟨Nat.le_refl _, Or.inl rfl⟩
  sel _ h := h

theorem Frame.trans {s t u : State ι E} {i : ι} (h1 : Frame s t i)
    (h2 : Frame t u i) : Frame s u i where
  pc j hj := (h2.pc j hj).trans (h1.pc j hj)
  count j hj := by
    intro h
    obtain ⟨a1, a2⟩ := h1.count j hj h
    obtain ⟨b1, b2⟩ := h2.count j hj h
    refine ⟨Nat.le_trans b1 a1, ?_⟩
    rcases b2 with b2 | b2
    · rcases a2 with a2 | a2
      · exact Or.inl (b2.trans a2)
      · exact Or.inr (h2.sel j a2)
    · exact Or.inr b2
  sel j h := h2.sel j (h1.sel j h)

theorem frame_setMap (s : State ι E) (i : ι) (k : String) (h : Option (Hist ι)) :
    Frame s (s.setMap k h) i where
  pc _ _ := rfl
  count j _ := CountsKept.refl_of_heap rfl j
  sel _ h := h

/-- The loads of the other calls, when the entry of their key is not touched. -/
theorem Kept.others {side : Side} {calls : ι → Call E} {s s' : State ι E} {i : ι}
    (hk : Kept side calls s) (hf : Frame s s' i) (hmap : s'.map = s.map) {j : ι}
    (hj : j ≠ i) {dataKey : DataKey} {event : E}
    (hc : calls j = .loadEvent dataKey event) : LoadOk s' dataKey.getKey j :=
  (hk.load j dataKey event hc).frame (hf.pc j hj) (by rw [hmap]) (hf.count j hj)
    (hf.sel j)

/-- The loads of the other calls, when call `i` puts a history under a key that
    was missing, and no other call is about to do so. -/
theorem Kept.others_insert {side : Side} {calls : ι → Call E} {s s' : State ι E}
    {i : ι} {k : String} (hk : Kept side calls s) (hf : Frame s s' i)
    (hnone : s.map k = none) (hmap : ∀ k', k' ≠ k → s'.map k' = s.map k')
    (halone : ∀ j, j ≠ i → (calls j).key = k → ¬ Maiden s j) {j : ι}
    (hj : j ≠ i) {dataKey : DataKey} {event : E}
    (hc : calls j = .loadEvent dataKey event) : LoadOk s' dataKey.getKey j := by
  have hok := hk.load j dataKey event hc
  by_cases hkey : dataKey.getKey = k
  · have hjkey : (calls j).key = k := by rw [hc]; exact hkey
    have hd : Detached s j :=
      hok.detached_of_none (hkey ▸ hnone) (halone j hj hjkey)
    exact hd.loadOk (hf.pc j hj) (hf.count j hj) (hf.sel j) _
  · exact hok.frame (hf.pc j hj) (hmap _ hkey) (hf.count j hj) (hf.sel j)

/-- The load invariant read off a known program counter. -/
theorem loadOk_holding {s : State ι E} {k : String} {j : ι} {h : Hist ι} {b : Bool}
    (hp : s.pc j = .holding h b) (hok : LoadOk s k j) :
    (∀ h, countIn s h j = 0) ∧ s.map k = (if b then none else some h) := by
  simp only [LoadOk] at hok
  rw [hp] at hok
  cases b with
  | false => exact hok
  | true => exact hok

/-- The loads one by one after a step of the load `i`. -/
theorem loads_of_self {calls : ι → Call E} {s' : State ι E} {i : ι} {dataKey : DataKey}
    {event : E} (hc : calls i = .loadEvent dataKey event)
    (hi : LoadOk s' dataKey.getKey i)
    (ho : ∀ j, j ≠ i → ∀ dk e, calls j = .loadEvent dk e → LoadOk s' dk.getKey j) :
    ∀ j dk e, calls j = .loadEvent dk e → LoadOk s' dk.getKey j := by
  intro j dk e hj
  by_cases hji : j = i
  · subst hji
    rw [hc] at hj
    cases hj
    exact hi
  · exact ho j hji dk e hj

theorem not_maiden_setPc (s : State ι E) (i : ι) {p : Pc ι} (hp : p.maiden = false) :
    ¬ Maiden (s.setPc i p) i := by
  simp only [Maiden]
  rw [setPc_pc_self, hp]
  exact Bool.false_ne_true

section LoadSteps

variable {side : Side} {calls : ι → Call E} {s : State ι E} {i : ι}
  {dataKey : DataKey} {event : E}

/-- The server load finds its key. -/
theorem kept_look (hk : Kept side calls s) (hc : calls i = .loadEvent dataKey event)
    (hp : s.pc i = .start) {h : Hist ι} (hm : s.map dataKey.getKey = some h) :
    Kept side calls (s.setPc i (.holding h false)) := by
  have hok := hk.load i dataKey event hc
  simp only [LoadOk] at hok
  rw [hp] at hok
  have hf := frame_setPc s i (.holding h false)
  refine hk.of_frame hf (loads_of_self hc ?_ ?_) ?_
  · simp only [LoadOk]
    rw [setPc_pc_self]
    exact ⟨hok, hm⟩
  · intro j hj dk e hcj
    exact hk.others hf rfl hj hcj
  · intro hmi
    exact (not_maiden_setPc s i rfl hmi).elim

/-- The server load misses its key and makes a history. -/
theorem kept_make (hk : Kept .server calls s) (hc : calls i = .loadEvent dataKey event)
    (hp : s.pc i = .start) (hm : s.map dataKey.getKey = none)
    (ha : MaidenAlone .server calls s i) :
    Kept .server calls (s.setPc i (.holding (.made i) true)) := by
  have hok := hk.load i dataKey event hc
  simp only [LoadOk] at hok
  rw [hp] at hok
  have hf := frame_setPc s i (.holding (.made i) true)
  refine hk.of_frame hf (loads_of_self hc ?_ ?_) ?_
  · simp only [LoadOk]
    rw [setPc_pc_self]
    exact ⟨hok, hm⟩
  · intro j hj dk e hcj
    exact hk.others hf rfl hj hcj
  · intro _
    refine ⟨rfl, ?_⟩
    intro j hj hjm hjk
    have hkey : (calls j).key = dataKey.getKey := by rw [hjk, hc]; rfl
    exact ha dataKey event hc rfl hp hm j hj hkey hjm

/-- The client load: look up, create and load under one lock. -/
theorem kept_merge (hk : Kept .client calls s) (hc : calls i = .loadEvent dataKey event)
    (hp : s.pc i = .start) {h : Hist ι}
    (hh : (s.map dataKey.getKey).getD (.made i) = h) :
    Kept .client calls
      (((s.setHist h ((s.heap h).loadEvent ⟨some i, event⟩ true)).setMap
        dataKey.getKey (some h)).setPc i .done) := by
  have hok := hk.load i dataKey event hc
  simp only [LoadOk] at hok
  rw [hp] at hok
  have hf := ((frame_load s i h event).trans
    (frame_setMap _ i dataKey.getKey (some h))).trans (frame_setPc _ i .done)
  refine hk.of_frame hf (loads_of_self hc ?_ ?_) ?_
  · simp only [LoadOk]
    rw [setPc_pc_self]
    refine Or.inr ⟨h, setMap_map_self _ _ _, ?_⟩
    show countIn (s.setHist h _) h i = 1
    rw [countIn_setHist_load, hok h, if_pos ⟨rfl, rfl⟩]
  · intro j hj dk e hcj
    cases hm : s.map dataKey.getKey with
    | none =>
        exact hk.others_insert hf hm (fun k' hk' => setMap_map_ne _ _ hk')
          (fun j _ _ => hk.client rfl j) hj hcj
    | some h0 =>
        -- the entry is written back as it was
        rw [hm] at hh
        refine hk.others hf ?_ hj hcj
        funext k'
        by_cases hk' : k' = dataKey.getKey
        · rw [hk', hm, show h0 = h from hh]
          exact setMap_map_self _ _ _
        · exact setMap_map_ne _ _ hk'
  · intro hmi
    exact (not_maiden_setPc _ i rfl hmi).elim

/-- The server load loads its object into the history it holds. -/
theorem kept_load (hk : Kept side calls s) (hc : calls i = .loadEvent dataKey event)
    {h : Hist ι} {maiden : Bool} (hp : s.pc i = .holding h maiden) :
    Kept side calls
      ((s.setHist h ((s.heap h).loadEvent ⟨some i, event⟩ true)).setPc i
        (if maiden then .adding h else .rereading h)) := by
  obtain ⟨habsent, hmap⟩ := loadOk_holding hp (hk.load i dataKey event hc)
  have hone : countIn (s.setHist h ((s.heap h).loadEvent ⟨some i, event⟩ true)) h i
      = 1 := by
    rw [countIn_setHist_load, habsent h, if_pos ⟨rfl, rfl⟩]
  have hf := (frame_load s i h event).trans
    (frame_setPc _ i (if maiden then .adding h else .rereading h))
  refine hk.of_frame hf (loads_of_self hc ?_ ?_) ?_
  · simp only [LoadOk]
    rw [setPc_pc_self]
    cases maiden with
    | false => exact Or.inr ⟨h, hmap, hone⟩
    | true => exact ⟨Or.inr hone, hmap⟩
  · intro j hj dk e hcj
    exact hk.others hf rfl hj hcj
  · intro hmi
    cases maiden with
    | false => exact (not_maiden_setPc _ i rfl hmi).elim
    | true =>
        have hmi : Maiden s i := by simp only [Maiden]; rw [hp]; rfl
        refine ⟨?_, fun j hj hjm => hk.lone j i hj hjm hmi⟩
        cases hs : side with
        | server => rfl
        | client => exact (hk.client hs i hmi).elim

/-- The server load inserts the history it made. -/
theorem kept_add (hk : Kept side calls s) (hc : calls i = .loadEvent dataKey event)
    {h : Hist ι} (hp : s.pc i = .adding h) :
    Kept side calls ((s.setMap dataKey.getKey (some h)).setPc i (.rereading h)) := by
  have hok := hk.load i dataKey event hc
  simp only [LoadOk] at hok
  rw [hp] at hok
  obtain ⟨hone, hnone⟩ := hok
  have hmi : Maiden s i := by simp only [Maiden]; rw [hp]; rfl
  have hf := (frame_setMap s i dataKey.getKey (some h)).trans
    (frame_setPc _ i (.rereading h))
  refine hk.of_frame hf (loads_of_self hc ?_ ?_) ?_
  · simp only [LoadOk]
    rw [setPc_pc_self]
    rcases hone with h1 | h1
    · exact Or.inl h1
    · exact Or.inr ⟨h, setMap_map_self _ _ _, h1⟩
  · intro j hj dk e hcj
    refine hk.others_insert hf hnone (fun k' hk' => setMap_map_ne _ _ hk') ?_ hj hcj
    intro j' hj' hjk hjm
    refine hk.lone j' i hj' hjm hmi ?_
    rw [hjk, hc]
    rfl
  · intro hmi
    exact (not_maiden_setPc _ i rfl hmi).elim

/-- The server load reads the last event back. -/
theorem kept_reread (hk : Kept side calls s) (hc : calls i = .loadEvent dataKey event)
    {h : Hist ι} (hp : s.pc i = .rereading h) (last : Option (Slot ι E)) :
    Kept side calls ({ s with lastLoadedEvent := last }.setPc i .done) := by
  have hok := hk.load i dataKey event hc
  simp only [LoadOk] at hok
  rw [hp] at hok
  have hf : Frame s ({ s with lastLoadedEvent := last }.setPc i .done) i :=
    ⟨fun _ hj => setPc_pc_ne _ _ hj, fun j _ => CountsKept.refl_of_heap rfl j,
      fun _ h => h⟩
  refine hk.of_frame hf (loads_of_self hc ?_ ?_) ?_
  · simp only [LoadOk]
    rw [setPc_pc_self]
    exact hok
  · intro j hj dk e hcj
    exact hk.others hf rfl hj hcj
  · intro hmi
    exact (not_maiden_setPc _ i rfl hmi).elim

/-- **STEP LEMMA, LOADS**. -/
theorem loadStep_kept (hk : Kept side calls s) (hc : calls i = .loadEvent dataKey event)
    (ha : MaidenAlone side calls s i) :
    Kept side calls (loadStep side s i dataKey event) := by
  cases hp : s.pc i with
  | start =>
      cases side with
      | server =>
          cases hm : s.map dataKey.getKey with
          | some h =>
              simp only [loadStep, hp, hm]
              exact kept_look hk hc hp hm
          | none =>
              simp only [loadStep, hp, hm]
              exact kept_make hk hc hp hm ha
      | client =>
          simp only [loadStep, hp]
          exact kept_merge hk hc hp rfl
  | holding h maiden => simp only [loadStep, hp]; exact kept_load hk hc hp
  | adding h => simp only [loadStep, hp]; exact kept_add hk hc hp
  | rereading h => simp only [loadStep, hp]; exact kept_reread hk hc hp _
  | testing h => simp only [loadStep, hp]; exact hk
  | dropping => simp only [loadStep, hp]; exact hk
  | chaining h => simp only [loadStep, hp]; exact hk
  | done => simp only [loadStep, hp]; exact hk

end LoadSteps
/-- Before any step nothing has been loaded. -/
theorem kept_ofStore (side : Side) (calls : ι → Call E) (m : MockData E) :
    Kept side calls (State.ofStore calls m) := by
  refine ⟨?_, ?_, ?_⟩
  · intro j dk e _ h
    show ((State.ofStore calls m).heap h).events.countP _ = 0
    cases h with
    | prior k =>
        simp only [State.ofStore]
        cases m.lookup k with
        | none => rfl
        | some x =>
            refine List.countP_eq_zero.mpr ?_
            intro y hy
            obtain ⟨e', _, rfl⟩ := List.mem_map.mp hy
            simp
    | made i =>
        simp only [State.ofStore]
        cases calls i <;> rfl
  · intro i j _ hi
    cases hi
  · intro _ j hj
    cases hj

/-- All calls have returned. -/
def Finished (s : State ι E) : Prop := ∀ i, s.pc i = .done

/-- The object of call `i`, with its event, is under its key. -/
def InStore (s : State ι E) (k : String) (i : ι) (event : E) : Prop :=
  ∃ h, s.map k = some h ∧ (⟨some i, event⟩ : Slot ι E) ∈ (s.heap h).events

/-! ## A lost history stays lost -/

/-- The object of call `j` is in no history but the one `j` makes. -/
def OnlyMade (s : State ι E) (j : ι) : Prop :=
  ∀ h, h ≠ .made j → countIn s h j = 0

/-- Up to its insertion a load that made a history works on that history. -/
def OwnWork (s : State ι E) (j : ι) : Prop :=
  match s.pc j with
  | .start => ∀ h, countIn s h j = 0
  | .holding h true => h = .made j ∧ ∀ h, countIn s h j = 0
  | .adding h => h = .made j ∧ OnlyMade s j
  | _ => True

/-- Call `j` has made a history, and its object is in no other. -/
def Apart (s : State ι E) (j : ι) : Prop :=
  OnlyMade s j ∧
    match s.pc j with
    | .start => False
    | .holding h maiden => maiden = true ∧ h = .made j
    | .adding h => h = .made j
    | _ => True

section Apart

variable {calls : ι → Call E} {s : State ι E} {i j : ι} {dataKey : DataKey} {event : E}

/-- The counts of a load do not change under the steps of the others. -/
theorem loadStep_countIn_ne (side : Side) (hj : j ≠ i) (h : Hist ι) :
    countIn (loadStep side s i dataKey event) h j = countIn s h j := by
  have hload : ∀ h', countIn (s.setHist h' ((s.heap h').loadEvent ⟨some i, event⟩ true))
      h j = countIn s h j := by
    intro h'
    rw [countIn_setHist_load, if_neg (fun hc => hj hc.2)]
    rfl
  simp only [loadStep]
  split
  · split
    · rfl
    · rfl
    · exact hload _
  · exact hload _
  · rfl
  · rfl
  · rfl

theorem loadStep_pc_ne (side : Side) (hj : j ≠ i) :
    (loadStep side s i dataKey event).pc j = s.pc j := by
  simp only [loadStep]
  split
  · split
    · exact setPc_pc_ne _ _ hj
    · exact setPc_pc_ne _ _ hj
    · exact setPc_pc_ne _ _ hj
  · exact setPc_pc_ne _ _ hj
  · exact setPc_pc_ne _ _ hj
  · exact setPc_pc_ne _ _ hj
  · rfl

/-- Loading into the own history keeps the object out of the others. -/
theorem onlyMade_load (honly : OnlyMade s i) :
    OnlyMade (s.setHist (.made i) ((s.heap (.made i)).loadEvent ⟨some i, event⟩ true))
      i := by
  intro h hh
  rw [countIn_setHist_load, honly h hh, if_neg (fun hc => hh hc.1)]

theorem loadStep_ownWork (hw : ∀ j, OwnWork s j) (j : ι) :
    OwnWork (loadStep .server s i dataKey event) j := by
  by_cases hj : j = i
  · subst hj
    have hwj := hw j
    simp only [OwnWork] at hwj ⊢
    cases hp : s.pc j with
    | start =>
        rw [hp] at hwj
        cases hm : s.map dataKey.getKey with
        | some h =>
            simp only [loadStep, hp, hm, setPc_pc_self]
        | none =>
            simp only [loadStep, hp, hm, setPc_pc_self]
            exact ⟨trivial, hwj⟩
    | holding h maiden =>
        rw [hp] at hwj
        cases maiden with
        | false => simp [loadStep, hp]
        | true =>
            obtain ⟨hh, habsent⟩ := hwj
            subst hh
            simp only [loadStep, hp, if_true, setPc_pc_self]
            exact ⟨trivial, onlyMade_load (fun h _ => habsent h)⟩
    | adding h => simp only [loadStep, hp, setPc_pc_self]
    | rereading h => simp only [loadStep, hp, setPc_pc_self]
    | testing h => simp only [loadStep, hp]
    | dropping => simp only [loadStep, hp]
    | chaining h => simp only [loadStep, hp]
    | done => simp only [loadStep, hp]
  · have hwj := hw j
    simp only [OwnWork, OnlyMade] at hwj ⊢
    rw [loadStep_pc_ne .server hj]
    simp only [loadStep_countIn_ne .server hj]
    exact hwj

theorem loadStep_apart (ha : Apart s j) :
    Apart (loadStep .server s i dataKey event) j := by
  by_cases hj : j = i
  · subst hj
    obtain ⟨honly, hpc⟩ := ha
    cases hp : s.pc j with
    | start => rw [hp] at hpc; exact hpc.elim
    | holding h maiden =>
        rw [hp] at hpc
        obtain ⟨hm, hh⟩ := hpc
        subst hm hh
        simp only [loadStep, hp, if_true]
        refine ⟨onlyMade_load honly, ?_⟩
        rw [setPc_pc_self]
    | adding h =>
        simp only [loadStep, hp]
        refine ⟨honly, ?_⟩
        rw [setPc_pc_self]
        trivial
    | rereading h =>
        simp only [loadStep, hp]
        refine ⟨honly, ?_⟩
        rw [setPc_pc_self]
        trivial
    | testing h => simp only [loadStep, hp]; exact ⟨honly, by rw [hp]; trivial⟩
    | dropping => simp only [loadStep, hp]; exact ⟨honly, by rw [hp]; trivial⟩
    | chaining h => simp only [loadStep, hp]; exact ⟨honly, by rw [hp]; trivial⟩
    | done => simp only [loadStep, hp]; exact ⟨honly, by rw [hp]; trivial⟩
  · simp only [Apart, OnlyMade] at ha ⊢
    rw [loadStep_pc_ne .server hj]
    simp only [loadStep_countIn_ne .server hj]
    exact ha

/-- A load about to insert works apart. -/
theorem apart_of_maiden (hw : OwnWork s j) (hm : Maiden s j) : Apart s j := by
  simp only [OwnWork] at hw
  simp only [Maiden] at hm
  cases hp : s.pc j with
  | holding h maiden =>
      rw [hp] at hw hm
      cases hm
      exact ⟨fun h' _ => hw.2 h', by rw [hp]; exact ⟨rfl, hw.1⟩⟩
  | adding h =>
      rw [hp] at hw
      exact ⟨hw.2, by rw [hp]; exact hw.1⟩
  | start => rw [hp] at hm; exact nomatch hm
  | rereading h => rw [hp] at hm; exact nomatch hm
  | testing h => rw [hp] at hm; exact nomatch hm
  | dropping => rw [hp] at hm; exact nomatch hm
  | chaining h => rw [hp] at hm; exact nomatch hm
  | done => rw [hp] at hm; exact nomatch hm

end Apart

/-! ## Runs of loads -/

variable [MockEventLike E]

/-- Calls that all load, each under its key. -/
def loadsOf (loads : ι → DataKey × E) : ι → Call E :=
  fun i => .loadEvent (loads i).1 (loads i).2

/-- Every loaded event is once in the history under its key. -/
def EveryLoadedOnce (loads : ι → DataKey × E) (s : State ι E) : Prop :=
  ∀ i, ∃ h, s.map (loads i).1.getKey = some h ∧ countIn s h i = 1
    ∧ (⟨some i, (loads i).2⟩ : Slot ι E) ∈ (s.heap h).events

omit [MockEventLike E] in
/-- A finished run that kept its loads has every event once: without removals
    nothing is selected. -/
theorem everyLoadedOnce_of_kept {side : Side} {loads : ι → DataKey × E} {s : State ι E}
    (hk : Kept side (loadsOf loads) s) (ht : Tagged (loadsOf loads) s)
    (hsel : s.selected = []) (hfin : Finished s) : EveryLoadedOnce loads s := by
  intro i
  have hok := hk.load i _ _ rfl
  simp only [LoadOk] at hok
  rw [hfin i] at hok
  rcases hok with h1 | ⟨h, hm, h1⟩
  · rw [hsel] at h1
    exact nomatch h1
  · exact ⟨h, hm, h1, mem_of_countIn ht rfl h1⟩

theorem step_loadsOf (side : Side) (loads : ι → DataKey × E) (s : State ι E) (i : ι) :
    step side (loadsOf loads) s i = loadStep side s i (loads i).1 (loads i).2 := rfl

omit [MockEventLike E] in
theorem loadStep_selected (side : Side) (s : State ι E) (i : ι) (dataKey : DataKey)
    (event : E) : (loadStep side s i dataKey event).selected = s.selected := by
  simp only [loadStep]
  split
  · split
    · rfl
    · rfl
    · rfl
  · rfl
  · rfl
  · rfl
  · rfl

/-- What every run of loads without overlapping first loads keeps. -/
theorem run_kept (side : Side) (loads : ι → DataKey × E) (m : MockData E)
    (schedule : List ι)
    (halone : AllSteps (step side (loadsOf loads)) (MaidenAlone side (loadsOf loads))
      (State.ofStore (loadsOf loads) m) schedule) :
    let s := run (step side (loadsOf loads)) (State.ofStore (loadsOf loads) m) schedule
    Kept side (loadsOf loads) s ∧ Tagged (loadsOf loads) s ∧ s.selected = [] := by
  refine run_invariant_of (C := MaidenAlone side (loadsOf loads))
    (I := fun s => Kept side (loadsOf loads) s ∧ Tagged (loadsOf loads) s
      ∧ s.selected = []) ?_ schedule _
    ⟨kept_ofStore side _ m, tagged_ofStore _ m, rfl⟩ halone
  rintro s i ⟨hk, ht, hsel⟩ ha
  refine ⟨loadStep_kept hk rfl ha, step_tagged ht i, ?_⟩
  rw [step_loadsOf, loadStep_selected, hsel]

omit [DecidableEq ι] [MockEventLike E] in
/-- Client loads never make a history outside the lock of the map. -/
theorem maidenAlone_client (calls : ι → Call E) (s : State ι E) (i : ι) :
    MaidenAlone .client calls s i := by
  intro dk e _ hs
  exact nomatch hs

theorem allSteps_client (loads : ι → DataKey × E) (schedule : List ι) (s : State ι E) :
    AllSteps (step .client (loadsOf loads)) (MaidenAlone .client (loadsOf loads)) s
      schedule := by
  induction schedule generalizing s with
  | nil => exact True.intro
  | cons i is ih => exact ⟨maidenAlone_client _ s i, ih _⟩

omit [MockEventLike E] in
/-- Two loads of one key that both made a history: at most one history is under
    the key, so the other event is not. -/
theorem not_everyLoadedOnce_of_apart {loads : ι → DataKey × E} {s : State ι E} {i j : ι}
    (hij : j ≠ i) (hkey : (loads j).1.getKey = (loads i).1.getKey)
    (hi : Apart s i) (hj : Apart s j) : ¬ EveryLoadedOnce loads s := by
  intro hall
  -- a history that holds the object of a load apart is the one it made
  have hown : ∀ {x : ι} {h : Hist ι}, Apart s x → countIn s h x = 1 → h = .made x := by
    intro x h hx h1
    by_cases hh : h = .made x
    · exact hh
    · rw [hx.1 h hh] at h1
      exact nomatch h1
  obtain ⟨h, hm, h1, _⟩ := hall i
  obtain ⟨h', hm', h1', _⟩ := hall j
  rw [hkey, hm] at hm'
  have hhh : h = h' := Option.some.inj hm'
  rw [← hhh] at h1'
  have heq : (Hist.made i : Hist ι) = .made j := (hown hi h1).symm.trans (hown hj h1')
  exact hij (Hist.made.inj heq).symm

/-- A first load that overlaps another one loses an event of the run. -/
theorem lost_of_overlap {loads : ι → DataKey × E} {s : State ι E} {i : ι}
    (hw : ∀ j, OwnWork s j) (hbad : ¬ MaidenAlone .server (loadsOf loads) s i)
    (post : List ι) :
    ¬ EveryLoadedOnce loads (run (step .server (loadsOf loads)) s (i :: post)) := by
  -- the two overlapping calls
  have hex : s.pc i = .start ∧ s.map (loads i).1.getKey = none ∧
      ∃ j, j ≠ i ∧ (loads j).1.getKey = (loads i).1.getKey ∧ Maiden s j := by
    by_contra hno
    refine hbad ?_
    intro dk e hc _ hp hm j hj hjk hjm
    cases hc
    exact hno ⟨hp, hm, j, hj, hjk, hjm⟩
  obtain ⟨hp, hm, j, hj, hkey, hjm⟩ := hex
  have hi1 : Apart (step .server (loadsOf loads) s i) i := by
    rw [step_loadsOf]
    have hwi := hw i
    simp only [OwnWork] at hwi
    rw [hp] at hwi
    simp only [loadStep, hp, hm]
    refine ⟨fun h _ => hwi h, ?_⟩
    rw [setPc_pc_self]
    exact ⟨rfl, rfl⟩
  have hj1 : Apart (step .server (loadsOf loads) s i) j :=
    loadStep_apart (apart_of_maiden (hw j) hjm)
  have hstep : ∀ s x, Apart s i ∧ Apart s j →
      Apart (step .server (loadsOf loads) s x) i
        ∧ Apart (step .server (loadsOf loads) s x) j :=
    fun _ _ h => ⟨loadStep_apart h.1, loadStep_apart h.2⟩
  have hend := run_invariant hstep post _ ⟨hi1, hj1⟩
  exact not_everyLoadedOnce_of_apart hj hkey hend.1 hend.2

omit [MockEventLike E] in
theorem ownWork_ofStore (loads : ι → DataKey × E) (m : MockData E) (j : ι) :
    OwnWork (State.ofStore (loadsOf loads) m) j :=
  (kept_ofStore .server (loadsOf loads) m).load j _ _ rfl

/-- **CONCURRENT LOADS**: from any store, a complete run of server loads has
    every event once under its key exactly when no load missed its key while
    another call was about to insert a history for it; a complete run of
    client loads always has. -/
theorem concurrent_loads_kept (loads : ι → DataKey × E) (m : MockData E)
    (schedule : List ι) :
    let server := run (step .server (loadsOf loads)) (State.ofStore (loadsOf loads) m)
      schedule
    let client := run (step .client (loadsOf loads)) (State.ofStore (loadsOf loads) m)
      schedule
    (Finished server →
      (EveryLoadedOnce loads server ↔
        AllSteps (step .server (loadsOf loads)) (MaidenAlone .server (loadsOf loads))
          (State.ofStore (loadsOf loads) m) schedule))
      ∧ (Finished client → EveryLoadedOnce loads client) := by
  intro server client
  refine ⟨?_, ?_⟩
  · intro hfin
    refine ⟨?_, ?_⟩
    · intro hall
      by_contra hbad
      obtain ⟨pre, i, post, hsched, hi⟩ := exists_of_not_allSteps hbad
      have hstep : ∀ s x, (∀ j, OwnWork s j) →
          ∀ j, OwnWork (step .server (loadsOf loads) s x) j :=
        fun _ _ h => loadStep_ownWork h
      have hw := run_invariant hstep pre _ (ownWork_ofStore loads m)
      have hlost := lost_of_overlap hw hi post
      rw [← run_append, ← hsched] at hlost
      exact hlost hall
    · intro halone
      obtain ⟨hk, ht, hsel⟩ := run_kept .server loads m schedule halone
      exact everyLoadedOnce_of_kept hk ht hsel hfin
  · intro hfin
    obtain ⟨hk, ht, hsel⟩ :=
      run_kept .client loads m schedule (allSteps_client loads schedule _)
    exact everyLoadedOnce_of_kept hk ht hsel hfin

/-- Two receptions of `GET /a`, each with its own event. -/
def twoLoads : Bool → DataKey × (String × Nat)
  | false => (DataKey.ofServer "GET" "/a", ("initial", 1))
  | true => (DataKey.ofServer "GET" "/a", ("initial", 2))

/-- One load after the other: a complete run of server loads in which no first
    load overlaps another. -/
theorem two_loads_in_turn :
    Finished (run (step .server (loadsOf twoLoads))
        (State.ofStore (loadsOf twoLoads) ∅)
        [false, false, false, false, true, true, true])
      ∧ (EveryLoadedOnce twoLoads (run (step .server (loadsOf twoLoads))
          (State.ofStore (loadsOf twoLoads) ∅)
          [false, false, false, false, true, true, true])
        ↔ AllSteps (step .server (loadsOf twoLoads))
          (MaidenAlone .server (loadsOf twoLoads)) (State.ofStore (loadsOf twoLoads) ∅)
          [false, false, false, false, true, true, true]) := by
  have hfin : Finished (run (step .server (loadsOf twoLoads))
      (State.ofStore (loadsOf twoLoads) ∅)
      [false, false, false, false, true, true, true]) := by
    intro i
    cases i with
    | false => decide
    | true => decide
  exact ⟨hfin, (concurrent_loads_kept twoLoads ∅ _).1 hfin⟩

/-- Both loads miss the key before either inserts its history: the second
    insertion replaces the first, and the first event is gone. -/
theorem overlapping_first_loads_lose_one :
    ¬ ∀ (loads : Bool → DataKey × (String × Nat)) (m : MockData (String × Nat))
        (schedule : List Bool),
        Finished (run (step .server (loadsOf loads)) (State.ofStore (loadsOf loads) m)
          schedule) →
        EveryLoadedOnce loads (run (step .server (loadsOf loads))
          (State.ofStore (loadsOf loads) m) schedule) := by
  intro hall
  have hlaw := hall twoLoads ∅ [false, true, false, false, false, true, true, true]
    (by
      intro i
      cases i with
      | false => decide
      | true => decide)
  obtain ⟨h, hm, h1, _⟩ := hlaw false
  have hmap : (run (step .server (loadsOf twoLoads)) (State.ofStore (loadsOf twoLoads) ∅)
      [false, true, false, false, false, true, true, true]).map
        (twoLoads false).1.getKey = some (.made true) := by decide
  rw [hmap] at hm
  rw [← Option.some.inj hm] at h1
  exact absurd h1 (by decide)

end H2Interleaving
