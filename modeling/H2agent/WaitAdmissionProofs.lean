import Mathlib.Data.Set.Card
import H2agent.VaultWaitProofs

/-! # Admission and status of a wait

    A call of `waitForVault` that finds the limit of the waiters reached is turned away;
    this and a timeout return the same.  `receiveGET` tells them apart afterwards: it reads
    the counter again, without the mutex, and answers 429 when the limit is reached then.

    The machine of `H2Wait` is extended by the answers.  Two more fields remember what
    nobody in the source does: which calls were turned away, and where the counter stood
    when a call returned.

    * `step_kept`: the counter is the number of the calls that wait, and within the limit;
    * `answered_right_iff`: the answers of a run are right exactly when the counter is on
      the same side of the limit at an answer as when the call returned. -/

namespace H2Wait

open H2Convert H2Key JsonValue StepRun

variable {ι ω : Type}

/-- The call is between the increment and the decrement of the counter. -/
def WaiterPc.waits : WaiterPc → Bool
  | .evaluating _ _ | .deciding _ | .blocked _ | .woken _ _ => true
  | .start | .entered | .done _ => false

/-- The call has returned. -/
def WaiterPc.returned : WaiterPc → Bool
  | .done _ => true
  | _ => false

theorem returned_iff {pc : WaiterPc} : pc.returned = true ↔ ∃ met, pc = .done met := by
  constructor
  · intro h
    cases pc with
    | done met => exact ⟨met, rfl⟩
    | start | entered | evaluating | deciding | blocked | woken => cases h
  · rintro ⟨met, rfl⟩
    rfl

/-- The same as far as the counter and the result are concerned. -/
def SameStage (pc pc' : WaiterPc) : Prop :=
  pc'.waits = pc.waits ∧ ∀ met, pc' = .done met ↔ pc = .done met

theorem SameStage.refl (pc : WaiterPc) : SameStage pc pc := ⟨rfl, fun _ => Iff.rfl⟩

/-- Two stages of a call that waits. -/
theorem sameStage_of_waits {pc pc' : WaiterPc} (h : pc.waits = true) (h' : pc'.waits = true) :
    SameStage pc pc' := by
  refine ⟨h'.trans h.symm, fun met => ⟨?_, ?_⟩⟩
  · rintro rfl
    cases h'
  · rintro rfl
    cases h

/-- With the mutex the call has not come further. -/
theorem sameStage_entered : SameStage .start .entered := by
  refine ⟨rfl, fun met => ⟨fun h => ?_, fun h => ?_⟩⟩
  · cases h
  · cases h

/-! ## What a step does to the counter -/

namespace State

/-- `WaitManager::isFull`. -/
def isFull (s : State ι ω) : Bool := decide (s.activeWaiters ≥ maxWaiters)

/-- The calls that wait. -/
def waiting (s : State ι ω) : Set ι := {i | (s.waiter i).waits = true}

theorem not_waiting_of_entered {s : State ι ω} {i : ι} (hpc : s.waiter i = .entered) :
    i ∉ s.waiting := by
  intro h
  rw [waiting, Set.mem_ofPred_eq, hpc] at h
  cases h

theorem isFull_iff {s : State ι ω} : s.isFull = true ↔ maxWaiters ≤ s.activeWaiters :=
  decide_eq_true_iff

/-- A wake-up changes no stage. -/
theorem sameStage_notifyAll (s : State ι ω) (i : ι) :
    SameStage (s.waiter i) (s.notifyAll.waiter i) := by
  simp only [notifyAll]
  split
  · next previousValue hpc =>
      rw [hpc]
      exact sameStage_of_waits rfl rfl
  · exact .refl _

variable [DecidableEq ι]

/-- The call is turned away at its admission. -/
def turnsAway (s : State ι ω) : Act ι ω → ι → Bool
  | .enter j, i =>
      match s.waiter i with
      | .entered => decide (j = i) && s.isFull
      | _ => false
  | _, _ => false

/-- A call returns at its admission, is admitted, returns from its wait, or the step is
    none of these. -/
inductive Effect (s t : State ι ω) : Act ι ω → Prop where
  | returned (i : ι) (met : Bool) (hpc : s.waiter i = .entered)
      (hmet : maxWaiters ≤ s.activeWaiters → met = false)
      (hwaiter : t.waiter = Function.update s.waiter i (.done met))
      (hcount : t.activeWaiters = s.activeWaiters) : Effect s t (.enter i)
  | admitted (i : ι) (pc : WaiterPc) (hpc : s.waiter i = .entered) (hwaits : pc.waits = true)
      (hroom : s.activeWaiters < maxWaiters)
      (hwaiter : t.waiter = Function.update s.waiter i pc)
      (hcount : t.activeWaiters = s.activeWaiters + 1) : Effect s t (.enter i)
  | departed (i : ι) (met : Bool) (hpc : (s.waiter i).waits = true)
      (hwaiter : t.waiter = Function.update s.waiter i (.done met))
      (hcount : t.activeWaiters = s.activeWaiters - 1) : Effect s t (.evaluate i)
  | silent (a : Act ι ω) (hturned : ∀ i, s.turnsAway a i = false)
      (hstage : ∀ i, SameStage (s.waiter i) (t.waiter i))
      (hcount : t.activeWaiters = s.activeWaiters) : Effect s t a

theorem Effect.refl (s : State ι ω) {a : Act ι ω} (h : ∀ i, s.turnsAway a i = false) :
    Effect s s a :=
  .silent a h (fun _ => .refl _) rfl

/-- One waiter goes from one stage to another. -/
theorem Effect.move {s t : State ι ω} {a : Act ι ω} {i : ι} {pc : WaiterPc}
    (hturned : ∀ i, s.turnsAway a i = false) (hpc : SameStage (s.waiter i) pc)
    (hwaiter : t.waiter = Function.update s.waiter i pc)
    (hcount : t.activeWaiters = s.activeWaiters) : Effect s t a := by
  refine .silent a hturned (fun j => ?_) hcount
  rw [hwaiter]
  by_cases hji : j = i
  · rw [hji, Function.update_self]
    exact hpc
  · rw [Function.update_of_ne hji]
    exact .refl _

theorem enter_effect {s : State ι ω} {waits : ι → Wait} {i : ι} (hpc : s.waiter i = .entered) :
    Effect s (s.enter waits i) (.enter i) := by
  simp only [enter]
  split
  · exact .returned i false hpc (fun _ => rfl) rfl rfl
  · next hroom =>
      have hroom : s.activeWaiters < maxWaiters := Nat.lt_of_not_le hroom
      split
      · exact .returned i false hpc (fun _ => rfl) rfl rfl
      · split
        · exact .returned i true hpc (fun h => absurd hroom (Nat.not_lt_of_le h)) rfl rfl
        · exact .admitted i _ hpc rfl hroom rfl rfl

theorem evaluate_effect {s : State ι ω} {waits : ι → Wait} {i : ι} {previousValue : Json}
    {final : Bool} (hpc : s.waiter i = .evaluating previousValue final) :
    Effect s (s.evaluate waits i previousValue final) (.evaluate i) := by
  have hwaits : (s.waiter i).waits = true := by
    rw [hpc]
    rfl
  simp only [evaluate]
  split
  · exact .departed i _ hwaits rfl rfl
  · split
    · exact .departed i _ hwaits rfl rfl
    · exact .move (fun _ => rfl) (sameStage_of_waits hwaits rfl) rfl rfl

/-! ## The calls that wait -/

variable {s t : State ι ω} {a : Act ι ω} {i : ι}

theorem waiting_of_waits {pc : WaiterPc} (hwaiter : t.waiter = Function.update s.waiter i pc)
    (hpc : pc.waits = true) : t.waiting = insert i s.waiting := by
  ext j
  simp only [waiting, hwaiter, Set.mem_ofPred_eq, Set.mem_insert_iff]
  by_cases hji : j = i
  · rw [hji, Function.update_self]
    exact ⟨fun _ => .inl rfl, fun _ => hpc⟩
  · rw [Function.update_of_ne hji]
    exact ⟨.inr, fun h => h.resolve_left hji⟩

theorem waiting_of_done {met : Bool}
    (hwaiter : t.waiter = Function.update s.waiter i (.done met)) :
    t.waiting = s.waiting \ {i} := by
  ext j
  simp only [waiting, hwaiter, Set.mem_ofPred_eq, Set.mem_sdiff, Set.mem_singleton_iff]
  by_cases hji : j = i
  · rw [hji, Function.update_self]
    exact ⟨fun h => (by cases h), fun h => absurd rfl h.2⟩
  · rw [Function.update_of_ne hji]
    exact ⟨fun h => ⟨h, hji⟩, And.left⟩

/-- The counter stays the number of the calls that wait. -/
theorem Effect.counted (h : Effect s t a) (hcounted : s.waiting.encard = s.activeWaiters) :
    t.waiting.encard = t.activeWaiters := by
  cases h with
  | returned i met hpc hmet hwaiter hcount =>
      rw [waiting_of_done hwaiter, Set.sdiff_singleton_eq_self (not_waiting_of_entered hpc), hcount]
      exact hcounted
  | admitted i pc hpc hwaits hroom hwaiter hcount =>
      rw [waiting_of_waits hwaiter hwaits, hcount,
        Set.encard_insert_of_notMem (not_waiting_of_entered hpc), hcounted]
      rfl
  | departed i met hpc hwaiter hcount =>
      have hmem : i ∈ s.waiting := hpc
      rw [waiting_of_done hwaiter, hcount, Set.encard_sdiff_singleton_of_mem hmem, hcounted]
      rfl
  | silent a hturned hstage hcount =>
      have hwaiting : t.waiting = s.waiting := by
        ext i
        simp only [waiting, Set.mem_ofPred_eq, (hstage i).1]
      rw [hwaiting, hcount]
      exact hcounted

/-- And within the limit. -/
theorem Effect.bounded (h : Effect s t a) (hbounded : s.activeWaiters ≤ maxWaiters) :
    t.activeWaiters ≤ maxWaiters := by
  cases h with
  | returned i met hpc hmet hwaiter hcount => omega
  | admitted i pc hpc hwaits hroom hwaiter hcount => omega
  | departed i met hpc hwaiter hcount => omega
  | silent a hturned hstage hcount => omega

/-! ## The calls that have returned -/

theorem turnsAway_iff :
    s.turnsAway a i = true ↔
      a = .enter i ∧ s.waiter i = .entered ∧ maxWaiters ≤ s.activeWaiters := by
  constructor
  · intro h
    cases a with
    | enter j =>
        simp only [turnsAway] at h
        split at h
        · next hpc =>
            obtain ⟨hji, hfull⟩ := Bool.and_eq_true_iff.mp h
            rw [of_decide_eq_true hji]
            exact ⟨rfl, hpc, isFull_iff.mp hfull⟩
        · cases h
    | lock | evaluate | block | timeout | spurious | relock | store | notify | shutdown => cases h
  · rintro ⟨rfl, hpc, hfull⟩
    simp only [turnsAway, hpc, isFull_iff.mpr hfull, decide_true, Bool.and_self]

/-- Who has returned stays so. -/
theorem Effect.done (h : Effect s t a) {met : Bool} (hdone : s.waiter i = .done met) :
    t.waiter i = .done met := by
  -- the call that moves is another one
  have hkept : ∀ j pc, s.waiter j ≠ .done met → t.waiter = Function.update s.waiter j pc →
      t.waiter i = .done met := by
    intro j pc hj hwaiter
    have hij : i ≠ j := by
      rintro rfl
      exact hj hdone
    rw [hwaiter, Function.update_of_ne hij, hdone]
  cases h with
  | returned j _ hpc _ hwaiter hcount =>
      refine hkept j _ (fun hj => ?_) hwaiter
      rw [hj] at hpc
      cases hpc
  | admitted j pc hpc _ _ hwaiter hcount =>
      refine hkept j _ (fun hj => ?_) hwaiter
      rw [hj] at hpc
      cases hpc
  | departed j _ hpc hwaiter hcount =>
      refine hkept j _ (fun hj => ?_) hwaiter
      rw [hj] at hpc
      cases hpc
  | silent a hturned hstage hcount => exact ((hstage i).2 met).mpr hdone

/-- A call turned away returns. -/
theorem Effect.turnedAway (h : Effect s t a) (haway : s.turnsAway a i = true) :
    t.waiter i = .done false := by
  obtain ⟨rfl, -, hfull⟩ := turnsAway_iff.mp haway
  cases h with
  | returned j met hpc hmet hwaiter hcount => rw [hwaiter, Function.update_self, hmet hfull]
  | admitted j pc hpc hwaits hroom hwaiter hcount => exact absurd hroom (Nat.not_lt_of_le hfull)
  | silent a hturned hstage hcount =>
      rw [hturned i] at haway
      cases haway

/-- A call that returns finds the limit reached exactly when it is turned away. -/
theorem Effect.away_iff (h : Effect s t a) (hbounded : s.activeWaiters ≤ maxWaiters)
    (hnew : (s.waiter i).returned = false) (hdone : t.waiter i = .done false) :
    s.turnsAway a i = true ↔ maxWaiters ≤ t.activeWaiters := by
  -- only a call that stood still before the step could be done already
  have hmoved : ∀ j pc, t.waiter = Function.update s.waiter j pc → i = j := by
    intro j pc hwaiter
    by_contra hij
    rw [hwaiter, Function.update_of_ne hij] at hdone
    rw [hdone] at hnew
    cases hnew
  cases h with
  | returned j met hpc hmet hwaiter hcount =>
      obtain rfl := hmoved j _ hwaiter
      rw [turnsAway_iff, hcount]
      exact ⟨fun h => h.2.2, fun h => ⟨rfl, hpc, h⟩⟩
  | admitted j pc hpc hwaits hroom hwaiter hcount =>
      obtain rfl := hmoved j _ hwaiter
      rw [hwaiter, Function.update_self] at hdone
      rw [hdone] at hwaits
      cases hwaits
  | departed j met hpc hwaiter hcount =>
      -- a call that waited leaves room behind it
      have hroom : ¬ maxWaiters ≤ t.activeWaiters := by
        have hpos : 0 < maxWaiters := by decide
        omega
      exact ⟨fun h => (by cases h), fun h => absurd h hroom⟩
  | silent a hturned hstage hcount =>
      rw [((hstage i).2 false).mp hdone] at hnew
      cases hnew

/-! ## One step -/

variable [DecidableEq ω]

/-- **WHAT A STEP CAN DO** to the counter and to the calls that wait. -/
theorem step_effect (s : State ι ω) (waits : ι → Wait) (writes : ω → Write) (a : Act ι ω) :
    Effect s (s.step waits writes a) a := by
  cases a with
  | lock i =>
      simp only [step]
      split
      · next hpc _ =>
          have hstage : SameStage (s.waiter i) .entered := by
            rw [hpc]
            exact sameStage_entered
          exact .move (fun _ => rfl) hstage rfl rfl
      · exact .refl s (fun _ => rfl)
  | enter i =>
      simp only [step]
      split
      · next hpc => exact enter_effect hpc
      · next hpc =>
          refine .refl s fun j => ?_
          simp only [turnsAway]
          split
          · next hj =>
              have hij : ¬ i = j := fun h => hpc (h ▸ hj)
              rw [decide_eq_false hij]
              rfl
          · rfl
  | evaluate i =>
      simp only [step]
      split
      · next hpc => exact evaluate_effect hpc
      · exact .refl s (fun _ => rfl)
  | block i =>
      simp only [step]
      split
      · next hpc =>
          refine .move (fun _ => rfl) (sameStage_of_waits ?_ rfl) rfl rfl
          rw [hpc]
          rfl
      · exact .refl s (fun _ => rfl)
  | timeout i =>
      simp only [step]
      split
      · next hpc =>
          refine .move (fun _ => rfl) (sameStage_of_waits ?_ rfl) rfl rfl
          rw [hpc]
          rfl
      · exact .refl s (fun _ => rfl)
  | spurious i =>
      simp only [step]
      split
      · next hpc =>
          refine .move (fun _ => rfl) (sameStage_of_waits ?_ rfl) rfl rfl
          rw [hpc]
          rfl
      · exact .refl s (fun _ => rfl)
  | relock i =>
      simp only [step]
      split
      · next hpc _ =>
          refine .move (fun _ => rfl) (sameStage_of_waits ?_ rfl) rfl rfl
          rw [hpc]
          rfl
      · exact .refl s (fun _ => rfl)
  | store w =>
      simp only [step]
      split
      · exact .silent _ (fun _ => rfl) (fun _ => .refl _) rfl
      · exact .refl s (fun _ => rfl)
  | notify w =>
      simp only [step]
      split
      · exact .silent _ (fun _ => rfl) (sameStage_notifyAll s) rfl
      · exact .refl s (fun _ => rfl)
  | shutdown =>
      simp only [step]
      split
      · exact .silent _ (fun _ => rfl) (sameStage_notifyAll s) rfl
      · exact .refl s (fun _ => rfl)

end State

/-! ## The answers -/

/-- The wait manager and its callers.  `rejected` are the calls turned away at their
    admission; `left` is where the counter stood when the call returned, and where it stands
    while the call has not returned. -/
structure Service (ι ω : Type) where
  base : State ι ω
  rejected : ι → Bool
  left : ι → Nat
  status : ι → Option Nat

/-- A step of the wait manager, or the answer to a call that has returned. -/
inductive Event (ι ω : Type) where
  | wait (a : Act ι ω)
  | answer (i : ι)

/-- The status of the answer. -/
def statusCode (s : State ι ω) (met : Bool) : Nat :=
  if !met && s.isFull then 429 else if met then 200 else 408

namespace Service

/-- No call has begun. -/
def start (vault : Vault) : Service ι ω where
  base := .start vault
  rejected _ := false
  left _ := 0
  status _ := none

/-- 429 is the answer to a call that was turned away, and only to it; any other call that was
    not met is answered 408. -/
def RightAt (s : Service ι ω) (i : ι) (code : Nat) : Prop :=
  (code = 429 ↔ s.rejected i = true)
    ∧ (s.base.waiter i = .done false → s.rejected i = false → code = 408)

/-- The answers given so far are right. -/
def Right (s : Service ι ω) : Prop := ∀ i code, s.status i = some code → s.RightAt i code

/-- When a call that was not met is answered, the counter is on the same side of the limit as
    when the call returned. -/
def KeepsSide (s : Service ι ω) : Event ι ω → Prop
  | .answer i => s.base.waiter i = .done false → s.status i = none →
      (maxWaiters ≤ s.base.activeWaiters ↔ maxWaiters ≤ s.left i)
  | .wait _ => True

/-- What holds in every state. -/
structure Kept (s : Service ι ω) : Prop where
  counted : s.base.waiting.encard = s.base.activeWaiters
  bounded : s.base.activeWaiters ≤ maxWaiters
  left : ∀ i, s.base.waiter i = .done false → (s.rejected i = true ↔ maxWaiters ≤ s.left i)
  rejected : ∀ i, s.rejected i = true → s.base.waiter i = .done false
  answered : ∀ i code, s.status i = some code → ∃ met, s.base.waiter i = .done met

variable {s : Service ι ω}

theorem kept_start (vault : Vault) : (start vault : Service ι ω).Kept where
  counted := by
    have hnobody : (start vault : Service ι ω).base.waiting = ∅ :=
      Set.eq_empty_of_forall_notMem fun _ h => (by cases h)
    rw [hnobody, Set.encard_empty]
    rfl
  bounded := Nat.zero_le _
  left i h := by cases h
  rejected i h := by cases h
  answered i code h := by cases h

/-- The answer to a call is right exactly when the counter has kept its side. -/
theorem answer_right_iff {i : ι} {met : Bool} (hs : s.Kept) (hdone : s.base.waiter i = .done met) :
    s.RightAt i (statusCode s.base met)
      ↔ (s.base.waiter i = .done false →
          (maxWaiters ≤ s.base.activeWaiters ↔ maxWaiters ≤ s.left i)) := by
  cases met with
  | true =>
      have hno : ¬ s.base.waiter i = .done false := by
        rw [hdone]
        intro h
        cases h
      have haway : ¬ s.rejected i = true := fun h => hno (hs.rejected i h)
      have hcode : statusCode s.base true = 200 := rfl
      rw [RightAt, hcode]
      exact ⟨fun _ h => absurd h hno,
        fun _ => ⟨⟨fun h => absurd h (by decide), fun h => absurd h haway⟩, fun h => absurd h hno⟩⟩
  | false =>
      have hleft := hs.left i hdone
      by_cases hfull : s.base.isFull = true
      · have hcode : statusCode s.base false = 429 := if_pos hfull
        rw [RightAt, hcode]
        constructor
        · rintro ⟨hright, -⟩ _
          exact ⟨fun _ => hleft.mp (hright.mp rfl), fun _ => State.isFull_iff.mp hfull⟩
        · intro hside
          have haway : s.rejected i = true :=
            hleft.mpr ((hside hdone).mp (State.isFull_iff.mp hfull))
          refine ⟨⟨fun _ => haway, fun _ => rfl⟩, fun _ hno => ?_⟩
          rw [haway] at hno
          cases hno
      · have hcode : statusCode s.base false = 408 := if_neg hfull
        rw [RightAt, hcode]
        constructor
        · rintro ⟨hright, -⟩ _
          exact ⟨fun h => absurd (State.isFull_iff.mpr h) hfull,
            fun h => absurd (hright.mpr (hleft.mpr h)) (by decide)⟩
        · intro hside
          refine ⟨⟨fun h => absurd h (by decide), fun haway => ?_⟩, fun _ _ => rfl⟩
          exact absurd (State.isFull_iff.mpr ((hside hdone).mpr (hleft.mp haway))) hfull

/-! ### Steps and runs -/

variable [DecidableEq ι] [DecidableEq ω]

/-- One step. -/
def step (waits : ι → Wait) (writes : ω → Write) (s : Service ι ω) : Event ι ω → Service ι ω
  | .wait a =>
      { s with
        base := s.base.step waits writes a
        rejected := fun i => s.rejected i || s.base.turnsAway a i
        left := fun i => if (s.base.waiter i).returned then s.left i
          else (s.base.step waits writes a).activeWaiters }
  | .answer i =>
      match s.base.waiter i, s.status i with
      | .done met, none =>
          { s with status := Function.update s.status i (some (statusCode s.base met)) }
      | _, _ => s

variable {waits : ι → Wait} {writes : ω → Write}

/-- An answer changes nothing but its status. -/
theorem answer_cases (waits : ι → Wait) (writes : ω → Write) (s : Service ι ω) (i : ι) :
    (∃ met, s.base.waiter i = .done met ∧ s.status i = none ∧
      step waits writes s (.answer i) =
        { s with status := Function.update s.status i (some (statusCode s.base met)) })
      ∨ (step waits writes s (.answer i) = s
        ∧ ¬ ∃ met, s.base.waiter i = .done met ∧ s.status i = none) := by
  simp only [step]
  split
  · next met hpc hstatus => exact .inl ⟨met, hpc, hstatus, rfl⟩
  · next hno => exact .inr ⟨rfl, fun ⟨met, hpc, hstatus⟩ => hno met hpc hstatus⟩

/-- What a step of the wait manager leaves of a call that has returned. -/
theorem wait_settled (waits : ι → Wait) (writes : ω → Write) (a : Act ι ω) {i : ι} {met : Bool}
    (hdone : s.base.waiter i = .done met) :
    (step waits writes s (.wait a)).base.waiter i = .done met
      ∧ (step waits writes s (.wait a)).rejected i = s.rejected i
      ∧ (step waits writes s (.wait a)).left i = s.left i := by
  refine ⟨(State.step_effect s.base waits writes a).done hdone, ?_, ?_⟩
  · have hno : s.base.turnsAway a i = false := by
      rw [← Bool.not_eq_true, State.turnsAway_iff, hdone]
      rintro ⟨-, hpc, -⟩
      cases hpc
    simp only [step, hno, Bool.or_false]
  · simp only [step, hdone, WaiterPc.returned, if_true]

/-- **STEP LEMMA**: the counter and what is remembered of the calls. -/
theorem step_kept (hs : s.Kept) (e : Event ι ω) : (step waits writes s e).Kept := by
  cases e with
  | answer i =>
      rcases answer_cases waits writes s i with ⟨met, hpc, -, hstep⟩ | ⟨hstep, -⟩
      · rw [hstep]
        refine ⟨hs.counted, hs.bounded, hs.left, hs.rejected, ?_⟩
        intro j code hj
        by_cases hji : j = i
        · exact ⟨met, by rw [hji]; exact hpc⟩
        · simp only [Function.update_of_ne hji] at hj
          exact hs.answered j code hj
      · rw [hstep]
        exact hs
  | wait a =>
      have heffect := State.step_effect s.base waits writes a
      constructor
      case counted => exact heffect.counted hs.counted
      case bounded => exact heffect.bounded hs.bounded
      case answered =>
        intro i code hi
        obtain ⟨met, hdone⟩ := hs.answered i code hi
        exact ⟨met, (wait_settled waits writes a hdone).1⟩
      case rejected =>
        intro i hi
        rcases Bool.or_eq_true_iff.mp hi with hbefore | haway
        · exact (wait_settled waits writes a (hs.rejected i hbefore)).1
        · exact heffect.turnedAway haway
      case left =>
        intro i hi
        cases hreturned : (s.base.waiter i).returned with
        | true =>
            obtain ⟨met, hdone⟩ := returned_iff.mp hreturned
            obtain ⟨hpc, hrejected, hleft⟩ := wait_settled waits writes a hdone
            rw [hpc] at hi
            rw [hrejected, hleft]
            exact hs.left i (hdone.trans hi)
        | false =>
            have hbefore : s.rejected i = false := by
              rw [← Bool.not_eq_true]
              intro h
              rw [hs.rejected i h] at hreturned
              cases hreturned
            simp only [step, hreturned, hbefore, Bool.false_or]
            exact heffect.away_iff hs.bounded hreturned hi

/-- A step of the wait manager leaves the answers. -/
theorem wait_right_iff (hs : s.Kept) (a : Act ι ω) :
    (step waits writes s (.wait a)).Right ↔ s.Right := by
  have hat : ∀ i code, s.status i = some code →
      ((step waits writes s (.wait a)).RightAt i code ↔ s.RightAt i code) := by
    intro i code hi
    obtain ⟨met, hdone⟩ := hs.answered i code hi
    obtain ⟨hpc, hrejected, -⟩ := wait_settled waits writes a hdone
    rw [RightAt, RightAt, hpc, hrejected, hdone]
  exact ⟨fun h i code hi => (hat i code hi).mp (h i code hi),
    fun h i code hi => (hat i code hi).mpr (h i code hi)⟩

/-- **STEP LEMMA**: a step keeps the answers right exactly when it keeps its side. -/
theorem step_right_iff (hs : s.Kept) (e : Event ι ω) :
    (step waits writes s e).Right ↔ s.Right ∧ s.KeepsSide e := by
  cases e with
  | wait a =>
      rw [wait_right_iff hs a]
      exact (and_iff_left True.intro).symm
  | answer i =>
      rcases answer_cases waits writes s i with ⟨met, hdone, hstatus, hstep⟩ | ⟨hstep, hno⟩
      · have hside : s.KeepsSide (.answer i) ↔ s.RightAt i (statusCode s.base met) := by
          rw [answer_right_iff hs hdone]
          exact ⟨fun h hpc => h hpc hstatus, fun h hpc _ => h hpc⟩
        rw [hside, hstep]
        constructor
        · intro h
          refine ⟨fun j code hj => ?_, h i _ (Function.update_self ..)⟩
          have hji : j ≠ i := by
            rintro rfl
            rw [hstatus] at hj
            cases hj
          exact h j code ((Function.update_of_ne hji ..).trans hj)
        · rintro ⟨hright, hi⟩ j code hj
          by_cases hji : j = i
          · subst hji
            simp only [Function.update_self] at hj
            injection hj with hcode
            rw [← hcode]
            exact hi
          · simp only [Function.update_of_ne hji] at hj
            exact hright j code hj
      · have hside : s.KeepsSide (.answer i) :=
          fun hdone hstatus => (hno ⟨false, hdone, hstatus⟩).elim
        rw [hstep]
        exact (and_iff_left hside).symm

/-- **ADMISSION AND STATUS**: in every state the counter is the number of the calls that wait
    and within the limit; and the answers of a run are right exactly when, each time a call
    that was not met is answered, the counter is on the same side of the limit as when the call
    returned. -/
theorem answered_right_iff (waits : ι → Wait) (writes : ω → Write) (vault : Vault)
    (events : List (Event ι ω)) :
    ((run (step waits writes) (start vault) events).base.waiting.encard
        = (run (step waits writes) (start vault) events).base.activeWaiters
      ∧ (run (step waits writes) (start vault) events).base.activeWaiters ≤ maxWaiters)
    ∧ ((run (step waits writes) (start vault) events).Right
      ↔ AllSteps (step waits writes) KeepsSide (start vault) events) := by
  have hkept := @run_invariant _ _ (step waits writes) Kept (fun s e hs => step_kept hs e) events
    (start vault) (kept_start vault)
  refine ⟨⟨hkept.counted, hkept.bounded⟩, ?_⟩
  rw [run_iff_allSteps (I := Kept) (C := KeepsSide) (fun s e hs => step_kept hs e)
    (fun s e hs => step_right_iff hs e) events (start vault) (kept_start vault)]
  exact and_iff_right fun i code hi => (by cases hi)

end Service

/-- Another call comes and waits. -/
def arrival (i : Nat) : List (Event Nat Unit) :=
  [.wait (.lock i), .wait (.enter i), .wait (.evaluate i), .wait (.block i)]

/-- The call times out and returns. -/
def departure (i : Nat) : List (Event Nat Unit) :=
  [.wait (.timeout i), .wait (.relock i), .wait (.evaluate i)]

/-- A call is admitted and times out; another one takes its place before it is answered. -/
theorem timeout_answered_429 :
    ∃ events : List (Event Nat Unit),
      (run (Service.step (fun _ => ⟨"key", .null⟩) (fun _ => ⟨"key", .null⟩)) (Service.start ∅)
        events).rejected 31 = false
      ∧ (run (Service.step (fun _ => ⟨"key", .null⟩) (fun _ => ⟨"key", .null⟩)) (Service.start ∅)
        events).status 31 = some 429 :=
  ⟨(List.range 32).flatMap arrival ++ departure 31 ++ arrival 32 ++ [.answer 31],
    by decide +kernel, by decide +kernel⟩

end H2Wait
