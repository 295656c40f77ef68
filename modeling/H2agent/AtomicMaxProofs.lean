import Mathlib.Order.Bounds.Basic
import Mathlib.Logic.Function.Basic
import H2agent.StepRunProofs

/-! # A maximum kept by compare-and-exchange

    Any number of callers raise one register to their own value without a lock:
    each reads the register once and then, as long as what it read is below its
    value, tries to exchange it for that value.  The exchange fails when the
    register is no longer what was read, or without any reason; a failed exchange
    reads the register again.

    `Sound` is the invariant, `register_isGreatest` says that in every state a run
    reaches the register is the greatest of its first value and the values of the
    callers that have returned, and `beaten_le_raises` that an exchange is beaten
    at most as often as other callers raised the register. -/

namespace AtomicMax

open StepRun

variable {ι α : Type}

/-- Where a caller is: it has not read the register, it holds what it read last, or
    it has returned. -/
inductive Pc (α : Type) where
  | before
  | holding (prev : α)
  | after

structure State (ι α : Type) where
  register : α
  pc : ι → Pc α

/-- A caller reads the register for the first time, or takes a turn of its loop, in
    which the exchange may fail for no reason. -/
inductive Act (ι : Type) where
  | load (i : ι)
  | turn (i : ι) (spurious : Bool)

def Act.caller : Act ι → ι
  | .load i => i
  | .turn i _ => i

def start (init : α) : State ι α := ⟨init, fun _ => .before⟩

/-! ## Steps -/

section Steps

variable [DecidableEq ι]

def State.setPc (s : State ι α) (i : ι) (pc : Pc α) : State ι α :=
  { s with pc := Function.update s.pc i pc }

@[simp] theorem setPc_register (s : State ι α) (i : ι) (pc : Pc α) :
    (s.setPc i pc).register = s.register := rfl

@[simp] theorem setPc_same (s : State ι α) (i : ι) (pc : Pc α) : (s.setPc i pc).pc i = pc := by
  simp [State.setPc]

theorem setPc_other (s : State ι α) {i j : ι} (pc : Pc α) (h : j ≠ i) :
    (s.setPc i pc).pc j = s.pc j := by
  simp [State.setPc, h]

variable [LinearOrder α] (value : ι → α)

/-- One turn of the loop of a caller that holds `prev`. -/
def turn (s : State ι α) (i : ι) (prev : α) (spurious : Bool) : State ι α :=
  if prev < value i then
    if spurious = false ∧ s.register = prev then { s.setPc i .after with register := value i }
    else s.setPc i (.holding s.register)
  else s.setPc i .after

def step (s : State ι α) : Act ι → State ι α
  | .load i =>
      match s.pc i with
      | .before => s.setPc i (.holding s.register)
      | .holding _ => s
      | .after => s
  | .turn i spurious =>
      match s.pc i with
      | .before => s
      | .holding prev => turn value s i prev spurious
      | .after => s

/-- What a step can do. -/
inductive Effect (s : State ι α) : Act ι → State ι α → Prop where
  | idle (a : Act ι) : Effect s a s
  | read (i : ι) (hpc : s.pc i = .before) :
      Effect s (.load i) (s.setPc i (.holding s.register))
  | raise (i : ι) (prev : α) (hpc : s.pc i = .holding prev) (hlt : prev < value i)
      (hsame : s.register = prev) :
      Effect s (.turn i false) { s.setPc i .after with register := value i }
  | retry (i : ι) (prev : α) (spurious : Bool) (hpc : s.pc i = .holding prev)
      (hlt : prev < value i) (hfail : spurious = true ∨ s.register ≠ prev) :
      Effect s (.turn i spurious) (s.setPc i (.holding s.register))
  | enough (i : ι) (prev : α) (spurious : Bool) (hpc : s.pc i = .holding prev)
      (hle : value i ≤ prev) : Effect s (.turn i spurious) (s.setPc i .after)

theorem step_effect (s : State ι α) (a : Act ι) : Effect value s a (step value s a) := by
  cases a with
  | load i =>
      simp only [step]
      split
      · exact .read i ‹_›
      · exact .idle _
      · exact .idle _
  | turn i spurious =>
      simp only [step]
      split
      · exact .idle _
      · rename_i prev hpc
        simp only [turn]
        split
        · split
          · rename_i hlt hok
            obtain ⟨rfl, hsame⟩ := hok
            exact .raise i prev hpc hlt hsame
          · rename_i hlt hok
            refine .retry i prev spurious hpc hlt ?_
            by_cases hs : s.register = prev
            · exact Or.inl (by simpa [hs] using hok)
            · exact Or.inr hs
        · rename_i hge
          exact .enough i prev spurious hpc (not_lt.mp hge)
      · exact .idle _

end Steps

/-! ## The register -/

section Register

variable [LinearOrder α] (value : ι → α) (init : α)

/-- **The invariant.**  The register is the first value or that of a caller that has
    returned, and not below any of them, nor below what a caller still holds. -/
structure Sound (s : State ι α) : Prop where
  raised : ∀ i, s.pc i = .after → value i ≤ s.register
  held : ∀ i prev, s.pc i = .holding prev → prev ≤ s.register
  init_le : init ≤ s.register
  origin : s.register = init ∨ ∃ i, s.pc i = .after ∧ s.register = value i

theorem sound_start : Sound value init (start init) :=
  ⟨(fun _ h => by cases h), (fun _ _ h => by cases h), le_refl init, Or.inl rfl⟩

variable {value init}

/-- A caller that has not returned is not where the register comes from. -/
theorem Sound.origin_other {s : State ι α} (h : Sound value init s) {i : ι}
    (hi : s.pc i ≠ .after) :
    s.register = init ∨ ∃ j, j ≠ i ∧ s.pc j = .after ∧ s.register = value j := by
  rcases h.origin with hinit | ⟨j, hj, hv⟩
  · exact Or.inl hinit
  · refine Or.inr ⟨j, ?_, hj, hv⟩
    intro hji
    rw [hji] at hj
    exact hi hj

variable [DecidableEq ι]

/-- A caller moves on and the register stays. -/
theorem Sound.setPc {s : State ι α} (h : Sound value init s) {i : ι} {pc : Pc α}
    (hi : s.pc i ≠ .after) (hafter : pc = .after → value i ≤ s.register)
    (hhold : ∀ prev, pc = .holding prev → prev ≤ s.register) : Sound value init (s.setPc i pc) where
  raised j hj := by
    by_cases hji : j = i
    · subst hji
      exact hafter (by simpa using hj)
    · rw [setPc_other s pc hji] at hj
      exact h.raised j hj
  held j prev hj := by
    by_cases hji : j = i
    · subst hji
      exact hhold prev (by simpa using hj)
    · rw [setPc_other s pc hji] at hj
      exact h.held j prev hj
  init_le := h.init_le
  origin := by
    rcases h.origin_other hi with hinit | ⟨j, hji, hj, hv⟩
    · exact Or.inl hinit
    · exact Or.inr ⟨j, by rw [setPc_other s pc hji]; exact hj, hv⟩

/-- A successful exchange puts a greater value into the register. -/
theorem Sound.raise {s : State ι α} (h : Sound value init s) {i : ι} (hlt : s.register < value i) :
    Sound value init { s.setPc i .after with register := value i } where
  raised j hj := by
    by_cases hji : j = i
    · rw [hji]
    · have hj' : s.pc j = .after := (setPc_other s _ hji).symm.trans hj
      exact (h.raised j hj').trans hlt.le
  held j prev hj := by
    by_cases hji : j = i
    · subst hji
      have hafter : Pc.after = Pc.holding prev := (setPc_same s j _).symm.trans hj
      cases hafter
    · have hj' : s.pc j = .holding prev := (setPc_other s _ hji).symm.trans hj
      exact (h.held j prev hj').trans hlt.le
  init_le := h.init_le.trans hlt.le
  origin := Or.inr ⟨i, setPc_same s i _, rfl⟩

/-- **STEP LEMMA**. -/
theorem Sound.effect {s t : State ι α} {a : Act ι} (h : Sound value init s)
    (he : Effect value s a t) : Sound value init t := by
  cases he with
  | idle => exact h
  | read i hpc =>
      refine h.setPc (by rw [hpc]; intro hc; cases hc) (fun hc => by cases hc) ?_
      intro prev hp
      cases hp
      exact le_refl _
  | raise i prev hpc hlt hsame => exact h.raise (by rw [hsame]; exact hlt)
  | retry i prev spurious hpc hlt hfail =>
      refine h.setPc (by rw [hpc]; intro hc; cases hc) (fun hc => by cases hc) ?_
      intro prev' hp
      cases hp
      exact le_refl _
  | enough i prev spurious hpc hle =>
      refine h.setPc (by rw [hpc]; intro hc; cases hc) (fun _ => hle.trans (h.held i prev hpc)) ?_
      intro prev' hp
      cases hp

theorem Sound.step {s : State ι α} (h : Sound value init s) (a : Act ι) :
    Sound value init (step value s a) :=
  h.effect (step_effect value s a)

omit [DecidableEq ι] in
/-- The register is the greatest of the first value and the values of the callers
    that have returned. -/
theorem Sound.isGreatest {s : State ι α} (h : Sound value init s) :
    IsGreatest {x | x = init ∨ ∃ i, s.pc i = .after ∧ x = value i} s.register := by
  refine ⟨h.origin, ?_⟩
  rintro x (rfl | ⟨i, hi, rfl⟩)
  · exact h.init_le
  · exact h.raised i hi

/-- **RUN LEMMA**. -/
theorem register_isGreatest (acts : List (Act ι)) :
    IsGreatest {x | x = init ∨ ∃ i, (run (AtomicMax.step value) (start init) acts).pc i = .after
        ∧ x = value i}
      (run (AtomicMax.step value) (start init) acts).register :=
  Sound.isGreatest (run_invariant (I := Sound value init) (fun _ a h => h.step a) acts _
    (sound_start value init))

end Register

/-! ## How long the loop goes on -/

section Progress

variable [DecidableEq ι] [LinearOrder α] (value : ι → α)

/-- The turns in which the exchange of a caller fails because the register is no longer
    what the caller holds. -/
def beaten (i : ι) (s : State ι α) : Act ι → Bool
  | .load _ => false
  | .turn j _ =>
      match s.pc j with
      | .holding prev => j == i && decide (prev < value i) && decide (s.register ≠ prev)
      | _ => false

/-- The turns in which another caller raises the register. -/
def raisedByOther (i : ι) (s : State ι α) (a : Act ι) : Bool :=
  !(a.caller == i) && decide ((step value s a).register ≠ s.register)

/-- Whether the caller holds something else than the register. -/
def behind (i : ι) (s : State ι α) : Nat :=
  match s.pc i with
  | .holding prev => if s.register = prev then 0 else 1
  | _ => 0

omit [DecidableEq ι] in
theorem behind_le_one (i : ι) (s : State ι α) : behind i s ≤ 1 := by
  unfold behind
  split
  · split <;> omega
  · exact Nat.zero_le 1

/-- The step of another caller leaves a caller where it is. -/
theorem Effect.pc_other {value : ι → α} {s t : State ι α} {a : Act ι} (he : Effect value s a t)
    {i : ι} (h : i ≠ a.caller) : t.pc i = s.pc i := by
  cases he with
  | idle => rfl
  | read j _ => exact setPc_other s _ h
  | raise j _ _ _ _ => exact setPc_other s _ h
  | retry j _ _ _ _ _ => exact setPc_other s _ h
  | enough j _ _ _ _ => exact setPc_other s _ h

/-- It leaves a caller behind only by raising the register. -/
theorem behind_step_other {i : ι} (s : State ι α) (a : Act ι) (h : i ≠ a.caller) :
    behind i (step value s a) ≤ behind i s + if raisedByOther value i s a then 1 else 0 := by
  have hpc : (step value s a).pc i = s.pc i := (step_effect value s a).pc_other h
  by_cases hreg : (step value s a).register = s.register
  · have hsame : behind i (step value s a) = behind i s := by
      simp only [behind, hpc, hreg]
    omega
  · have hraised : raisedByOther value i s a = true := by
      simp [raisedByOther, Ne.symm h, hreg]
    have hle := behind_le_one i (step value s a)
    rw [hraised, if_pos rfl]
    omega

/-- A caller's own step leaves it behind nothing, and is beaten only where the caller
    was behind. -/
theorem behind_step_own (s : State ι α) (a : Act ι) :
    (if beaten value a.caller s a then 1 else 0) + behind a.caller (step value s a)
      ≤ behind a.caller s := by
  cases a with
  | load i =>
      have hcaught : behind i (step value s (.load i)) ≤ behind i s := by
        simp only [step]
        split
        · simp [behind]
        · exact le_refl _
        · exact le_refl _
      simpa [beaten, Act.caller] using hcaught
  | turn i spurious =>
      simp only [Act.caller]
      cases hpc : s.pc i with
      | before => simp [beaten, step, behind, hpc]
      | after => simp [beaten, step, behind, hpc]
      | holding prev =>
          have hnone : behind i (step value s (.turn i spurious)) = 0 := by
            simp only [step, hpc, turn]
            split
            · split
              · simp [behind, State.setPc]
              · simp [behind]
            · simp [behind]
          have hbeaten : (if beaten value i s (.turn i spurious) then 1 else 0) ≤ behind i s := by
            by_cases hsame : s.register = prev
            · simp [beaten, behind, hpc, hsame]
            · simp only [beaten, behind, hpc, hsame]
              split <;> simp
          rw [hnone]
          exact hbeaten

/-- **THE LOOP GOES ON ONLY FOR OTHERS**: in every run, a caller is beaten at most as
    often as other callers raise the register. -/
theorem beaten_le_raises (i : ι) (init : α) (acts : List (Act ι)) :
    countSteps (step value) (beaten value i) (start init) acts
      ≤ countSteps (step value) (raisedByOther value i) (start init) acts := by
  have hstep : ∀ (s : State ι α) (a : Act ι), True →
      (if beaten value i s a then 1 else 0) + behind i (step value s a)
        ≤ behind i s + if raisedByOther value i s a then 1 else 0 := by
    intro s a _
    by_cases h : i = a.caller
    · subst h
      exact (behind_step_own value s a).trans (Nat.le_add_right _ _)
    · have hnot : beaten value i s a = false := by
        cases a with
        | load j => rfl
        | turn j spurious =>
            have hji : (j == i) = false := by simpa [Act.caller] using Ne.symm h
            simp only [beaten, hji, Bool.false_and]
            split <;> rfl
      have hother := behind_step_other value s a h
      rw [hnot]
      simpa using hother
  have hcount := countSteps_le_of_debt (I := fun _ => True) (fun _ _ _ => True.intro) hstep acts
    (start init) True.intro
  have hstart : behind i (start init : State ι α) = 0 := rfl
  omega

end Progress

end AtomicMax
