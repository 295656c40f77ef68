import Mathlib.Data.List.Forall2

/-! # Runs of a step function, and what holds along them

    A system is a step function `σ → α → σ`; a run folds it over a schedule.
    This file packages the inductions every result about runs needs once:

    * `run_invariant` — an invariant kept by every step is kept by every run;
    * `AllSteps` / `run_invariant_of` — the same when the steps of the run all
      meet a condition on the state they start from;
    * `run_iff_allSteps` — a property that a step keeps exactly when it meets the
      condition;
    * `run_latch` — what the last step that set or cleared a property decided;
    * `countSteps` — how often a run takes steps of a kind, by a measure that counts
      them or by a debt that they use up;
    * `runUntil` / `runUntil_invariant_of` — the same for steps that can fail;
    * `outputs_refine` — a machine with outputs refines another one through an
      abstraction function as soon as it does so one operation at a time;
    * `observed_isolated` — what is seen of some inputs does not depend on the
      others as soon as no single step makes it depend on them.

    Nothing here is about a particular system. -/

namespace StepRun

variable {σ τ α ω : Type}

/-- Fold the step function over a schedule. -/
def run (step : σ → α → σ) : σ → List α → σ
  | s, [] => s
  | s, a :: as => run step (step s a) as

/-- Every step of the run meets `C` in the state it is taken from. -/
def AllSteps (step : σ → α → σ) (C : σ → α → Prop) : σ → List α → Prop
  | _, [] => True
  | s, a :: as => C s a ∧ AllSteps step C (step s a) as

@[simp] theorem run_nil (step : σ → α → σ) (s : σ) : run step s [] = s := rfl

@[simp] theorem run_cons (step : σ → α → σ) (s : σ) (a : α) (as : List α) :
    run step s (a :: as) = run step (step s a) as := rfl

theorem run_append (step : σ → α → σ) (s : σ) (as bs : List α) :
    run step s (as ++ bs) = run step (run step s as) bs := by
  induction as generalizing s with
  | nil => rfl
  | cons a as ih => exact ih (step s a)

/-- What holds of every step holds along every run. -/
theorem allSteps_of_forall {step : σ → α → σ} {C : σ → α → Prop} (h : ∀ s a, C s a)
    (as : List α) (s : σ) : AllSteps step C s as := by
  induction as generalizing s with
  | nil => exact True.intro
  | cons a as ih => exact ⟨h s a, ih (step s a)⟩

theorem allSteps_append {step : σ → α → σ} {C : σ → α → Prop} {s : σ}
    {as bs : List α} (h : AllSteps step C s (as ++ bs)) :
    AllSteps step C s as ∧ AllSteps step C (run step s as) bs := by
  induction as generalizing s with
  | nil => exact ⟨True.intro, h⟩
  | cons a as ih =>
      obtain ⟨hc, hrest⟩ := h
      obtain ⟨h1, h2⟩ := ih hrest
      exact ⟨⟨hc, h1⟩, h2⟩

/-- A run that breaks the condition has a first part, a breaking step and a rest. -/
theorem exists_of_not_allSteps {step : σ → α → σ} {C : σ → α → Prop} {s : σ}
    {as : List α} (h : ¬ AllSteps step C s as) :
    ∃ pre a post, as = pre ++ a :: post ∧ ¬ C (run step s pre) a := by
  induction as generalizing s with
  | nil => exact (h True.intro).elim
  | cons a as ih =>
      by_cases hc : C s a
      · have hrest : ¬ AllSteps step C (step s a) as := fun hr => h ⟨hc, hr⟩
        obtain ⟨pre, b, post, heq, hb⟩ := ih hrest
        exact ⟨a :: pre, b, post, by rw [heq]; rfl, hb⟩
      · exact ⟨[], a, as, rfl, hc⟩

/-- **INVARIANCE ALONG CONDITIONED RUNS**: what every step meeting `C`
    preserves, every run of such steps preserves. -/
theorem run_invariant_of {step : σ → α → σ} {C : σ → α → Prop} {I : σ → Prop}
    (hstep : ∀ s a, I s → C s a → I (step s a)) :
    ∀ (as : List α) (s : σ), I s → AllSteps step C s as → I (run step s as) := by
  intro as
  induction as with
  | nil => intro s hs _; exact hs
  | cons a as ih =>
      intro s hs hall
      obtain ⟨hc, hrest⟩ := hall
      exact ih (step s a) (hstep s a hs hc) hrest

/-- Invariance along arbitrary runs. -/
theorem run_invariant {step : σ → α → σ} {I : σ → Prop}
    (hstep : ∀ s a, I s → I (step s a)) (as : List α) (s : σ) (hs : I s) :
    I (run step s as) := by
  induction as generalizing s with
  | nil => exact hs
  | cons a as ih => exact ih (step s a) (hstep s a hs)

/-- A property that each step keeps exactly when it meets `C` holds at the end of a run
    exactly when it held before and every step met `C`. -/
theorem run_iff_allSteps {step : σ → α → σ} {C : σ → α → Prop} {I P : σ → Prop}
    (hinv : ∀ s a, I s → I (step s a)) (hstep : ∀ s a, I s → (P (step s a) ↔ P s ∧ C s a))
    (as : List α) (s : σ) (hs : I s) : P (run step s as) ↔ P s ∧ AllSteps step C s as := by
  induction as generalizing s with
  | nil => exact ⟨fun h => ⟨h, True.intro⟩, And.left⟩
  | cons a as ih =>
      rw [run_cons, ih (step s a) (hinv s a hs), hstep s a hs]
      exact and_assoc

/-! ## Counting the steps of a run -/

/-- **LATCH LEMMA**: where some steps set a property and some keep it, it holds at the end of
    a run exactly when every step kept it since one that set it, or since the beginning. -/
theorem run_latch {step : σ → α → σ} {I P : σ → Prop} {sets keeps : σ → α → Prop}
    (hI : ∀ s a, I s → I (step s a))
    (hstep : ∀ s a, I s → (P (step s a) ↔ sets s a ∨ (P s ∧ keeps s a)))
    (as : List α) (s : σ) (hs : I s) :
    P (run step s as) ↔
      (P s ∧ AllSteps step keeps s as)
      ∨ ∃ pre a post, as = pre ++ a :: post ∧ sets (run step s pre) a
        ∧ AllSteps step keeps (step (run step s pre) a) post := by
  induction as generalizing s with
  | nil =>
      refine ⟨fun h => Or.inl ⟨h, True.intro⟩, ?_⟩
      rintro (⟨h, -⟩ | ⟨pre, a, post, hsplit, -⟩)
      · exact h
      · cases pre with
        | nil => cases hsplit
        | cons b pre => cases hsplit
  | cons a as ih =>
      show P (run step (step s a) as) ↔ _
      rw [ih (step s a) (hI s a hs), hstep s a hs]
      constructor
      · rintro (⟨hset | ⟨h, hnot⟩, hkept⟩ | ⟨pre, b, post, rfl, hset, hkept⟩)
        · exact Or.inr ⟨[], a, as, rfl, hset, hkept⟩
        · exact Or.inl ⟨h, hnot, hkept⟩
        · exact Or.inr ⟨a :: pre, b, post, rfl, hset, hkept⟩
      · rintro (⟨h, hnot, hkept⟩ | ⟨pre, b, post, hsplit, hset, hkept⟩)
        · exact Or.inl ⟨Or.inr ⟨h, hnot⟩, hkept⟩
        · cases pre with
          | nil =>
              cases hsplit
              exact Or.inl ⟨Or.inl hset, hkept⟩
          | cons c pre =>
              cases hsplit
              exact Or.inr ⟨pre, b, post, rfl, hset, hkept⟩

/-- How many steps of the run meet the test in the state they are taken from. -/
def countSteps (step : σ → α → σ) (test : σ → α → Bool) : σ → List α → Nat
  | _, [] => 0
  | s, a :: as => (if test s a then 1 else 0) + countSteps step test (step s a) as

/-- A measure that grows by one at each counted step counts them. -/
theorem countSteps_eq_growth {step : σ → α → σ} {test : σ → α → Bool} {I : σ → Prop}
    {measure : σ → Nat} (hinv : ∀ s a, I s → I (step s a))
    (hstep : ∀ s a, I s → measure (step s a) = measure s + if test s a then 1 else 0)
    (as : List α) (s : σ) (hs : I s) :
    measure (run step s as) = measure s + countSteps step test s as := by
  induction as generalizing s with
  | nil => rfl
  | cons a as ih =>
      rw [run_cons, ih (step s a) (hinv s a hs), hstep s a hs, Nat.add_assoc]
      rfl

/-- Where each counted step of one kind uses up a debt that only a counted step of
    another kind makes, there are at most as many of the one as of the other. -/
theorem countSteps_le_of_debt {step : σ → α → σ} {uses makes : σ → α → Bool} {I : σ → Prop}
    {debt : σ → Nat} (hinv : ∀ s a, I s → I (step s a))
    (hstep : ∀ s a, I s → (if uses s a then 1 else 0) + debt (step s a)
      ≤ debt s + if makes s a then 1 else 0)
    (as : List α) (s : σ) (hs : I s) :
    countSteps step uses s as + debt (run step s as) ≤ debt s + countSteps step makes s as := by
  induction as generalizing s with
  | nil => exact Nat.le_of_eq (Nat.add_comm _ _)
  | cons a as ih =>
      have hrest := ih (step s a) (hinv s a hs)
      have hone := hstep s a hs
      simp only [run_cons, countSteps]
      omega

/-! ## Steps that can fail -/

variable {ε : Type}

/-- Take steps until one of them fails. -/
def runUntil (act : σ → α → Except ε σ) : σ → List α → Except ε σ
  | s, [] => .ok s
  | s, a :: as =>
      match act s a with
      | .error e => .error e
      | .ok t => runUntil act t as

/-- Every step that is taken meets `C` in the state it is taken from. -/
def AllUntil (act : σ → α → Except ε σ) (C : σ → α → Prop) : σ → List α → Prop
  | _, [] => True
  | s, a :: as => C s a ∧ ∀ t, act s a = .ok t → AllUntil act C t as

/-- A step and the rest. -/
theorem allUntil_cons {act : σ → α → Except ε σ} {C : σ → α → Prop} {s t : σ} {a : α} {as : List α}
    (hc : C s a) (ht : act s a = .ok t) (hrest : AllUntil act C t as) :
    AllUntil act C s (a :: as) := by
  refine ⟨hc, ?_⟩
  intro u hu
  rw [ht] at hu
  injection hu with htu
  rw [← htu]
  exact hrest

/-- Steps that never fail make a run of a step function. -/
theorem runUntil_of_ok {act : σ → α → Except ε σ} {step : σ → α → σ}
    (h : ∀ s a, act s a = .ok (step s a)) (as : List α) (s : σ) :
    runUntil act s as = .ok (run step s as) := by
  induction as generalizing s with
  | nil => rfl
  | cons a as ih =>
      rw [runUntil, h]
      exact ih (step s a)

/-- The first step of a run that does not fail, and the rest of it. -/
theorem runUntil_cons {act : σ → α → Except ε σ} {s u : σ} {a : α} {as : List α}
    (h : runUntil act s (a :: as) = .ok u) :
    ∃ t, act s a = .ok t ∧ runUntil act t as = .ok u := by
  rw [runUntil] at h
  cases ht : act s a with
  | error e =>
      rw [ht] at h
      cases h
  | ok t =>
      rw [ht] at h
      exact ⟨t, rfl, h⟩

/-- Invariance along conditioned runs that do not fail. -/
theorem runUntil_invariant_of {act : σ → α → Except ε σ} {C : σ → α → Prop} {I : σ → Prop}
    (hstep : ∀ s a t, I s → C s a → act s a = .ok t → I t) :
    ∀ (as : List α) (s u : σ), I s → AllUntil act C s as → runUntil act s as = .ok u → I u := by
  intro as
  induction as with
  | nil =>
      intro s u hs _ hu
      cases hu
      exact hs
  | cons a as ih =>
      intro s u hs hall hu
      obtain ⟨hc, hrest⟩ := hall
      obtain ⟨t, ht, hu⟩ := runUntil_cons hu
      exact ih t u (hstep s a t hs hc ht) (hrest t ht) hu

/-- What never comes back once it is lost, held before if it holds in the end. -/
theorem runUntil_before {act : σ → α → Except ε σ} {P : σ → Prop}
    (hback : ∀ s a t, act s a = .ok t → P t → P s) :
    ∀ (as : List α) (s u : σ), runUntil act s as = .ok u → P u → P s := by
  intro as
  induction as with
  | nil =>
      intro s u hu hp
      cases hu
      exact hp
  | cons a as ih =>
      intro s u hu hp
      obtain ⟨t, ht, hu⟩ := runUntil_cons hu
      exact hback s a t ht (ih t u hu hp)

/-- A condition that each step needs for what holds in the end. -/
theorem allUntil_of_final {act : σ → α → Except ε σ} {C : σ → α → Prop} {I P : σ → Prop}
    (hback : ∀ s a t, act s a = .ok t → P t → P s)
    (hstep : ∀ s a t, I s → act s a = .ok t → P t → C s a ∧ I t) :
    ∀ (as : List α) (s u : σ), I s → runUntil act s as = .ok u → P u → AllUntil act C s as := by
  intro as
  induction as with
  | nil =>
      intro s u _ _ _
      exact True.intro
  | cons a as ih =>
      intro s u hs hu hp
      obtain ⟨t, ht, hu⟩ := runUntil_cons hu
      obtain ⟨hc, hi⟩ := hstep s a t hs ht (runUntil_before hback as t u hu hp)
      exact allUntil_cons hc ht (ih t u hi hu hp)

/-! ## Machines with outputs -/

/-- The outputs of a run, in order, and the state it ends in. -/
def outputs (exec : σ → α → ω × σ) : σ → List α → List ω × σ
  | s, [] => ([], s)
  | s, a :: as =>
      let (o, s') := exec s a
      let (os, t) := outputs exec s' as
      (o :: os, t)

theorem outputs_cons (exec : σ → α → ω × σ) (s : σ) (a : α) (as : List α) :
    outputs exec s (a :: as)
      = ((exec s a).1 :: (outputs exec (exec s a).2 as).1,
          (outputs exec (exec s a).2 as).2) := rfl

/-- **FUNCTIONAL REFINEMENT LIFTS TO RUNS**: if, from states satisfying the
    invariant, one concrete operation gives the abstract output, commutes with
    the abstraction and keeps the invariant, then so does every run. -/
theorem outputs_refine {exec : σ → α → ω × σ} {aexec : τ → α → ω × τ}
    {abs : σ → τ} {I : σ → Prop}
    (hout : ∀ s a, I s → (exec s a).1 = (aexec (abs s) a).1)
    (habs : ∀ s a, I s → abs (exec s a).2 = (aexec (abs s) a).2)
    (hinv : ∀ s a, I s → I (exec s a).2) :
    ∀ (as : List α) (s : σ), I s →
      (outputs exec s as).1 = (outputs aexec (abs s) as).1
        ∧ abs (outputs exec s as).2 = (outputs aexec (abs s) as).2
        ∧ I (outputs exec s as).2 := by
  intro as
  induction as with
  | nil => intro s hs; exact ⟨rfl, rfl, hs⟩
  | cons a as ih =>
      intro s hs
      obtain ⟨h1, h2, h3⟩ := ih (exec s a).2 (hinv s a hs)
      rw [outputs_cons, outputs_cons]
      refine ⟨?_, ?_, h3⟩
      · show (exec s a).1 :: (outputs exec (exec s a).2 as).1
          = (aexec (abs s) a).1 :: (outputs aexec (aexec (abs s) a).2 as).1
        rw [hout s a hs, h1, habs s a hs]
      · show abs (outputs exec (exec s a).2 as).2
          = (outputs aexec (aexec (abs s) a).2 as).2
        rw [h2, habs s a hs]

/-! ## What is seen of some inputs -/

section Observed

variable (act : σ → α → Except ε (ω × σ)) (on : α → Bool)

/-- The outputs for the inputs `on` selects, up to the first failure; a failure on
    one of them is seen, any other only ends the run. -/
def observed : σ → List α → List (Except ε ω)
  | _, [] => []
  | s, a :: as =>
      match act s a with
      | .error e => if on a then [.error e] else []
      | .ok (o, t) => if on a then .ok o :: observed t as else observed t as

/-- The steps without their outputs. -/
def silent (s : σ) (a : α) : Except ε σ := (act s a).map Prod.snd

variable {act on} {C : σ → α → Prop} {R : σ → σ → Prop} {Same : α → α → Prop}

/-- Two steps with the same output, or the same failure. -/
def SameStep (R : σ → σ → Prop) (x y : Except ε (ω × σ)) : Prop :=
  (∃ e, x = .error e ∧ y = .error e)
    ∨ ∃ o t u, x = .ok (o, t) ∧ y = .ok (o, u) ∧ R t u

/-- **UNWINDING**: if the inputs not selected keep a relation to the state of the
    other run, and a selected input and its repetition give the same output and
    keep it too, then what is seen of the selected inputs is where the run ends
    a first part of, and else the whole of, what is seen when only they are
    repeated. -/
theorem observed_isolated
    (hother : ∀ s s' a o t, R s s' → C s a → on a = false → act s a = .ok (o, t) → R t s')
    (hsame : ∀ s s' a a', R s s' → C s a → on a = true → Same a a' →
      SameStep R (act s a) (act s' a'))
    (hon : ∀ a a', Same a a' → on a = true → on a' = true) :
    ∀ (as as' : List α) (s s' : σ), R s s' → AllUntil (silent act) C s as →
      List.Forall₂ Same (as.filter on) as' →
      observed act on s as <+: observed act on s' as'
        ∧ ((∃ t, runUntil (silent act) s as = .ok t) →
          observed act on s as = observed act on s' as') := by
  intro as
  induction as with
  | nil =>
      intro as' s s' _ _ hsub
      cases hsub
      exact ⟨List.prefix_rfl, fun _ => rfl⟩
  | cons a as ih =>
      intro as' s s' hR hC hsub
      obtain ⟨hCa, hrest⟩ := hC
      by_cases ha : on a = true
      · rw [List.filter_cons_of_pos ha] at hsub
        cases hsub with
        | @cons _ a' _ as' hsa hsub =>
            have ha' := hon a a' hsa ha
            rcases hsame s s' a a' hR hCa ha hsa with ⟨e, h1, h2⟩ | ⟨o, t, u, h1, h2, hRt⟩
            · -- both runs end in the same failure
              have hleft : observed act on s (a :: as) = [.error e] := by
                simp only [observed, h1, if_pos ha]
              have hright : observed act on s' (a' :: as') = [.error e] := by
                simp only [observed, h2, if_pos ha']
              rw [hleft, hright]
              exact ⟨List.prefix_rfl, fun _ => rfl⟩
            · have hstep : silent act s a = .ok t := by rw [silent, h1]; rfl
              obtain ⟨hpre, heq⟩ := ih as' t u hRt (hrest t hstep) hsub
              simp only [observed, h1, h2, if_pos ha, if_pos ha']
              refine ⟨List.prefix_cons_iff.mpr (.inr ⟨_, rfl, hpre⟩), ?_⟩
              rintro ⟨v, hv⟩
              obtain ⟨t', ht', hv'⟩ := runUntil_cons hv
              obtain rfl := Except.ok.inj (hstep.symm.trans ht')
              rw [heq ⟨v, hv'⟩]
      · rw [List.filter_cons_of_neg ha] at hsub
        have hoff : on a = false := Bool.eq_false_iff.mpr ha
        cases hact : act s a with
        | error e =>
            have hstep : silent act s a = .error e := by rw [silent, hact]; rfl
            simp only [observed, hact, if_neg ha]
            refine ⟨List.nil_prefix, ?_⟩
            rintro ⟨v, hv⟩
            obtain ⟨t', ht', _⟩ := runUntil_cons hv
            cases hstep.symm.trans ht'
        | ok x =>
            obtain ⟨o, t⟩ := x
            have hstep : silent act s a = .ok t := by rw [silent, hact]; rfl
            obtain ⟨hpre, heq⟩ := ih as' t s' (hother s s' a o t hR hCa hoff hact)
              (hrest t hstep) hsub
            simp only [observed, hact, if_neg ha]
            refine ⟨hpre, ?_⟩
            rintro ⟨v, hv⟩
            obtain ⟨t', ht', hv'⟩ := runUntil_cons hv
            obtain rfl := Except.ok.inj (hstep.symm.trans ht')
            exact heq ⟨v, hv'⟩

end Observed

end StepRun
