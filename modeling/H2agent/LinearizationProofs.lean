import Mathlib.Data.Finset.Basic
import Mathlib.Data.List.Perm.Basic
import Mathlib.Logic.Function.Basic
import H2agent.StepRunProofs

/-! # Concurrent calls in the order in which they take effect

    Calls of several threads take steps in any order; the answer of a call is settled at
    one of its steps.

    * `shown_balance` — of what the steps of a run show, what is shown early is what is
      shown late and what is still owed;
    * `shown_perm` — what is stored in the end is what was shown, in some order;
    * `Threads` — threads that make calls, and the steps that settle an answer;
    * `Simulates.linearized` — if every step that settles nothing is invisible to a
      sequential machine, and every other gives its answer, the calls of a run answer as if
      they had been made one after the other in the order in which they were settled;
    * `RwLock` — a lock with one writer or any number of readers. -/

namespace Linearization

open StepRun

variable {σ τ α β γ δ ω : Type}

/-! ## What steps show -/

/-- What the steps of a run show, in their order. -/
def shown (step : σ → α → σ) (f : σ → α → Option γ) : σ → List α → List γ
  | _, [] => []
  | s, a :: as => (f s a).toList ++ shown step f (step s a) as

section Shown

variable {step : σ → α → σ} {f : σ → α → Option γ}

theorem shown_cons (s : σ) (a : α) (as : List α) :
    shown step f s (a :: as) = (f s a).toList ++ shown step f (step s a) as := rfl

theorem shown_append (s : σ) (as bs : List α) :
    shown step f s (as ++ bs) = shown step f s as ++ shown step f (run step s as) bs := by
  induction as generalizing s with
  | nil => rfl
  | cons a as ih =>
      rw [List.cons_append, shown_cons, shown_cons, ih, List.append_assoc]
      rfl

/-- A selection of what is shown. -/
theorem shown_filterMap (g : γ → Option δ) (s : σ) (as : List α) :
    (shown step f s as).filterMap g = shown step (fun s a => (f s a).bind g) s as := by
  induction as generalizing s with
  | nil => rfl
  | cons a as ih =>
      rw [shown_cons, shown_cons, List.filterMap_append, ih]
      congr 1
      cases f s a with
      | none => rfl
      | some x =>
          show [x].filterMap g = (g x).toList
          cases hx : g x with
          | none => rw [List.filterMap_cons_none hx]; rfl
          | some y => rw [List.filterMap_cons_some hx]; rfl

theorem shown_map (g : γ → δ) (s : σ) (as : List α) :
    (shown step f s as).map g = shown step (fun s a => (f s a).map g) s as := by
  induction as generalizing s with
  | nil => rfl
  | cons a as ih =>
      rw [shown_cons, shown_cons, List.map_append, ih, Option.toList_map]

/-- What holds of all that is shown from states that meet an invariant. -/
theorem shown_forall {I : σ → Prop} {P : γ → Prop} (hI : ∀ s a, I s → I (step s a))
    (hshown : ∀ s a x, I s → f s a = some x → P x) (as : List α) (s : σ) (hs : I s) :
    ∀ x ∈ shown step f s as, P x := by
  induction as generalizing s with
  | nil =>
      intro x hx
      cases hx
  | cons a as ih =>
      intro x hx
      rw [shown_cons, List.mem_append] at hx
      rcases hx with hx | hx
      · exact hshown s a x hs (Option.mem_toList.mp hx)
      · exact ih (step s a) (hI s a hs) x hx

/-- **BALANCE**: if each step keeps the balance of what is owed, then what is shown early
    is what is shown late, and what is owed in the end. -/
theorem shown_balance {early late : σ → α → Option γ} {owed : σ → List γ}
    (hstep : ∀ s a, owed s ++ (early s a).toList = (late s a).toList ++ owed (step s a))
    (s : σ) (as : List α) :
    owed s ++ shown step early s as = shown step late s as ++ owed (run step s as) := by
  induction as generalizing s with
  | nil => exact List.append_nil _
  | cons a as ih =>
      calc owed s ++ shown step early s (a :: as)
          = owed s ++ (early s a).toList ++ shown step early (step s a) as := by
            rw [shown_cons, List.append_assoc]
        _ = (late s a).toList ++ (owed (step s a) ++ shown step early (step s a) as) := by
            rw [hstep, List.append_assoc]
        _ = shown step late s (a :: as) ++ owed (run step s (a :: as)) := by
            rw [ih, shown_cons, List.append_assoc]
            rfl

/-- **CONSERVATION**: if each step keeps what is stored but for what it shows, then what is
    stored in the end is what was shown. -/
theorem shown_perm {I : σ → Prop} (store : σ → List γ) (hI : ∀ s a, I s → I (step s a))
    (hstep : ∀ s a, I s → (store (step s a)).Perm (store s ++ (f s a).toList))
    (as : List α) (s : σ) (hs : I s) :
    (store (run step s as)).Perm (store s ++ shown step f s as) := by
  induction as generalizing s with
  | nil => exact (List.append_nil _).symm ▸ List.Perm.refl _
  | cons a as ih =>
      rw [shown_cons, ← List.append_assoc]
      exact (ih (step s a) (hI s a hs)).trans ((hstep s a hs).append_right _)

end Shown

/-! ## Threads that make calls -/

/-- A thread begins a call, or takes the next step of its own. -/
inductive Act (ι β : Type) where
  | call (i : ι) (op : β)
  | step (i : ι)

/-- Threads with the call each is in and how far it has come.  A stage may have the answer
    already; from then on it does not change until the thread returns. -/
structure Threads (σ ι β κ ω : Type) [DecidableEq ι] where
  step : σ → Act ι β → σ
  thread : σ → ι → Option (β × κ)
  answer : κ → Option ω
  called : κ
  answer_called : answer called = none
  call_self : ∀ s i op, thread (step s (.call i op)) i
    = if (thread s i).isNone then some (op, called) else thread s i
  call_other : ∀ s i j op, j ≠ i → thread (step s (.call i op)) j = thread s j
  step_idle : ∀ s i, thread s i = none → thread (step s (.step i)) i = none
  step_other : ∀ s i j, j ≠ i → thread (step s (.step i)) j = thread s j
  step_open : ∀ s i op st, thread s i = some (op, st) → answer st = none →
    ∃ st', thread (step s (.step i)) i = some (op, st')
  step_answered : ∀ s i op st a, thread s i = some (op, st) → answer st = some a →
    thread (step s (.step i)) i = none
      ∨ ∃ st', thread (step s (.step i)) i = some (op, st') ∧ answer st' = some a

namespace Threads

variable {ι κ : Type} [DecidableEq ι] (T : Threads σ ι β κ ω)

/-- The answer a thread has but has not given yet. -/
def answered (x : Option (β × κ)) : Option (β × ω) :=
  x.bind fun x => (T.answer x.2).map fun a => (x.1, a)

/-- The call a thread has no answer for yet. -/
def waiting (x : Option (β × κ)) : Option β :=
  x.bind fun x => if (T.answer x.2).isNone then some x.1 else none

/-- The call that a step begins. -/
def begun (s : σ) : Act ι β → Option (ι × β)
  | .call i op => if (T.thread s i).isNone then some (i, op) else none
  | .step _ => none

/-- The call that a step settles, with its answer. -/
def settled (s : σ) : Act ι β → Option (ι × β × ω)
  | .call _ _ => none
  | .step i =>
      if (T.answered (T.thread s i)).isNone then
        (T.answered (T.thread (T.step s (.step i)) i)).map fun x => (i, x)
      else none

/-- The call that a step returns from, with its answer. -/
def returned (s : σ) : Act ι β → Option (ι × β × ω)
  | .call _ _ => none
  | .step i =>
      if (T.thread (T.step s (.step i)) i).isNone then
        (T.answered (T.thread s i)).map fun x => (i, x)
      else none

/-- What concerns one thread. -/
def ofThread (i : ι) (x : ι × γ) : Option γ := if x.1 = i then some x.2 else none

theorem ofThread_ne {i j : ι} (hne : i ≠ j) (x : Option γ) :
    (x.map fun y => (j, y)).bind (ofThread i) = none := by
  cases x with
  | none => rfl
  | some y => exact if_neg (Ne.symm hne)

theorem ofThread_self (i : ι) (x : Option γ) :
    (x.map fun y => (i, y)).bind (ofThread i) = x := by
  cases x with
  | none => rfl
  | some y => exact if_pos rfl

variable {T} {s : σ} {i j : ι} {op : β} {st : κ}

theorem answered_some (op : β) (st : κ) :
    T.answered (some (op, st)) = (T.answer st).map fun a => (op, a) := rfl

theorem settled_of_open (h : T.answered (T.thread s i) = none) :
    T.settled s (.step i)
      = (T.answered (T.thread (T.step s (.step i)) i)).map fun x => (i, x) := by
  simp only [settled, h, Option.isNone_none, if_true]

theorem settled_of_answered {x : β × ω} (h : T.answered (T.thread s i) = some x) :
    T.settled s (.step i) = none := by
  simp only [settled, h, Option.isNone_some, Bool.false_eq_true, if_false]

/-- What was begun is waiting until it is settled, and what was settled is in the hands of
    its thread until it is returned: the calls of one thread, over one step. -/
structure OneThread (T : Threads σ ι β κ ω) (i : ι) (s : σ) (a : Act ι β) : Prop where
  answers : (T.answered (T.thread s i)).toList ++ ((T.settled s a).bind (ofThread i)).toList
    = ((T.returned s a).bind (ofThread i)).toList
      ++ (T.answered (T.thread (T.step s a) i)).toList
  calls : (T.waiting (T.thread s i)).toList ++ ((T.begun s a).bind (ofThread i)).toList
    = (((T.settled s a).bind (ofThread i)).map Prod.fst).toList
      ++ (T.waiting (T.thread (T.step s a) i)).toList

/-- A step that leaves the thread alone. -/
theorem OneThread.of_same {a : Act ι β} (hthread : T.thread (T.step s a) i = T.thread s i)
    (hsettled : (T.settled s a).bind (ofThread i) = none)
    (hreturned : (T.returned s a).bind (ofThread i) = none)
    (hbegun : (T.begun s a).bind (ofThread i) = none) : OneThread T i s a where
  answers := by
    rw [hthread, hsettled, hreturned]
    exact List.append_nil _
  calls := by
    rw [hthread, hsettled, hbegun]
    exact List.append_nil _

theorem call_oneThread (s : σ) (i j : ι) (op : β) : OneThread T i s (.call j op) := by
  by_cases hij : i = j
  · subst hij
    have hself := T.call_self s i op
    cases hi : T.thread s i with
    | some x =>
        rw [hi] at hself
        refine .of_same (hself.trans hi.symm) rfl rfl ?_
        simp only [begun, hi, Option.isNone_some, Bool.false_eq_true, if_false, Option.bind_none]
    | none =>
        rw [hi] at hself
        have hnext : T.thread (T.step s (.call i op)) i = some (op, T.called) := hself
        have hbegun : T.begun s (.call i op) = some (i, op) := by
          simp only [begun, hi, Option.isNone_none, if_true]
        refine ⟨?_, ?_⟩
        · rw [hnext, hi, answered_some, T.answer_called]
          rfl
        · rw [hnext, hbegun, hi]
          simp [waiting, ofThread, T.answer_called, settled]
  · refine .of_same (T.call_other s j i op hij) rfl rfl ?_
    show (if (T.thread s j).isNone then some (j, op) else none).bind (ofThread i) = none
    split
    · exact ofThread_ne hij (some op)
    · rfl

theorem step_oneThread (s : σ) (i j : ι) : OneThread T i s (.step j) := by
  by_cases hij : i = j
  · subst hij
    cases hi : T.thread s i with
    | none =>
        have hnext := T.step_idle s i hi
        refine .of_same (hnext.trans hi.symm) ?_ ?_ rfl
        · rw [settled_of_open (by rw [hi]; rfl), hnext]
          rfl
        · simp only [returned, hnext, hi]
          rfl
    | some x =>
        obtain ⟨op, st⟩ := x
        cases hanswer : T.answer st with
        | none =>
            -- the call goes on, or settles its answer
            obtain ⟨st', hnext⟩ := T.step_open s i op st hi hanswer
            have hopen : T.answered (T.thread s i) = none := by
              rw [hi, answered_some, hanswer]
              rfl
            have hreturned : T.returned s (.step i) = none := by
              simp only [returned, hnext, Option.isNone_some, Bool.false_eq_true, if_false]
            have hsettled : (T.settled s (.step i)).bind (ofThread i)
                = T.answered (some (op, st')) := by
              rw [settled_of_open hopen, hnext]
              exact ofThread_self i _
            refine ⟨?_, ?_⟩
            · rw [hopen, hreturned, hsettled, hnext]
              rfl
            · rw [hsettled, hnext, hi]
              cases hnew : T.answer st' with
              | none => simp [waiting, answered, hanswer, hnew, begun]
              | some a => simp [waiting, answered, hanswer, hnew, begun]
        | some a =>
            -- the call keeps its answer, or returns
            have hold : T.answered (T.thread s i) = some (op, a) := by
              rw [hi, answered_some, hanswer]
              rfl
            have hsettled := settled_of_answered hold
            rcases T.step_answered s i op st a hi hanswer with hnext | ⟨st', hnext, hkept⟩
            · have hreturned : T.returned s (.step i) = some (i, op, a) := by
                simp only [returned, hnext, hold, Option.isNone_none, if_true, Option.map_some]
              refine ⟨?_, ?_⟩
              · rw [hold, hsettled, hreturned, hnext]
                simp [ofThread, answered]
              · rw [hsettled, hnext, hi]
                simp [waiting, hanswer, begun]
            · have hreturned : T.returned s (.step i) = none := by
                simp only [returned, hnext, Option.isNone_some, Bool.false_eq_true, if_false]
              refine ⟨?_, ?_⟩
              · rw [hold, hsettled, hreturned, hnext, answered_some, hkept]
                rfl
              · rw [hsettled, hnext, hi]
                simp [waiting, hanswer, hkept, begun]
  · refine .of_same (T.step_other s j i hij) ?_ ?_ rfl
    · show (if (T.answered (T.thread s j)).isNone then _ else none).bind (ofThread i) = none
      split
      · exact ofThread_ne hij _
      · rfl
    · show (if (T.thread (T.step s (.step j)) j).isNone then _ else none).bind (ofThread i) = none
      split
      · exact ofThread_ne hij _
      · rfl

theorem oneThread (s : σ) (i : ι) (a : Act ι β) : OneThread T i s a := by
  cases a with
  | call j op => exact call_oneThread s i j op
  | step j => exact step_oneThread s i j

/-! ## Calls in the order in which they are settled -/

variable (T) (start : σ) (acts : List (Act ι β))

def reached : σ := run T.step start acts

/-- The calls of a run in the order in which they were settled, with their answers. -/
def settledCalls : List (ι × β × ω) := shown T.step T.settled start acts

/-- The calls that a run has returned from. -/
def returnedCalls : List (ι × β × ω) := shown T.step T.returned start acts

/-- The calls that a run has begun. -/
def begunCalls : List (ι × β) := shown T.step T.begun start acts

/-- The settled calls of a run answer as if they had been made one after the other; no
    further step revises their order; and each thread's calls were settled in their order
    and between their beginning and their return. -/
structure Linearized (exec : τ → β → ω × τ) (first : τ) : Prop where
  answers : (outputs exec first ((T.settledCalls start acts).map fun x => x.2.1)).1
    = (T.settledCalls start acts).map fun x => x.2.2
  unrevised : ∀ more, T.settledCalls start acts <+: T.settledCalls start (acts ++ more)
  returns : ∀ i, (T.settledCalls start acts).filterMap (ofThread i)
    = (T.returnedCalls start acts).filterMap (ofThread i)
      ++ (T.answered (T.thread (T.reached start acts) i)).toList
  begins : ∀ i, (T.begunCalls start acts).filterMap (ofThread i)
    = ((T.settledCalls start acts).filterMap (ofThread i)).map Prod.fst
      ++ (T.waiting (T.thread (T.reached start acts) i)).toList

variable {T start}

/-- A step settles nothing and is not visible to the sequential machine, or it settles the
    answer which that machine gives now. -/
def Simulates (T : Threads σ ι β κ ω) (exec : τ → β → ω × τ) (R : σ → τ → Prop) : Prop :=
  ∀ s t a, R s t → (T.settled s a = none ∧ R (T.step s a) t)
    ∨ ∃ i op, T.settled s a = some (i, op, (exec t op).1) ∧ R (T.step s a) (exec t op).2

section Simulation

variable {exec : τ → β → ω × τ} {R : σ → τ → Prop}

/-- A step of a call without an answer is not visible to the sequential machine, or it
    brings the answer which that machine gives now. -/
def Advances (T : Threads σ ι β κ ω) (exec : τ → β → ω × τ) (R : σ → τ → Prop) (t : τ)
    (i : ι) (op : β) (s' : σ) : Prop :=
  (∃ st, T.thread s' i = some (op, st) ∧ T.answer st = none ∧ R s' t)
    ∨ ∃ st, T.thread s' i = some (op, st) ∧ T.answer st = some (exec t op).1
      ∧ R s' (exec t op).2

/-- A simulation, from what the steps do before and after their thread has its answer. -/
theorem simulates_of (hcall : ∀ s t i op, R s t → R (T.step s (.call i op)) t)
    (hidle : ∀ s t i, R s t → T.thread s i = none → R (T.step s (.step i)) t)
    (hopen : ∀ s t i op st, R s t → T.thread s i = some (op, st) → T.answer st = none →
      T.Advances exec R t i op (T.step s (.step i)))
    (hanswered : ∀ s t i op st a, R s t → T.thread s i = some (op, st) →
      T.answer st = some a → R (T.step s (.step i)) t) : T.Simulates exec R := by
  intro s t a hR
  cases a with
  | call i op => exact Or.inl ⟨rfl, hcall s t i op hR⟩
  | step i =>
      cases hi : T.thread s i with
      | none =>
          refine Or.inl ⟨?_, hidle s t i hR hi⟩
          rw [settled_of_open (by rw [hi]; rfl), T.step_idle s i hi]
          rfl
      | some x =>
          obtain ⟨op, st⟩ := x
          cases hanswer : T.answer st with
          | none =>
              have hnone : T.answered (T.thread s i) = none := by
                rw [hi, answered_some, hanswer]
                rfl
              rw [settled_of_open hnone]
              rcases hopen s t i op st hR hi hanswer with
                ⟨st', hnext, hnew, hR'⟩ | ⟨st', hnext, hnew, hR'⟩
              · refine Or.inl ⟨?_, hR'⟩
                rw [hnext, answered_some, hnew]
                rfl
              · refine Or.inr ⟨i, op, ?_, hR'⟩
                rw [hnext, answered_some, hnew]
                rfl
          | some a =>
              refine Or.inl ⟨settled_of_answered (x := (op, a)) ?_,
                hanswered s t i op st a hR hi hanswer⟩
              rw [hi, answered_some, hanswer]
              rfl

/-- The answers of a run are those of the sequential machine, whose state goes along. -/
theorem Simulates.outputs_eq (h : T.Simulates exec R) (s : σ) (t : τ) (hR : R s t) :
    (outputs exec t ((T.settledCalls s acts).map fun x => x.2.1)).1
        = ((T.settledCalls s acts).map fun x => x.2.2)
      ∧ R (T.reached s acts)
          (outputs exec t ((T.settledCalls s acts).map fun x => x.2.1)).2 := by
  unfold settledCalls reached
  induction acts generalizing s t with
  | nil => exact ⟨rfl, hR⟩
  | cons a acts ih =>
      rw [shown_cons]
      rcases h s t a hR with ⟨hnone, hR'⟩ | ⟨i, op, hsome, hR'⟩
      · rw [hnone]
        exact ih (T.step s a) t hR'
      · obtain ⟨hrest, hend⟩ := ih (T.step s a) _ hR'
        rw [hsome]
        show (outputs exec t (op :: (shown T.step T.settled (T.step s a) acts).map _)).1
            = (exec t op).1 :: (shown T.step T.settled (T.step s a) acts).map _ ∧ _
        rw [outputs_cons, hrest]
        exact ⟨rfl, hend⟩

/-- **LINEARIZATION**: a simulation by a sequential machine makes every run of threads that
    are idle at first answer like it. -/
theorem Simulates.linearized (h : T.Simulates exec R) {first : τ} (hR : R start first)
    (hidle : ∀ i, T.thread start i = none) : T.Linearized start acts exec first where
  answers := (h.outputs_eq acts start first hR).1
  unrevised := by
    intro more
    unfold settledCalls
    rw [shown_append]
    exact List.prefix_append _ _
  returns := by
    intro i
    have hbalance := shown_balance (fun s a => (oneThread (T := T) s i a).answers) start acts
    rw [hidle i] at hbalance
    unfold settledCalls returnedCalls
    rw [shown_filterMap, shown_filterMap]
    exact hbalance
  begins := by
    intro i
    have hbalance := shown_balance (fun s a => (oneThread (T := T) s i a).calls) start acts
    rw [hidle i] at hbalance
    unfold settledCalls begunCalls
    rw [shown_filterMap, shown_filterMap, shown_map]
    exact hbalance

/-- What holds of the answers that the sequential machine gives along the simulation holds
    of all settled calls. -/
theorem Simulates.settled_forall (h : T.Simulates exec R) {P : ω → Prop}
    (hP : ∀ s t op, R s t → P (exec t op).1) {first : τ} (hR : R start first) :
    ∀ x ∈ T.settledCalls start acts, P x.2.2 := by
  refine shown_forall (I := fun s => ∃ t, R s t) ?_ ?_ acts start ⟨first, hR⟩
  · rintro s a ⟨t, hst⟩
    rcases h s t a hst with ⟨-, hst'⟩ | ⟨_, _, -, hst'⟩
    · exact ⟨t, hst'⟩
    · exact ⟨_, hst'⟩
  · rintro s a x ⟨t, hst⟩ hsome
    rcases h s t a hst with ⟨hnone, -⟩ | ⟨i, op, hsome', -⟩
    · cases hnone.symm.trans hsome
    · obtain rfl := Option.some.inj (hsome.symm.trans hsome')
      exact hP s t op hst

end Simulation

end Threads

/-! ## A lock with one writer or any number of readers -/

/-- Who holds the lock. -/
structure RwLock (ι : Type) where
  writer : Option ι
  readers : Finset ι
  exclusive : writer.isSome = true → readers = ∅

namespace RwLock

variable {ι : Type}

def free : RwLock ι := ⟨none, ∅, fun _ => rfl⟩

/-- Nobody holds the lock. -/
def isFree (l : RwLock ι) : Prop := l.writer = none ∧ l.readers = ∅

/-- Nobody writes. -/
def isReadable (l : RwLock ι) : Prop := l.writer = none

instance [DecidableEq ι] (l : RwLock ι) : Decidable l.isFree :=
  inferInstanceAs (Decidable (l.writer = none ∧ l.readers = ∅))

instance [DecidableEq ι] (l : RwLock ι) : Decidable l.isReadable :=
  inferInstanceAs (Decidable (l.writer = none))

/-- `i` takes the free lock to write. -/
def lockWrite (l : RwLock ι) (i : ι) (h : l.isFree) : RwLock ι :=
  ⟨some i, l.readers, fun _ => h.2⟩

variable [DecidableEq ι]

/-- `i` takes the lock to read. -/
def lockRead (l : RwLock ι) (i : ι) (_ : l.isReadable) : RwLock ι :=
  ⟨none, insert i l.readers, fun hw => absurd hw Bool.false_ne_true⟩

/-- `i` gives up what it holds. -/
def unlock (l : RwLock ι) (i : ι) : RwLock ι where
  writer := if l.writer = some i then none else l.writer
  readers := l.readers.erase i
  exclusive := by
    intro h
    have hsome : l.writer.isSome = true := by
      by_cases hi : l.writer = some i
      · rw [if_pos hi] at h
        cases h
      · rwa [if_neg hi] at h
    rw [l.exclusive hsome]
    rfl

/-- `i` holds the lock to write. -/
def Writes (l : RwLock ι) (i : ι) : Prop := l.writer = some i

/-- `i` holds the lock to read. -/
def Reads (l : RwLock ι) (i : ι) : Prop := i ∈ l.readers

section Holders

variable {l : RwLock ι} {i j : ι}

omit [DecidableEq ι] in
theorem Writes.unique (h : l.Writes i) (hj : l.Writes j) : j = i :=
  Option.some.inj (hj.symm.trans h)

omit [DecidableEq ι] in
/-- Nobody reads while one writes. -/
theorem Writes.not_reads (h : l.Writes i) : ¬ l.Reads j := by
  intro hj
  have hnone := l.exclusive (h ▸ rfl)
  rw [Reads, hnone] at hj
  exact Finset.notMem_empty j hj

omit [DecidableEq ι] in
theorem readable_of_reads (h : l.Reads i) : l.isReadable := by
  cases hw : l.writer with
  | none => exact hw
  | some j => exact absurd h (Writes.not_reads hw)

omit [DecidableEq ι] in
theorem isFree.not_writes (h : l.isFree) : ¬ l.Writes j := by
  intro hj
  cases h.1.symm.trans hj

omit [DecidableEq ι] in
theorem isFree.not_reads (h : l.isFree) : ¬ l.Reads j := by
  intro hj
  rw [Reads, h.2] at hj
  exact Finset.notMem_empty j hj

omit [DecidableEq ι] in
theorem lockWrite_writes (h : l.isFree) : (l.lockWrite i h).Writes j ↔ j = i :=
  ⟨fun hj => (Option.some.inj hj).symm, fun hj => congrArg some hj.symm⟩

theorem lockRead_writes (h : l.isReadable) : ¬ (l.lockRead i h).Writes j := by
  intro hj
  cases hj

theorem lockRead_reads (h : l.isReadable) : (l.lockRead i h).Reads j ↔ j = i ∨ l.Reads j :=
  Finset.mem_insert

theorem unlock_writes : (l.unlock i).Writes j ↔ j ≠ i ∧ l.Writes j := by
  show (if l.writer = some i then none else l.writer) = some j ↔ j ≠ i ∧ l.writer = some j
  by_cases hi : l.writer = some i
  · rw [if_pos hi, hi]
    constructor
    · intro h
      cases h
    · rintro ⟨hne, h⟩
      exact absurd (Option.some.inj h).symm hne
  · rw [if_neg hi]
    refine ⟨fun h => ⟨?_, h⟩, And.right⟩
    rintro rfl
    exact hi h

theorem unlock_reads : (l.unlock i).Reads j ↔ j ≠ i ∧ l.Reads j := Finset.mem_erase

end Holders

end RwLock

end Linearization
