import Mathlib.Algebra.BigOperators.Group.Finset.Basic
import Mathlib.Data.Fintype.Card
import H2agent.AtomicMaxProofs
import H2agent.CppTextProofs

/-! # The pool of client workers

    `postToPool` of the administrative server hands work to the client workers.
    With a limit it first looks whether as many dispatches are pending, and then
    counts its own: two steps, so that calls at the same time can all pass.  A
    worker takes a job, counts it out, adds its dispatch latency to the statistics
    (`recordDispatchLatency`) and does the work.

    Calls are numbered by `π`; main.cpp runs them all in its one timer thread.
    Jobs are numbered in the order in which they are posted, and `us j` is the
    latency measured for the job `j`, whatever that is.

    `Tally` says what the counters hold in every state, `pending_le` how far the
    limit is exceeded (and `pending_reaches` that it is), and `latency_statistics`
    what the statistics say. -/

namespace H2Pool

open CppText StepRun

/-- A call of `postToPool`: outside, past the check, past `pending_pool_dispatches_++`. -/
inductive CallPc where
  | outside | admitted | counted
  deriving DecidableEq

/-- A posted job: in the queue of the workers, counted out, in `recordDispatchLatency`
    past the sum, in the loop for the maximum, done. -/
inductive JobPc where
  | absent | queued | taken | summed | recording | finished
  deriving DecidableEq

/-- The order of the stages. -/
def JobPc.stage : JobPc → Nat
  | .absent => 0
  | .queued => 1
  | .taken => 2
  | .summed => 3
  | .recording => 4
  | .finished => 5

structure Pool (π : Type) where
  pendingPoolDispatches : Nat
  discardedDispatches : Nat
  dispatchLatencySumUs : Nat
  dispatchLatencyCount : Nat
  dispatchLatencyMaxUs : AtomicMax.State Nat Nat
  call : π → CallPc
  posted : Nat
  job : Nat → JobPc

inductive Act (π : Type) where
  | check (p : π)
  | count (p : π)
  | post (p : π)
  | take (j : Nat)
  | addSum (j : Nat)
  | addCount (j : Nat)
  | maximum (a : AtomicMax.Act Nat)
  | work (j : Nat)

variable {π : Type}

def start : Pool π where
  pendingPoolDispatches := 0
  discardedDispatches := 0
  dispatchLatencySumUs := 0
  dispatchLatencyCount := 0
  dispatchLatencyMaxUs := AtomicMax.start 0
  call _ := .outside
  posted := 0
  job _ := .absent

/-! ## Steps -/

section Steps

variable [DecidableEq π] (maxPending : Nat) (us : Nat → Nat) (s : Pool π)

def setCall (p : π) (pc : CallPc) : Pool π := { s with call := Function.update s.call p pc }

def setJob (j : Nat) (pc : JobPc) : Pool π := { s with job := Function.update s.job j pc }

/-- The check before a dispatch; no limit is 0. -/
def congested : Bool := decide (0 < maxPending) && decide (maxPending ≤ s.pendingPoolDispatches)

/-- A step out of turn does nothing. -/
def step : Act π → Pool π
  | .check p =>
      if s.call p = .outside then
        if congested maxPending s then { s with discardedDispatches := s.discardedDispatches + 1 }
        else setCall s p .admitted
      else s
  | .count p =>
      if s.call p = .admitted then
        { setCall s p .counted with pendingPoolDispatches := s.pendingPoolDispatches + 1 }
      else s
  | .post p =>
      if s.call p = .counted then
        { setJob (setCall s p .outside) s.posted .queued with posted := s.posted + 1 }
      else s
  | .take j =>
      if s.job j = .queued then
        { setJob s j .taken with pendingPoolDispatches := s.pendingPoolDispatches - 1 }
      else s
  | .addSum j =>
      if s.job j = .taken then
        { setJob s j .summed with
          dispatchLatencySumUs := wrapU64 (s.dispatchLatencySumUs + us j) }
      else s
  | .addCount j =>
      if s.job j = .summed then
        { setJob s j .recording with dispatchLatencyCount := s.dispatchLatencyCount + 1 }
      else s
  | .maximum a =>
      if s.job a.caller = .recording then
        { s with dispatchLatencyMaxUs := AtomicMax.step us s.dispatchLatencyMaxUs a }
      else s
  | .work j =>
      match s.job j, s.dispatchLatencyMaxUs.pc j with
      | .recording, .after => setJob s j .finished
      | _, _ => s

end Steps

/-! ## Sets of calls and of jobs -/

/-- The members of a set that a test picks, after one value was replaced. -/
theorem filter_update {κ β : Type} [DecidableEq κ] (F : Finset κ) (f : κ → β) (P : β → Prop)
    [DecidablePred P] {i : κ} (hi : i ∈ F) (x : β) :
    F.filter (fun k => P (Function.update f i x k))
      = if P x then insert i (F.filter (fun k => P (f k)))
        else (F.filter (fun k => P (f k))).erase i := by
  ext k
  by_cases hk : k = i
  · subst hk
    by_cases hx : P x <;> simp [hx, hi]
  · by_cases hx : P x <;> simp [hx, hk]

/-- The jobs whose stage passes a test. -/
def jobsAt (s : Pool π) (P : JobPc → Prop) [DecidablePred P] : Finset Nat :=
  (Finset.range s.posted).filter (fun j => P (s.job j))

/-- The calls at a stage. -/
def callsAt [Fintype π] (s : Pool π) (pc : CallPc) : Finset π :=
  Finset.univ.filter (fun p => s.call p = pc)

def queued (s : Pool π) : Finset Nat := jobsAt s (· = .queued)

def inSum (s : Pool π) : Finset Nat := jobsAt s (fun pc => 3 ≤ pc.stage)

def inCount (s : Pool π) : Finset Nat := jobsAt s (fun pc => 4 ≤ pc.stage)

section Sets

variable {s : Pool π}

theorem jobsAt_setJob {j : Nat} (hj : j < s.posted) (pc : JobPc) (P : JobPc → Prop)
    [DecidablePred P] :
    jobsAt (setJob s j pc) P
      = if P pc then insert j (jobsAt s P) else (jobsAt s P).erase j :=
  filter_update _ _ P (Finset.mem_range.mpr hj) pc

theorem mem_jobsAt {P : JobPc → Prop} [DecidablePred P] {j : Nat} :
    j ∈ jobsAt s P ↔ j < s.posted ∧ P (s.job j) := by
  simp [jobsAt]

/-- A job moves on and the test picks it before and after, or neither. -/
theorem jobsAt_setJob_same {j : Nat} (hj : j < s.posted) {pc : JobPc} {P : JobPc → Prop}
    [DecidablePred P] (h : P pc ↔ P (s.job j)) : jobsAt (setJob s j pc) P = jobsAt s P := by
  rw [jobsAt_setJob hj]
  split
  · exact Finset.insert_eq_self.mpr (mem_jobsAt.mpr ⟨hj, h.mp ‹_›⟩)
  · refine Finset.erase_eq_self.mpr (fun hmem => ?_)
    exact ‹¬ P pc› (h.mpr (mem_jobsAt.mp hmem).2)

/-- The jobs after one was posted. -/
theorem jobsAt_posted (P : JobPc → Prop) [DecidablePred P] (t : Pool π)
    (hposted : t.posted = s.posted + 1) (hjob : t.job = Function.update s.job s.posted .queued) :
    jobsAt t P = if P .queued then insert s.posted (jobsAt s P) else jobsAt s P := by
  have hold : (Finset.range s.posted).filter (fun j => P (Function.update s.job s.posted .queued j))
      = jobsAt s P := by
    refine Finset.filter_congr (fun j hj => ?_)
    rw [Function.update_of_ne (Nat.ne_of_lt (Finset.mem_range.mp hj))]
  unfold jobsAt at hold ⊢
  rw [hposted, hjob, Finset.range_add_one, Finset.filter_insert, Function.update_self, hold]

variable [DecidableEq π] [Fintype π]

theorem callsAt_setCall (p : π) (pc q : CallPc) :
    callsAt (setCall s p pc) q = if pc = q then insert p (callsAt s q) else (callsAt s q).erase p :=
  filter_update _ _ (· = q) (Finset.mem_univ p) pc

omit [DecidableEq π] in
theorem mem_callsAt {p : π} {q : CallPc} : p ∈ callsAt s q ↔ s.call p = q := by
  simp [callsAt]

/-- A call that goes to another stage. -/
theorem card_enter {p : π} {q : CallPc} (h : s.call p ≠ q) :
    (callsAt (setCall s p q) q).card = (callsAt s q).card + 1 := by
  rw [callsAt_setCall, if_pos rfl, Finset.card_insert_of_notMem (fun hm => h (mem_callsAt.mp hm))]

/-- A call that leaves a stage. -/
theorem card_leave {p : π} {q pc : CallPc} (h : s.call p = q) (hne : pc ≠ q) :
    (callsAt (setCall s p pc) q).card + 1 = (callsAt s q).card := by
  rw [callsAt_setCall, if_neg hne, Finset.card_erase_add_one (mem_callsAt.mpr h)]

/-- A call that goes from another stage to another stage. -/
theorem callsAt_beside {p : π} {q pc : CallPc} (h : s.call p ≠ q) (hne : pc ≠ q) :
    callsAt (setCall s p pc) q = callsAt s q := by
  rw [callsAt_setCall, if_neg hne]
  exact Finset.erase_eq_self.mpr (fun hm => h (mem_callsAt.mp hm))

end Sets

/-! ## What a step does -/

section Effects

variable [DecidableEq π] (maxPending : Nat) (us : Nat → Nat)

inductive Effect (s : Pool π) : Act π → Pool π → Prop where
  | idle (a : Act π) : Effect s a s
  | discard (p : π) (hpc : s.call p = .outside) (hfull : congested maxPending s = true) :
      Effect s (.check p) { s with discardedDispatches := s.discardedDispatches + 1 }
  | pass (p : π) (hpc : s.call p = .outside) (hroom : congested maxPending s = false) :
      Effect s (.check p) (setCall s p .admitted)
  | count (p : π) (hpc : s.call p = .admitted) :
      Effect s (.count p)
        { setCall s p .counted with pendingPoolDispatches := s.pendingPoolDispatches + 1 }
  | post (p : π) (hpc : s.call p = .counted) :
      Effect s (.post p)
        { setJob (setCall s p .outside) s.posted .queued with posted := s.posted + 1 }
  | take (j : Nat) (hpc : s.job j = .queued) :
      Effect s (.take j)
        { setJob s j .taken with pendingPoolDispatches := s.pendingPoolDispatches - 1 }
  | addSum (j : Nat) (hpc : s.job j = .taken) :
      Effect s (.addSum j)
        { setJob s j .summed with
          dispatchLatencySumUs := wrapU64 (s.dispatchLatencySumUs + us j) }
  | addCount (j : Nat) (hpc : s.job j = .summed) :
      Effect s (.addCount j)
        { setJob s j .recording with dispatchLatencyCount := s.dispatchLatencyCount + 1 }
  | maximum (a : AtomicMax.Act Nat) (hpc : s.job a.caller = .recording) :
      Effect s (.maximum a)
        { s with dispatchLatencyMaxUs := AtomicMax.step us s.dispatchLatencyMaxUs a }
  | work (j : Nat) (hpc : s.job j = .recording) (hmax : s.dispatchLatencyMaxUs.pc j = .after) :
      Effect s (.work j) (setJob s j .finished)

theorem step_effect (s : Pool π) (a : Act π) :
    Effect maxPending us s a (step maxPending us s a) := by
  cases a with
  | check p =>
      simp only [step]
      split
      · split
        · exact .discard p ‹_› ‹_›
        · exact .pass p ‹_› (Bool.eq_false_iff.mpr ‹_›)
      · exact .idle _
  | count p =>
      simp only [step]
      split
      · exact .count p ‹_›
      · exact .idle _
  | post p =>
      simp only [step]
      split
      · exact .post p ‹_›
      · exact .idle _
  | take j =>
      simp only [step]
      split
      · exact .take j ‹_›
      · exact .idle _
  | addSum j =>
      simp only [step]
      split
      · exact .addSum j ‹_›
      · exact .idle _
  | addCount j =>
      simp only [step]
      split
      · exact .addCount j ‹_›
      · exact .idle _
  | maximum a =>
      simp only [step]
      split
      · exact .maximum a ‹_›
      · exact .idle _
  | work j =>
      simp only [step]
      split
      · exact .work j ‹_› ‹_›
      · exact .idle _

end Effects

/-! ## What the counters hold -/

section Tally

variable [Fintype π] {maxPending : Nat} {us : Nat → Nat}

/-- **The invariant.**  Dispatches pending are those counted and not yet posted and
    those in the queue; the statistics are over the jobs past their two additions. -/
structure Tally (us : Nat → Nat) (s : Pool π) : Prop where
  absent_iff : ∀ j, s.job j = .absent ↔ s.posted ≤ j
  pending_eq : s.pendingPoolDispatches = (callsAt s .counted).card + (queued s).card
  sum_eq : s.dispatchLatencySumUs = wrapU64 (∑ j ∈ inSum s, us j)
  count_eq : s.dispatchLatencyCount = (inCount s).card
  maximum_sound : AtomicMax.Sound us 0 s.dispatchLatencyMaxUs
  unread : ∀ j, (s.job j).stage < 4 → s.dispatchLatencyMaxUs.pc j = .before
  returned : ∀ j, s.job j = .finished → s.dispatchLatencyMaxUs.pc j = .after

theorem tally_start (us : Nat → Nat) : Tally us (start : Pool π) where
  absent_iff j := by simp [start]
  pending_eq := by simp [start, callsAt, queued, jobsAt]
  sum_eq := by
    have hnone : inSum (start : Pool π) = ∅ := rfl
    rw [hnone]
    rfl
  count_eq := rfl
  maximum_sound := AtomicMax.sound_start us 0
  unread _ _ := rfl
  returned j h := by cases h

theorem Tally.posted_of {s : Pool π} (h : Tally us s) {j : Nat} (hpc : s.job j ≠ .absent) :
    j < s.posted :=
  Nat.lt_of_not_le (fun hle => hpc ((h.absent_iff j).mpr hle))

section Moves

variable {s : Pool π} {j : Nat} {pc : JobPc}

/-- The absent jobs after a job that was there moved on. -/
theorem Tally.absent_setJob (h : Tally us s) (hpc : s.job j ≠ .absent) (hne : pc ≠ .absent)
    (i : Nat) : (setJob s j pc).job i = .absent ↔ s.posted ≤ i := by
  show Function.update s.job j pc i = .absent ↔ s.posted ≤ i
  by_cases hi : i = j
  · subst hi
    rw [Function.update_self]
    exact ⟨fun hc => (hne hc).elim, fun hc => (hpc ((h.absent_iff i).mpr hc)).elim⟩
  · rw [Function.update_of_ne hi]
    exact h.absent_iff i

/-- A job that goes on to a stage before the loop has not read the maximum. -/
theorem Tally.unread_setJob (h : Tally us s) (hread : pc.stage < 4 → (s.job j).stage < 4)
    (i : Nat) (hi : ((setJob s j pc).job i).stage < 4) : s.dispatchLatencyMaxUs.pc i = .before := by
  have hi' : (Function.update s.job j pc i).stage < 4 := hi
  by_cases hij : i = j
  · subst hij
    rw [Function.update_self] at hi'
    exact h.unread i (hread hi')
  · rw [Function.update_of_ne hij] at hi'
    exact h.unread i hi'

theorem Tally.returned_setJob (h : Tally us s)
    (hend : pc = .finished → s.dispatchLatencyMaxUs.pc j = .after)
    (i : Nat) (hi : (setJob s j pc).job i = .finished) : s.dispatchLatencyMaxUs.pc i = .after := by
  have hi' : Function.update s.job j pc i = .finished := hi
  by_cases hij : i = j
  · subst hij
    rw [Function.update_self] at hi'
    exact hend hi'
  · rw [Function.update_of_ne hij] at hi'
    exact h.returned i hi'

end Moves

/-- A call posts its job. -/
theorem Tally.post [DecidableEq π] {s : Pool π} (h : Tally us s) {p : π}
    (hpc : s.call p = .counted) :
    Tally us { setJob (setCall s p .outside) s.posted .queued with posted := s.posted + 1 } := by
  have hcounted : (callsAt (setCall s p .outside) .counted).card + 1
      = (callsAt s .counted).card := card_leave hpc (by decide)
  have habsent : s.job s.posted = .absent := (h.absent_iff s.posted).mpr (Nat.le_refl _)
  have hnew : s.posted ∉ queued s := fun hm => Nat.lt_irrefl _ (mem_jobsAt.mp hm).1
  have hqueued : jobsAt { setJob (setCall s p .outside) s.posted .queued with
      posted := s.posted + 1 } (· = .queued) = insert s.posted (queued s) :=
    jobsAt_posted (· = .queued) _ rfl rfl
  have hsum : jobsAt { setJob (setCall s p .outside) s.posted .queued with
      posted := s.posted + 1 } (fun pc => 3 ≤ pc.stage) = inSum s :=
    jobsAt_posted (fun pc => 3 ≤ pc.stage) _ rfl rfl
  have hcount : jobsAt { setJob (setCall s p .outside) s.posted .queued with
      posted := s.posted + 1 } (fun pc => 4 ≤ pc.stage) = inCount s :=
    jobsAt_posted (fun pc => 4 ≤ pc.stage) _ rfl rfl
  refine { h with absent_iff := ?_, pending_eq := ?_, sum_eq := ?_, count_eq := ?_, unread := ?_,
                  returned := ?_ }
  · intro i
    show Function.update s.job s.posted .queued i = .absent ↔ s.posted + 1 ≤ i
    by_cases hi : i = s.posted
    · subst hi
      simp
    · rw [Function.update_of_ne hi, h.absent_iff i]
      omega
  · show s.pendingPoolDispatches = (callsAt (setCall s p .outside) .counted).card + (queued _).card
    have hold := h.pending_eq
    have hcard : (insert s.posted (queued s)).card = (queued s).card + 1 :=
      Finset.card_insert_of_notMem hnew
    unfold queued at hqueued hcard ⊢
    rw [hqueued, hcard]
    unfold queued at hold
    omega
  · show s.dispatchLatencySumUs = wrapU64 (∑ j ∈ inSum _, us j)
    unfold inSum at hsum ⊢
    rw [hsum]
    exact h.sum_eq
  · show s.dispatchLatencyCount = (inCount _).card
    unfold inCount at hcount ⊢
    rw [hcount]
    exact h.count_eq
  · exact h.unread_setJob (fun _ => by rw [habsent]; decide)
  · exact h.returned_setJob (fun hc => by cases hc)

/-- A worker takes a job: what it counts out was counted. -/
theorem Tally.take {s : Pool π} (h : Tally us s) {j : Nat} (hpc : s.job j = .queued) :
    Tally us { setJob s j .taken with pendingPoolDispatches := s.pendingPoolDispatches - 1 } := by
  have hj : j < s.posted := h.posted_of (by rw [hpc]; decide)
  have hqueued : jobsAt (setJob s j .taken) (· = .queued) = (queued s).erase j := by
    rw [jobsAt_setJob hj, if_neg (by decide)]
    rfl
  have hcard : ((queued s).erase j).card + 1 = (queued s).card :=
    Finset.card_erase_add_one (mem_jobsAt.mpr ⟨hj, hpc⟩)
  have hsum : jobsAt (setJob s j .taken) (fun pc => 3 ≤ pc.stage) = inSum s :=
    jobsAt_setJob_same hj (by rw [hpc]; decide)
  have hcount : jobsAt (setJob s j .taken) (fun pc => 4 ≤ pc.stage) = inCount s :=
    jobsAt_setJob_same hj (by rw [hpc]; decide)
  refine { h with absent_iff := ?_, pending_eq := ?_, sum_eq := ?_, count_eq := ?_, unread := ?_,
                  returned := ?_ }
  · exact h.absent_setJob (by rw [hpc]; decide) (by decide)
  · have hold := h.pending_eq
    show s.pendingPoolDispatches - 1
      = (callsAt s .counted).card + (jobsAt (setJob s j .taken) (· = .queued)).card
    rw [hqueued]
    omega
  · show s.dispatchLatencySumUs
      = wrapU64 (∑ j ∈ jobsAt (setJob s j .taken) (fun pc => 3 ≤ pc.stage), us j)
    rw [hsum]
    exact h.sum_eq
  · show s.dispatchLatencyCount = (jobsAt (setJob s j .taken) (fun pc => 4 ≤ pc.stage)).card
    rw [hcount]
    exact h.count_eq
  · exact h.unread_setJob (fun _ => by rw [hpc]; decide)
  · exact h.returned_setJob (fun hc => by cases hc)

/-- A job past both additions, or before both, leaves the statistics as they are. -/
theorem Tally.sums_setJob {s : Pool π} (h : Tally us s) {j : Nat} {pc : JobPc} (hj : j < s.posted)
    (h3 : 3 ≤ pc.stage ↔ 3 ≤ (s.job j).stage) :
    s.dispatchLatencySumUs = wrapU64 (∑ i ∈ inSum (setJob s j pc), us i) := by
  have hsum : inSum (setJob s j pc) = inSum s := jobsAt_setJob_same hj h3
  rw [hsum]
  exact h.sum_eq

theorem Tally.counts_setJob {s : Pool π} (h : Tally us s) {j : Nat} {pc : JobPc}
    (hj : j < s.posted) (h4 : 4 ≤ pc.stage ↔ 4 ≤ (s.job j).stage) :
    s.dispatchLatencyCount = (inCount (setJob s j pc)).card := by
  have hcount : inCount (setJob s j pc) = inCount s := jobsAt_setJob_same hj h4
  rw [hcount]
  exact h.count_eq

/-- A job that is not in the queue and does not go there. -/
theorem Tally.pending_setJob {s : Pool π} (h : Tally us s) {j : Nat} {pc : JobPc}
    (hj : j < s.posted) (hpc : s.job j ≠ .queued) (hne : pc ≠ .queued) :
    s.pendingPoolDispatches = (callsAt s .counted).card + (queued (setJob s j pc)).card := by
  have hqueued : queued (setJob s j pc) = queued s :=
    jobsAt_setJob_same hj ⟨fun hc => (hne hc).elim, fun hc => (hpc hc).elim⟩
  rw [hqueued]
  exact h.pending_eq

theorem Tally.addSum {s : Pool π} (h : Tally us s) {j : Nat} (hpc : s.job j = .taken) :
    Tally us { setJob s j .summed with
      dispatchLatencySumUs := wrapU64 (s.dispatchLatencySumUs + us j) } := by
  have hj : j < s.posted := h.posted_of (by rw [hpc]; decide)
  have hnew : j ∉ inSum s := by
    intro hm
    have hstage := (mem_jobsAt.mp hm).2
    rw [hpc] at hstage
    exact absurd hstage (by decide)
  have hsum : inSum (setJob s j .summed) = insert j (inSum s) := by
    unfold inSum
    rw [jobsAt_setJob hj, if_pos (by decide)]
  refine { h with absent_iff := ?_, pending_eq := ?_, sum_eq := ?_, count_eq := ?_, unread := ?_,
                  returned := ?_ }
  · exact h.absent_setJob (by rw [hpc]; decide) (by decide)
  · exact h.pending_setJob hj (by rw [hpc]; decide) (by decide)
  · show wrapU64 (s.dispatchLatencySumUs + us j) = wrapU64 (∑ i ∈ inSum (setJob s j .summed), us i)
    rw [hsum, Finset.sum_insert hnew, h.sum_eq]
    simp only [wrapU64]
    omega
  · exact h.counts_setJob hj (by rw [hpc]; decide)
  · exact h.unread_setJob (fun _ => by rw [hpc]; decide)
  · exact h.returned_setJob (fun hc => by cases hc)

theorem Tally.addCount {s : Pool π} (h : Tally us s) {j : Nat} (hpc : s.job j = .summed) :
    Tally us { setJob s j .recording with dispatchLatencyCount := s.dispatchLatencyCount + 1 } := by
  have hj : j < s.posted := h.posted_of (by rw [hpc]; decide)
  have hnew : j ∉ inCount s := by
    intro hm
    have hstage := (mem_jobsAt.mp hm).2
    rw [hpc] at hstage
    exact absurd hstage (by decide)
  have hcount : inCount (setJob s j .recording) = insert j (inCount s) := by
    unfold inCount
    rw [jobsAt_setJob hj, if_pos (by decide)]
  refine { h with absent_iff := ?_, pending_eq := ?_, sum_eq := ?_, count_eq := ?_, unread := ?_,
                  returned := ?_ }
  · exact h.absent_setJob (by rw [hpc]; decide) (by decide)
  · exact h.pending_setJob hj (by rw [hpc]; decide) (by decide)
  · exact h.sums_setJob hj (by rw [hpc]; decide)
  · show s.dispatchLatencyCount + 1 = (inCount (setJob s j .recording)).card
    rw [hcount, Finset.card_insert_of_notMem hnew, h.count_eq]
  · exact h.unread_setJob (fun hlt => absurd hlt (by decide))
  · exact h.returned_setJob (fun hc => by cases hc)

/-- A job in the loop works on the maximum. -/
theorem Tally.maximum {s : Pool π} (h : Tally us s) {a : AtomicMax.Act Nat}
    (hpc : s.job a.caller = .recording) :
    Tally us { s with dispatchLatencyMaxUs := AtomicMax.step us s.dispatchLatencyMaxUs a } := by
  have he := AtomicMax.step_effect us s.dispatchLatencyMaxUs a
  refine { h with maximum_sound := h.maximum_sound.step a, unread := ?_, returned := ?_ }
  · intro i hi
    have hne : i ≠ a.caller := by
      intro hia
      have hstage : (s.job i).stage < 4 := hi
      rw [hia, hpc] at hstage
      exact absurd hstage (by decide)
    exact (he.pc_other hne).trans (h.unread i hi)
  · intro i hi
    have hne : i ≠ a.caller := by
      intro hia
      have hend : s.job i = .finished := hi
      rw [hia, hpc] at hend
      cases hend
    exact (he.pc_other hne).trans (h.returned i hi)

theorem Tally.work {s : Pool π} (h : Tally us s) {j : Nat} (hpc : s.job j = .recording)
    (hmax : s.dispatchLatencyMaxUs.pc j = .after) : Tally us (setJob s j .finished) := by
  have hj : j < s.posted := h.posted_of (by rw [hpc]; decide)
  refine { h with absent_iff := ?_, pending_eq := ?_, sum_eq := ?_, count_eq := ?_, unread := ?_,
                  returned := ?_ }
  · exact h.absent_setJob (by rw [hpc]; decide) (by decide)
  · exact h.pending_setJob hj (by rw [hpc]; decide) (by decide)
  · exact h.sums_setJob hj (by rw [hpc]; decide)
  · exact h.counts_setJob hj (by rw [hpc]; decide)
  · exact h.unread_setJob (fun hlt => absurd hlt (by decide))
  · exact h.returned_setJob (fun _ => hmax)

variable [DecidableEq π]

/-- **STEP LEMMA**. -/
theorem Tally.effect {s t : Pool π} {a : Act π} (h : Tally us s)
    (he : Effect maxPending us s a t) : Tally us t := by
  cases he with
  | idle => exact h
  | discard p hpc hfull => exact { h with }
  | pass p hpc hroom =>
      refine { h with pending_eq := ?_ }
      have hcounted : callsAt (setCall s p .admitted) .counted = callsAt s .counted :=
        callsAt_beside (by rw [hpc]; decide) (by decide)
      rw [hcounted]
      exact h.pending_eq
  | count p hpc =>
      refine { h with pending_eq := ?_ }
      have hcounted : (callsAt (setCall s p .counted) .counted).card
          = (callsAt s .counted).card + 1 := card_enter (by rw [hpc]; decide)
      have hold := h.pending_eq
      show s.pendingPoolDispatches + 1
        = (callsAt (setCall s p .counted) .counted).card + (queued s).card
      omega
  | post p hpc => exact h.post hpc
  | take j hpc => exact h.take hpc
  | addSum j hpc => exact h.addSum hpc
  | addCount j hpc => exact h.addCount hpc
  | maximum a hpc => exact h.maximum hpc
  | work j hpc hmax => exact h.work hpc hmax

theorem Tally.step {s : Pool π} (h : Tally us s) (a : Act π) :
    Tally us (step maxPending us s a) :=
  h.effect (step_effect maxPending us s a)

/-- **RUN LEMMA**. -/
theorem tally_run (acts : List (Act π)) : Tally us (run (H2Pool.step maxPending us) start acts) :=
  run_invariant (I := Tally us) (fun _ a h => h.step a) acts _ (tally_start us)

end Tally

/-! ## The limit -/

section Limit

variable [Fintype π] [DecidableEq π] (maxPending : Nat) (us : Nat → Nat)

/-- With a limit, the dispatches pending and the calls past the check stay below the
    limit and the number of calls that can be at the same time. -/
def WithinLimit (s : Pool π) : Prop :=
  0 < maxPending →
    s.pendingPoolDispatches + (callsAt s .admitted).card + 1 ≤ maxPending + Fintype.card π

omit [DecidableEq π] in
theorem withinLimit_start : WithinLimit maxPending (start : Pool π) := by
  intro hlimit
  have hnone : callsAt (start : Pool π) .admitted = ∅ :=
    Finset.filter_eq_empty_iff.mpr (fun _ _ hc => by cases hc)
  rw [hnone]
  simp only [start, Finset.card_empty]
  omega

variable {maxPending us}

/-- **STEP LEMMA**: only a call that found room adds to the sum. -/
theorem WithinLimit.effect {s t : Pool π} {a : Act π} (h : WithinLimit maxPending s)
    (he : Effect maxPending us s a t) : WithinLimit maxPending t := by
  intro hlimit
  have hold := h hlimit
  cases he with
  | idle => exact hold
  | discard p hpc hfull => exact hold
  | pass p hpc hroom =>
      have hfree : s.pendingPoolDispatches < maxPending := by
        simp only [congested, hlimit, decide_true, Bool.true_and, decide_eq_false_iff_not,
          not_le] at hroom
        exact hroom
      have hcalls : (callsAt (setCall s p .admitted) .admitted).card ≤ Fintype.card π :=
        Finset.card_le_univ _
      show s.pendingPoolDispatches + (callsAt (setCall s p .admitted) .admitted).card + 1
        ≤ maxPending + Fintype.card π
      omega
  | count p hpc =>
      have hleft : (callsAt (setCall s p .counted) .admitted).card + 1
          = (callsAt s .admitted).card := card_leave hpc (by decide)
      show s.pendingPoolDispatches + 1 + (callsAt (setCall s p .counted) .admitted).card + 1
        ≤ maxPending + Fintype.card π
      omega
  | post p hpc =>
      have hsame : callsAt (setCall s p .outside) .admitted = callsAt s .admitted :=
        callsAt_beside (by rw [hpc]; decide) (by decide)
      show s.pendingPoolDispatches + (callsAt (setCall s p .outside) .admitted).card + 1
        ≤ maxPending + Fintype.card π
      rw [hsame]
      exact hold
  | take j hpc =>
      show s.pendingPoolDispatches - 1 + (callsAt s .admitted).card + 1
        ≤ maxPending + Fintype.card π
      omega
  | addSum j hpc => exact hold
  | addCount j hpc => exact hold
  | maximum a hpc => exact hold
  | work j hpc hmax => exact hold

/-- A call of `postToPool` begins. -/
def begins (s : Pool π) : Act π → Bool
  | .check p => decide (s.call p = .outside)
  | _ => false

/-- The calls that were discarded, have posted or are under way. -/
def accounted (s : Pool π) : Nat :=
  s.discardedDispatches + s.posted + (callsAt s .admitted).card + (callsAt s .counted).card

/-- They stay the same in a step that begins no call. -/
theorem accounted_effect {s t : Pool π} {a : Act π} (he : Effect maxPending us s a t)
    (hnot : begins s a = false) : accounted t = accounted s := by
  cases he with
  | idle => rfl
  | discard p hpc hfull => simp [begins, hpc] at hnot
  | pass p hpc hroom => simp [begins, hpc] at hnot
  | count p hpc =>
      have hout : (callsAt (setCall s p .counted) .admitted).card + 1
          = (callsAt s .admitted).card := card_leave hpc (by decide)
      have hin : (callsAt (setCall s p .counted) .counted).card
          = (callsAt s .counted).card + 1 := card_enter (by rw [hpc]; decide)
      show s.discardedDispatches + s.posted + (callsAt (setCall s p .counted) .admitted).card
        + (callsAt (setCall s p .counted) .counted).card = accounted s
      unfold accounted
      omega
  | post p hpc =>
      have hout : (callsAt (setCall s p .outside) .counted).card + 1
          = (callsAt s .counted).card := card_leave hpc (by decide)
      have hbeside : callsAt (setCall s p .outside) .admitted = callsAt s .admitted :=
        callsAt_beside (by rw [hpc]; decide) (by decide)
      show s.discardedDispatches + (s.posted + 1) + (callsAt (setCall s p .outside) .admitted).card
        + (callsAt (setCall s p .outside) .counted).card = accounted s
      unfold accounted
      rw [hbeside]
      omega
  | take j hpc => rfl
  | addSum j hpc => rfl
  | addCount j hpc => rfl
  | maximum a hpc => rfl
  | work j hpc hmax => rfl

variable (maxPending us)

/-- Only the beginning of a call adds to them. -/
theorem accounted_step (s : Pool π) (a : Act π) :
    accounted (step maxPending us s a) = accounted s + if begins s a then 1 else 0 := by
  by_cases hbegin : begins s a = true
  · cases a with
    | check p =>
        have hpc : s.call p = .outside := by simpa [begins] using hbegin
        simp only [step, hpc, if_true, hbegin]
        split
        · show s.discardedDispatches + 1 + s.posted + (callsAt s .admitted).card
              + (callsAt s .counted).card = accounted s + 1
          unfold accounted
          omega
        · have hin : (callsAt (setCall s p .admitted) .admitted).card
              = (callsAt s .admitted).card + 1 := card_enter (by rw [hpc]; decide)
          have hbeside : callsAt (setCall s p .admitted) .counted = callsAt s .counted :=
            callsAt_beside (by rw [hpc]; decide) (by decide)
          show s.discardedDispatches + s.posted + (callsAt (setCall s p .admitted) .admitted).card
              + (callsAt (setCall s p .admitted) .counted).card = accounted s + 1
          unfold accounted
          rw [hin, hbeside]
          omega
    | _ => cases hbegin
  · rw [if_neg hbegin, Nat.add_zero]
    exact accounted_effect (step_effect maxPending us s a) (Bool.eq_false_iff.mpr hbegin)

/-- The state at the end of a run. -/
def reached (acts : List (Act π)) : Pool π := run (step maxPending us) start acts

theorem withinLimit_run (acts : List (Act π)) :
    WithinLimit maxPending (reached maxPending us acts) :=
  run_invariant (I := WithinLimit maxPending)
    (fun s a h => h.effect (step_effect maxPending us s a)) acts _ (withinLimit_start maxPending)

/-- Every call that began was discarded, has posted its job or is under way. -/
theorem accounted_run (acts : List (Act π)) :
    accounted (reached maxPending us acts)
      = countSteps (step maxPending us) begins (start : Pool π) acts := by
  have hgrowth := countSteps_eq_growth (I := fun _ => True) (fun _ _ _ => True.intro)
    (fun s a _ => accounted_step maxPending us s a) acts (start : Pool π) True.intro
  have hzero : accounted (start : Pool π) = 0 := by
    simp [accounted, start, callsAt]
  rw [hzero, Nat.zero_add] at hgrowth
  exact hgrowth

end Limit

/-! ## How far the limit is exceeded -/

section Tight

variable [DecidableEq π] (limit : Nat) (us : Nat → Nat)

omit [DecidableEq π] in
theorem congested_of_lt {s : Pool π} (hroom : s.pendingPoolDispatches < limit + 1) :
    congested (limit + 1) s = false := by
  have hnot : ¬ limit + 1 ≤ s.pendingPoolDispatches := by omega
  rw [congested, decide_eq_false hnot, Bool.and_false]

/-- A call that finds room posts its job. -/
theorem one_call (s : Pool π) (p : π) (hpc : s.call p = .outside)
    (hroom : s.pendingPoolDispatches < limit + 1) :
    (run (step (limit + 1) us) s [.check p, .count p, .post p]).pendingPoolDispatches
        = s.pendingPoolDispatches + 1
      ∧ (run (step (limit + 1) us) s [.check p, .count p, .post p]).call = s.call := by
  have hfree : congested (limit + 1) s = false := congested_of_lt limit hroom
  have hback : Function.update s.call p .outside = s.call := by
    rw [← hpc]
    exact Function.update_eq_self p s.call
  constructor <;> simp [step, hpc, hfree, setCall, setJob, hback]

/-- One call after the other posts a job. -/
theorem fill (p : π) (n : Nat) (hn : n ≤ limit) :
    ∃ acts, (reached (limit + 1) us acts : Pool π).pendingPoolDispatches = n
      ∧ ∀ q, (reached (limit + 1) us acts : Pool π).call q = .outside := by
  induction n with
  | zero => exact ⟨[], rfl, fun _ => rfl⟩
  | succ n ih =>
      obtain ⟨acts, hpending, houtside⟩ := ih (Nat.le_of_succ_le hn)
      obtain ⟨hone, hcalls⟩ := one_call limit us (reached (limit + 1) us acts) p (houtside p)
        (by rw [hpending]; omega)
      refine ⟨acts ++ [.check p, .count p, .post p], ?_, ?_⟩
      · unfold reached at hone hpending ⊢
        rw [run_append, hone, hpending]
      · intro q
        unfold reached at hcalls houtside ⊢
        rw [run_append, hcalls, houtside q]

/-- Calls at the same time pass the check one after the other. -/
theorem pass_all (ps : List π) (hps : ps.Nodup) (s : Pool π)
    (hroom : s.pendingPoolDispatches < limit + 1) (hout : ∀ p ∈ ps, s.call p = .outside) :
    (run (step (limit + 1) us) s (ps.map Act.check)).pendingPoolDispatches
        = s.pendingPoolDispatches
      ∧ ∀ q, (run (step (limit + 1) us) s (ps.map Act.check)).call q
        = if q ∈ ps then .admitted else s.call q := by
  induction ps generalizing s with
  | nil => exact ⟨rfl, fun q => by simp⟩
  | cons p ps ih =>
      obtain ⟨hp, hps⟩ := List.nodup_cons.mp hps
      have hfree : congested (limit + 1) s = false := congested_of_lt limit hroom
      have hstep : step (limit + 1) us s (.check p) = setCall s p .admitted := by
        simp [step, hout p (List.mem_cons_self), hfree]
      obtain ⟨hpending, hcalls⟩ := ih hps (setCall s p .admitted) hroom (fun q hq => by
        have hne : q ≠ p := fun hqp => hp (hqp ▸ hq)
        simp [setCall, hne, hout q (List.mem_cons_of_mem p hq)])
      rw [List.map_cons, run_cons, hstep]
      refine ⟨hpending, fun q => ?_⟩
      rw [hcalls q]
      by_cases hqp : q = p
      · subst hqp
        simp [setCall]
      · simp [setCall, hqp]

/-- Calls past the check count themselves whatever the others did. -/
theorem count_all (ps : List π) (hps : ps.Nodup) (s : Pool π)
    (hin : ∀ p ∈ ps, s.call p = .admitted) :
    (run (step (limit + 1) us) s (ps.map Act.count)).pendingPoolDispatches
      = s.pendingPoolDispatches + ps.length := by
  induction ps generalizing s with
  | nil => rfl
  | cons p ps ih =>
      obtain ⟨hp, hps⟩ := List.nodup_cons.mp hps
      have hrest := ih hps (step (limit + 1) us s (.count p)) (fun q hq => by
        have hne : q ≠ p := fun hqp => hp (hqp ▸ hq)
        simp [step, hin p List.mem_cons_self, setCall, hne, hin q (List.mem_cons_of_mem p hq)])
      have hone : (step (limit + 1) us s (.count p)).pendingPoolDispatches
          = s.pendingPoolDispatches + 1 := by
        simp [step, hin p List.mem_cons_self]
      rw [List.map_cons, run_cons, hrest, hone, List.length_cons]
      omega

variable [Fintype π]

/-- The limit is exceeded by as many dispatches as calls can be at the same time, less one. -/
theorem pending_reaches (p : π) :
    ∃ acts, (reached (limit + 1) us acts : Pool π).pendingPoolDispatches
      = limit + Fintype.card π := by
  obtain ⟨acts, hpending, houtside⟩ := fill limit us p limit (Nat.le_refl _)
  have hnodup : (Finset.univ : Finset π).toList.Nodup := Finset.nodup_toList _
  obtain ⟨hsame, hcalls⟩ := pass_all limit us _ hnodup (reached (limit + 1) us acts)
    (by rw [hpending]; omega) (fun q _ => houtside q)
  have hcount := count_all limit us _ hnodup _ (fun q hq => by rw [hcalls q, if_pos hq])
  refine ⟨acts ++ (Finset.univ.toList.map Act.check ++ Finset.univ.toList.map Act.count), ?_⟩
  unfold reached at hsame hcount hpending ⊢
  rw [run_append, run_append, hcount, hsame, hpending, Finset.length_toList, Finset.card_univ]

end Tight

section Statistics

variable [DecidableEq π] (maxPending : Nat) (us : Nat → Nat)

/-- The step on the maximum that a step of the pool is. -/
def loopAct (s : Pool π) : Act π → List (AtomicMax.Act Nat)
  | .maximum a => if s.job a.caller = .recording then [a] else []
  | _ => []

/-- The steps on the maximum of a run of the pool. -/
def loopActs : Pool π → List (Act π) → List (AtomicMax.Act Nat)
  | _, [] => []
  | s, a :: acts => loopAct s a ++ loopActs (step maxPending us s a) acts

/-- A test of the steps on the maximum, as a test of the steps of the pool. -/
def inLoop (test : AtomicMax.State Nat Nat → AtomicMax.Act Nat → Bool) (s : Pool π) :
    Act π → Bool
  | .maximum a => decide (s.job a.caller = .recording) && test s.dispatchLatencyMaxUs a
  | _ => false

theorem maximum_step (s : Pool π) (a : Act π) :
    (step maxPending us s a).dispatchLatencyMaxUs
      = run (AtomicMax.step us) s.dispatchLatencyMaxUs (loopAct s a) := by
  cases a with
  | maximum a =>
      simp only [step, loopAct]
      split <;> rfl
  | check p =>
      simp only [step]
      split
      · split <;> rfl
      · rfl
  | _ =>
      simp only [step]
      split <;> rfl

/-- **REFINEMENT**: what a run of the pool does to the maximum is a run of callers that
    raise it. -/
theorem maximum_run (acts : List (Act π)) (s : Pool π) :
    (run (step maxPending us) s acts).dispatchLatencyMaxUs
      = run (AtomicMax.step us) s.dispatchLatencyMaxUs (loopActs maxPending us s acts) := by
  induction acts generalizing s with
  | nil => rfl
  | cons a acts ih => rw [run_cons, ih, maximum_step, loopActs, run_append]

/-- The two runs have as many steps of a kind. -/
theorem countSteps_inLoop (test : AtomicMax.State Nat Nat → AtomicMax.Act Nat → Bool)
    (acts : List (Act π)) (s : Pool π) :
    countSteps (step maxPending us) (inLoop test) s acts
      = countSteps (AtomicMax.step us) test s.dispatchLatencyMaxUs
          (loopActs maxPending us s acts) := by
  induction acts generalizing s with
  | nil => rfl
  | cons a acts ih =>
      rw [countSteps, ih, maximum_step, loopActs]
      cases a with
      | maximum a =>
          by_cases hpc : s.job a.caller = .recording <;> simp [inLoop, loopAct, hpc, countSteps]
      | _ => simp [inLoop, loopAct]

/-- A job that has returned from the loop is counted. -/
theorem returned_counted [Fintype π] (acts : List (Act π)) (j : Nat)
    (h : (reached maxPending us acts).dispatchLatencyMaxUs.pc j = .after) :
    j ∈ inCount (reached maxPending us acts) := by
  have htally : Tally us (reached maxPending us acts) := tally_run acts
  have hstage : 4 ≤ ((reached maxPending us acts).job j).stage := by
    by_contra hlt
    have hbefore := htally.unread j (Nat.lt_of_not_le hlt)
    rw [h] at hbefore
    cases hbefore
  refine mem_jobsAt.mpr ⟨htally.posted_of (fun habsent => ?_), hstage⟩
  rw [habsent] at hstage
  exact absurd hstage (by decide)

end Statistics

/-- **DISPATCH LATENCY**: in every state of every run, however the workers interleave and
    however often an exchange fails for no reason, the count and the sum are those of the
    jobs past the two additions, the maximum is the greatest latency of the jobs that have
    returned from the loop (0 before there is one), every job that is done is among these
    and they are among those counted; and a job tries again, but for exchanges that fail
    for no reason, at most as often as others raise the maximum. -/
theorem latency_statistics [DecidableEq π] [Fintype π] (maxPending : Nat) (us : Nat → Nat)
    (acts : List (Act π)) :
    (reached maxPending us acts).dispatchLatencyCount = (inCount (reached maxPending us acts)).card
    ∧ (reached maxPending us acts).dispatchLatencySumUs
      = wrapU64 (∑ j ∈ inSum (reached maxPending us acts), us j)
    ∧ IsGreatest {x | x = 0 ∨ ∃ j, (reached maxPending us acts).dispatchLatencyMaxUs.pc j = .after
        ∧ x = us j} (reached maxPending us acts).dispatchLatencyMaxUs.register
    ∧ (∀ j, (reached maxPending us acts).job j = .finished →
        (reached maxPending us acts).dispatchLatencyMaxUs.pc j = .after)
    ∧ (∀ j, (reached maxPending us acts).dispatchLatencyMaxUs.pc j = .after →
        j ∈ inCount (reached maxPending us acts))
    ∧ ∀ j, countSteps (step maxPending us) (inLoop (AtomicMax.beaten us j)) (start : Pool π) acts
        ≤ countSteps (step maxPending us) (inLoop (AtomicMax.raisedByOther us j))
            (start : Pool π) acts := by
  have htally : Tally us (reached maxPending us acts) := tally_run acts
  refine ⟨htally.count_eq, htally.sum_eq, ?_, htally.returned, returned_counted maxPending us acts,
    fun j => ?_⟩
  · unfold reached
    rw [maximum_run]
    exact AtomicMax.register_isGreatest _
  · rw [countSteps_inLoop, countSteps_inLoop]
    exact AtomicMax.beaten_le_raises us j 0 _

end H2Pool
