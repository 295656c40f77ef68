import H2agent.StepRunProofs
import H2agent.TypeConverterProofs

/-! # Waiting for a vault entry

    `WaitManager::waitForVault` and the writers it waits for, `Vault::load`.  A waiter
    evaluates its predicate and blocks on the condition variable under one mutex.  A
    writer stores under the lock of the vault and then notifies without that mutex: both
    steps can fall between the evaluation and the block of a waiter, which then sleeps
    though its predicate holds.  (`shutdown` takes the mutex, and is never missed.)

    The machine has any number of waiters and writers, and a schedule says whose step is
    next.  A step that cannot be taken changes nothing.  `no_lost_wakeup` says which
    notifications must not happen for no wake-up to be lost. -/

namespace H2Wait

open H2Convert H2Key JsonValue StepRun

/-! ## The machine -/

/-- What a call of `waitForVault` waits for; the null target is any change. -/
structure Wait where
  key : String
  targetValue : Json := .null

/-- A call of `Vault::load`. -/
structure Write where
  key : String
  value : Json

/-- Where a waiter stands.  In `entered`, `evaluating` and `deciding` it holds the
    mutex; `final` marks the evaluation after a timeout. -/
inductive WaiterPc where
  | start
  | entered
  | evaluating (previousValue : Json) (final : Bool)
  | deciding (previousValue : Json)
  | blocked (previousValue : Json)
  | woken (previousValue : Json) (timedOut : Bool)
  | done (met : Bool)

/-- The waiter holds the mutex. -/
def WaiterPc.inside : WaiterPc → Bool
  | .entered | .evaluating _ _ | .deciding _ => true
  | _ => false

/-- Where a writer stands. -/
inductive WriterPc where
  | start
  | stored
  | notified
  deriving DecidableEq, Repr

/-- `WaitManager::MAX_WAITERS`. -/
def maxWaiters : Nat := 32

/-- The vault, the wait manager and the threads.  `lastWriter` remembers which write
    stored the value of a key. -/
structure State (ι ω : Type) where
  vault : Vault
  lastWriter : String → Option ω
  writer : ω → WriterPc
  waiter : ι → WaiterPc
  mutex : Option ι
  shutdown : Bool
  activeWaiters : Nat

/-- The predicate of the wait. -/
def satisfied (w : Wait) (previousValue : Json) (shutdown : Bool) (vault : Vault) : Bool :=
  shutdown || match vault.lookup w.key with
    | none => false
    | some resultValue =>
        if w.targetValue.isNull then !(Json.beq resultValue previousValue)
        else Json.beq resultValue w.targetValue

/-- Whose step is next.  A blocked waiter can also wake up by itself. -/
inductive Act (ι ω : Type) where
  | lock (i : ι)
  | enter (i : ι)
  | evaluate (i : ι)
  | block (i : ι)
  | timeout (i : ι)
  | spurious (i : ι)
  | relock (i : ι)
  | store (w : ω)
  | notify (w : ω)
  | shutdown

section Machine

variable {ι ω : Type}

namespace State

variable (s : State ι ω)

/-- `cv_.notify_all()`. -/
def notifyAll : State ι ω :=
  { s with
    waiter := fun i => match s.waiter i with
      | .blocked previousValue => .woken previousValue false
      | pc => pc }

variable (waits : ι → Wait)

/-- The predicate of a waiter, with the value it started from. -/
def holds (i : ι) (previousValue : Json) : Bool :=
  satisfied (waits i) previousValue s.shutdown s.vault

/-- No call has begun. -/
def start (vault : Vault) : State ι ω where
  vault := vault
  lastWriter _ := none
  writer _ := .start
  waiter _ := .start
  mutex := none
  shutdown := false
  activeWaiters := 0

/-- The predicate holds, and the notification of the write that stored the value is not
    outstanding any more. -/
def Missed (i : ι) (previousValue : Json) : Prop :=
  s.holds waits i previousValue = true
    ∧ ∀ w, s.lastWriter (waits i).key = some w → s.writer w = .notified

/-- A waiter sleeps on a notification that will not come. -/
def LostWakeup : Prop :=
  ∃ i previousValue, s.waiter i = .blocked previousValue ∧ s.Missed waits i previousValue

/-- A waiter that goes to sleep has not missed the write it waits for. -/
def SleepsInTime : Act ι ω → Prop
  | .block i => ∀ previousValue, s.waiter i = .deciding previousValue →
      ¬ s.Missed waits i previousValue
  | _ => True

/-- A writer does not notify while a waiter whose predicate its store made true stands
    between its evaluation and its block. -/
def NotifiesInTime : Act ι ω → Prop
  | .notify w => s.writer w = .stored → ∀ i previousValue,
      s.waiter i = .deciding previousValue → s.lastWriter (waits i).key = some w →
        s.holds waits i previousValue = false
  | _ => True

/-- Whoever stands inside holds the mutex, and whoever is about to block has missed
    nothing. -/
structure Awake : Prop where
  mutex : ∀ i, (s.waiter i).inside = true → s.mutex = some i
  deciding : ∀ i previousValue, s.waiter i = .deciding previousValue →
    ¬ s.Missed waits i previousValue

/-! ## What nobody can miss -/

/-- Nothing of the vault and the writers changes. -/
structure Still (s t : State ι ω) : Prop where
  vault : t.vault = s.vault
  lastWriter : t.lastWriter = s.lastWriter
  writer : t.writer = s.writer
  shutdown : t.shutdown = s.shutdown

/-- And nobody goes to sleep. -/
structure Quiet (s t : State ι ω) : Prop extends Still s t where
  blocked : ∀ i previousValue, t.waiter i = .blocked previousValue →
    s.waiter i = .blocked previousValue

variable {s}

theorem Quiet.refl (s : State ι ω) : Quiet s s := ⟨⟨rfl, rfl, rfl, rfl⟩, fun _ _ h => h⟩

theorem Still.missed {t : State ι ω} (h : Still s t) {i : ι} {previousValue : Json}
    (ht : t.Missed waits i previousValue) : s.Missed waits i previousValue := by
  obtain ⟨hholds, hnotified⟩ := ht
  rw [holds, h.shutdown, h.vault] at hholds
  rw [h.lastWriter, h.writer] at hnotified
  exact ⟨hholds, hnotified⟩

theorem Quiet.lostWakeup {t : State ι ω} (h : Quiet s t) (ht : t.LostWakeup waits) :
    s.LostWakeup waits := by
  obtain ⟨i, previousValue, hblocked, hmissed⟩ := ht
  exact ⟨i, previousValue, h.blocked i previousValue hblocked, h.missed waits hmissed⟩

theorem notifyAll_not_blocked (s : State ι ω) (i : ι) (previousValue : Json) :
    s.notifyAll.waiter i ≠ .blocked previousValue := by
  intro h
  simp only [notifyAll] at h
  split at h
  · exact nomatch h
  · next hpc => exact hpc previousValue h

/-- What a wake-up leaves of a waiter inside. -/
theorem notifyAll_inside {i : ι} (h : (s.notifyAll.waiter i).inside = true) :
    s.notifyAll.waiter i = s.waiter i := by
  simp only [notifyAll] at h ⊢
  split at h
  · cases h
  · rfl

/-! ## The steps -/

section Steps

variable [DecidableEq ι] (s)

/-- Move a waiter. -/
def setWaiter (i : ι) (pc : WaiterPc) : State ι ω :=
  { s with waiter := Function.update s.waiter i pc }

/-- Leave the call: the mutex is released. -/
def leave (i : ι) (met : Bool) : State ι ω :=
  { s.setWaiter i (.done met) with mutex := none }

/-- `waitForVault` behind the lock: the waiter is rejected, is served at once, or goes on
    to wait. -/
def enter (i : ι) : State ι ω :=
  if s.activeWaiters ≥ maxWaiters then s.leave i false
  else if s.shutdown then s.leave i false
  else
    let previousValue := (s.vault.lookup (waits i).key).getD .null
    if !(waits i).targetValue.isNull && Json.beq previousValue (waits i).targetValue then
      s.leave i true
    else
      { s.setWaiter i (.evaluating previousValue false) with
        activeWaiters := s.activeWaiters + 1 }

/-- The evaluation of the predicate; behind it the call ends, or the waiter is about to
    block. -/
def evaluate (i : ι) (previousValue : Json) (final : Bool) : State ι ω :=
  if s.holds waits i previousValue then
    { s.leave i (!s.shutdown) with activeWaiters := s.activeWaiters - 1 }
  else if final then { s.leave i false with activeWaiters := s.activeWaiters - 1 }
  else s.setWaiter i (.deciding previousValue)

variable [DecidableEq ω] (writes : ω → Write)

/-- One step. -/
def step : Act ι ω → State ι ω
  | .lock i =>
      match s.waiter i, s.mutex with
      | .start, none => { s.setWaiter i .entered with mutex := some i }
      | _, _ => s
  | .enter i =>
      match s.waiter i with
      | .entered => s.enter waits i
      | _ => s
  | .evaluate i =>
      match s.waiter i with
      | .evaluating previousValue final => s.evaluate waits i previousValue final
      | _ => s
  | .block i =>
      match s.waiter i with
      | .deciding previousValue =>
          { s.setWaiter i (.blocked previousValue) with mutex := none }
      | _ => s
  | .timeout i =>
      match s.waiter i with
      | .blocked previousValue => s.setWaiter i (.woken previousValue true)
      | _ => s
  | .spurious i =>
      match s.waiter i with
      | .blocked previousValue => s.setWaiter i (.woken previousValue false)
      | _ => s
  | .relock i =>
      match s.waiter i, s.mutex with
      | .woken previousValue timedOut, none =>
          { s.setWaiter i (.evaluating previousValue timedOut) with mutex := some i }
      | _, _ => s
  | .store w =>
      match s.writer w with
      | .start =>
          { s with
            vault := s.vault.load (writes w).key (writes w).value
            lastWriter := Function.update s.lastWriter (writes w).key (some w)
            writer := Function.update s.writer w .stored }
      | _ => s
  | .notify w =>
      match s.writer w with
      | .stored => { s.notifyAll with writer := Function.update s.writer w .notified }
      | _ => s
  | .shutdown =>
      match s.mutex with
      | none => { s.notifyAll with shutdown := true }
      | some _ => s

end Steps

/-! ## One step -/

section OneStep

variable [DecidableEq ι]

/-- Only the waiter `i` moved, and not to sleep. -/
theorem quiet_of_moved {t : State ι ω} {i : ι} {pc : WaiterPc}
    (hvault : t.vault = s.vault) (hlast : t.lastWriter = s.lastWriter)
    (hwriter : t.writer = s.writer) (hshut : t.shutdown = s.shutdown)
    (hwaiter : t.waiter = Function.update s.waiter i pc)
    (hpc : ∀ previousValue, pc ≠ .blocked previousValue) : Quiet s t := by
  refine ⟨⟨hvault, hlast, hwriter, hshut⟩, ?_⟩
  intro j previousValue hj
  rw [hwaiter] at hj
  by_cases hji : j = i
  · rw [hji, Function.update_self] at hj
    exact (hpc previousValue hj).elim
  · rw [Function.update_of_ne hji] at hj
    exact hj

theorem quiet_leave (s : State ι ω) (i : ι) (met : Bool) : Quiet s (s.leave i met) :=
  quiet_of_moved rfl rfl rfl rfl rfl (fun _ h => (nomatch h))

theorem quiet_enter (s : State ι ω) (waits : ι → Wait) (i : ι) : Quiet s (s.enter waits i) := by
  simp only [enter]
  split
  · exact quiet_leave s i false
  · split
    · exact quiet_leave s i false
    · split
      · exact quiet_leave s i true
      · exact quiet_of_moved rfl rfl rfl rfl rfl (fun _ h => (nomatch h))

theorem quiet_evaluate (s : State ι ω) (waits : ι → Wait) (i : ι) (previousValue : Json)
    (final : Bool) : Quiet s (s.evaluate waits i previousValue final) := by
  simp only [evaluate]
  split
  · exact quiet_of_moved rfl rfl rfl rfl rfl (fun _ h => (nomatch h))
  · split
    · exact quiet_of_moved rfl rfl rfl rfl rfl (fun _ h => (nomatch h))
    · exact quiet_of_moved rfl rfl rfl rfl rfl (fun _ h => (nomatch h))

variable [DecidableEq ω] (writes : ω → Write)

/-- The store of a writer leaves its own notification outstanding. -/
theorem missed_of_store {w : ω} (hw : s.writer w = .start) {i : ι} {previousValue : Json}
    (h : (s.step waits writes (.store w)).Missed waits i previousValue) :
    s.Missed waits i previousValue := by
  obtain ⟨hholds, hnotified⟩ := h
  simp only [step, hw] at hholds hnotified
  by_cases hkey : (waits i).key = (writes w).key
  · -- the waiter waits for the key just stored
    have hlast : Function.update s.lastWriter (writes w).key (some w) (waits i).key = some w := by
      rw [hkey, Function.update_self]
    have hpending := hnotified w hlast
    rw [Function.update_self] at hpending
    cases hpending
  · constructor
    · rw [holds, satisfied, Vault.load, AList.lookup_insert_ne hkey] at hholds
      exact hholds
    · intro v hv
      have hlast : Function.update s.lastWriter (writes w).key (some w) (waits i).key = some v := by
        rw [Function.update_of_ne hkey, hv]
      have hdone := hnotified v hlast
      by_cases hvw : v = w
      · rw [hvw, Function.update_self] at hdone
        cases hdone
      · rw [Function.update_of_ne hvw] at hdone
        exact hdone

/-- **STEP LEMMA**: a step that is in time loses no wake-up. -/
theorem step_lostWakeup {a : Act ι ω} (ha : s.SleepsInTime waits a)
    (h : (s.step waits writes a).LostWakeup waits) : s.LostWakeup waits := by
  cases a with
  | lock i =>
      refine Quiet.lostWakeup waits ?_ h
      simp only [step]
      split
      · exact quiet_of_moved rfl rfl rfl rfl rfl (fun _ h => (nomatch h))
      · exact .refl s
  | enter i =>
      refine Quiet.lostWakeup waits ?_ h
      simp only [step]
      split
      · exact quiet_enter s waits i
      · exact .refl s
  | evaluate i =>
      refine Quiet.lostWakeup waits ?_ h
      simp only [step]
      split
      · exact quiet_evaluate s waits i _ _
      · exact .refl s
  | timeout i =>
      refine Quiet.lostWakeup waits ?_ h
      simp only [step]
      split
      · exact quiet_of_moved rfl rfl rfl rfl rfl (fun _ h => (nomatch h))
      · exact .refl s
  | spurious i =>
      refine Quiet.lostWakeup waits ?_ h
      simp only [step]
      split
      · exact quiet_of_moved rfl rfl rfl rfl rfl (fun _ h => (nomatch h))
      · exact .refl s
  | relock i =>
      refine Quiet.lostWakeup waits ?_ h
      simp only [step]
      split
      · exact quiet_of_moved rfl rfl rfl rfl rfl (fun _ h => (nomatch h))
      · exact .refl s
  | block i =>
      simp only [step] at h
      split at h
      · next previousValue hpc =>
          obtain ⟨j, value, hblocked, hmissed⟩ := h
          by_cases hji : j = i
          · -- the waiter that goes to sleep has missed nothing
            subst hji
            simp only [setWaiter, Function.update_self] at hblocked
            injection hblocked with hvalue
            subst hvalue
            exact (ha previousValue hpc hmissed).elim
          · simp only [setWaiter, Function.update_of_ne hji] at hblocked
            exact ⟨j, value, hblocked, hmissed⟩
      · exact h
  | store w =>
      cases hw : s.writer w with
      | start =>
          obtain ⟨i, previousValue, hblocked, hmissed⟩ := h
          refine ⟨i, previousValue, ?_, missed_of_store waits writes hw hmissed⟩
          simp only [step, hw] at hblocked
          exact hblocked
      | stored =>
          simp only [step, hw] at h
          exact h
      | notified =>
          simp only [step, hw] at h
          exact h
  | notify w =>
      simp only [step] at h
      split at h
      · obtain ⟨i, previousValue, hblocked, -⟩ := h
        exact (notifyAll_not_blocked s i previousValue hblocked).elim
      · exact h
  | shutdown =>
      simp only [step] at h
      split at h
      · obtain ⟨i, previousValue, hblocked, -⟩ := h
        exact (notifyAll_not_blocked s i previousValue hblocked).elim
      · exact h

/-- A step that is late loses the wake-up of its waiter. -/
theorem late_step_lostWakeup {a : Act ι ω} (ha : ¬ s.SleepsInTime waits a) :
    (s.step waits writes a).LostWakeup waits := by
  cases a with
  | block i =>
      rw [SleepsInTime] at ha
      push Not at ha
      obtain ⟨previousValue, hpc, hmissed⟩ := ha
      refine ⟨i, previousValue, ?_, ?_⟩
      · simp only [step, hpc, setWaiter, Function.update_self]
      · simp only [step, hpc]
        exact hmissed
  | lock | enter | evaluate | timeout | spurious | relock | store | notify | shutdown =>
      exact (ha True.intro).elim

end OneStep

/-! ## Runs -/

section Runs

variable {waits}

/-- Whoever is inside is the only one. -/
theorem Awake.alone (h : s.Awake waits) {i j : ι} (hij : j ≠ i)
    (hmutex : s.mutex = some i ∨ s.mutex = none) : (s.waiter j).inside = false := by
  cases hj : (s.waiter j).inside with
  | false => rfl
  | true =>
      have hheld := h.mutex j hj
      rcases hmutex with hi | hnone
      · rw [hheld] at hi
        injection hi with hji
        exact (hij hji).elim
      · rw [hheld] at hnone
        cases hnone

/-- A shutdown takes the mutex, so nobody is about to block. -/
theorem Awake.shutdown (h : s.Awake waits) (hmutex : s.mutex = none) :
    ({ s.notifyAll with shutdown := true } : State ι ω).Awake waits := by
  have hnobody : ∀ i, (s.notifyAll.waiter i).inside = true → False := by
    intro i hi
    have hsame := notifyAll_inside hi
    rw [hsame] at hi
    rw [h.mutex i hi] at hmutex
    cases hmutex
  constructor
  · intro i hi
    exact (hnobody i hi).elim
  · intro i previousValue hi hmissed
    refine hnobody i ?_
    have hpc : s.notifyAll.waiter i = .deciding previousValue := hi
    rw [hpc]
    rfl

/-- Whoever is awake goes to sleep in time. -/
theorem Awake.sleepsInTime (h : s.Awake waits) (a : Act ι ω) : s.SleepsInTime waits a := by
  cases a with
  | block i => exact fun previousValue hpc => h.deciding i previousValue hpc
  | lock | enter | evaluate | timeout | spurious | relock | store | notify | shutdown =>
      exact True.intro

theorem awake_start (waits : ι → Wait) (vault : Vault) :
    (start vault : State ι ω).Awake waits :=
  ⟨fun _ h => (nomatch h), fun _ _ h => (nomatch h)⟩

theorem not_lostWakeup_start (waits : ι → Wait) (vault : Vault) :
    ¬ (start vault : State ι ω).LostWakeup waits := by
  rintro ⟨i, previousValue, hblocked, -⟩
  cases hblocked

variable [DecidableEq ι]

/-- The waiter `i` moves. -/
theorem Awake.move (h : s.Awake waits) {t : State ι ω} {i : ι} {pc : WaiterPc}
    (hstill : Still s t) (hwaiter : t.waiter = Function.update s.waiter i pc)
    (hothers : ∀ j, j ≠ i → (s.waiter j).inside = true → t.mutex = some j)
    (hpc : pc.inside = true → t.mutex = some i)
    (hdeciding : ∀ previousValue, pc = .deciding previousValue →
      ¬ s.Missed waits i previousValue) : t.Awake waits := by
  constructor
  · intro j hj
    rw [hwaiter] at hj
    by_cases hji : j = i
    · rw [hji, Function.update_self] at hj
      rw [hji, hpc hj]
    · rw [Function.update_of_ne hji] at hj
      exact hothers j hji hj
  · intro j previousValue hj hmissed
    rw [hwaiter] at hj
    by_cases hji : j = i
    · subst hji
      rw [Function.update_self] at hj
      exact hdeciding previousValue hj (hstill.missed waits hmissed)
    · rw [Function.update_of_ne hji] at hj
      exact h.deciding j previousValue hj (hstill.missed waits hmissed)

/-- The waiter that holds the mutex, or takes it, moves. -/
theorem Awake.moveAlone (h : s.Awake waits) {t : State ι ω} {i : ι} {pc : WaiterPc}
    (hmutex : s.mutex = some i ∨ s.mutex = none) (hstill : Still s t)
    (hwaiter : t.waiter = Function.update s.waiter i pc)
    (hpc : pc.inside = true → t.mutex = some i)
    (hdeciding : ∀ previousValue, pc = .deciding previousValue →
      ¬ s.Missed waits i previousValue) : t.Awake waits := by
  refine h.move hstill hwaiter ?_ hpc hdeciding
  intro j hji hj
  rw [h.alone hji hmutex] at hj
  cases hj

theorem Awake.leave (h : s.Awake waits) {i : ι} (hmutex : s.mutex = some i) (met : Bool) :
    (s.leave i met).Awake waits :=
  h.moveAlone (.inl hmutex) ⟨rfl, rfl, rfl, rfl⟩ rfl (fun hin => (nomatch hin))
    (fun _ hpc => (nomatch hpc))

theorem Awake.enter (h : s.Awake waits) {i : ι} (hmutex : s.mutex = some i) :
    (s.enter waits i).Awake waits := by
  simp only [State.enter]
  split
  · exact h.leave hmutex false
  · split
    · exact h.leave hmutex false
    · split
      · exact h.leave hmutex true
      · exact h.moveAlone (.inl hmutex) ⟨rfl, rfl, rfl, rfl⟩ rfl (fun _ => hmutex)
          (fun _ hpc => (nomatch hpc))

/-- A waiter that goes on to block has just seen its predicate false. -/
theorem Awake.evaluate (h : s.Awake waits) {i : ι} (hmutex : s.mutex = some i)
    (previousValue : Json) (final : Bool) :
    (s.evaluate waits i previousValue final).Awake waits := by
  simp only [State.evaluate]
  split
  · exact h.moveAlone (.inl hmutex) ⟨rfl, rfl, rfl, rfl⟩ rfl (fun hin => (nomatch hin))
      (fun _ hpc => (nomatch hpc))
  · next hfalse =>
      split
      · exact h.moveAlone (.inl hmutex) ⟨rfl, rfl, rfl, rfl⟩ rfl (fun hin => (nomatch hin))
          (fun _ hpc => (nomatch hpc))
      · refine h.moveAlone (.inl hmutex) ⟨rfl, rfl, rfl, rfl⟩ rfl (fun _ => hmutex) ?_
        intro value hpc hmissed
        injection hpc with hvalue
        subst hvalue
        exact hfalse hmissed.1

variable [DecidableEq ω] (writes : ω → Write)

theorem Awake.store (h : s.Awake waits) {w : ω} (hw : s.writer w = .start) :
    (s.step waits writes (.store w)).Awake waits := by
  constructor
  · intro i hi
    simp only [step, hw] at hi ⊢
    exact h.mutex i hi
  · intro i previousValue hi hmissed
    refine h.deciding i previousValue ?_ (missed_of_store waits writes hw hmissed)
    simp only [step, hw] at hi
    exact hi

/-- A notification in time: whoever is about to block waits for another write. -/
theorem Awake.notify (h : s.Awake waits) {w : ω} (hw : s.writer w = .stored)
    (hc : s.NotifiesInTime waits (.notify w)) :
    (s.step waits writes (.notify w)).Awake waits := by
  simp only [step, hw]
  constructor
  · intro i hi
    have hsame := notifyAll_inside hi
    rw [hsame] at hi
    exact h.mutex i hi
  · intro i previousValue hi hmissed
    have hin : (s.notifyAll.waiter i).inside = true := by
      rw [hi]
      rfl
    rw [notifyAll_inside hin] at hi
    obtain ⟨hholds, hnotified⟩ := hmissed
    refine h.deciding i previousValue hi ⟨hholds, ?_⟩
    intro v hv
    have hdone := hnotified v hv
    by_cases hvw : v = w
    · subst hvw
      have hfalse : s.holds waits i previousValue = true := hholds
      rw [hc hw i previousValue hi hv] at hfalse
      cases hfalse
    · simp only [Function.update_of_ne hvw] at hdone
      exact hdone

/-- **STEP LEMMA**: the invariant of the waiters. -/
theorem step_awake {a : Act ι ω} (h : s.Awake waits) (ha : s.NotifiesInTime waits a) :
    (s.step waits writes a).Awake waits := by
  cases a with
  | lock i =>
      simp only [step]
      split
      · next hmutex =>
          exact h.moveAlone (.inr hmutex) ⟨rfl, rfl, rfl, rfl⟩ rfl (fun _ => rfl)
            (fun _ hpc => (nomatch hpc))
      · exact h
  | enter i =>
      simp only [step]
      split
      · next hpc =>
          refine h.enter (h.mutex i ?_)
          rw [hpc]
          rfl
      · exact h
  | evaluate i =>
      simp only [step]
      split
      · next hpc =>
          refine h.evaluate (h.mutex i ?_) _ _
          rw [hpc]
          rfl
      · exact h
  | block i =>
      simp only [step]
      split
      · next hpc =>
          refine h.moveAlone (.inl (h.mutex i ?_)) ⟨rfl, rfl, rfl, rfl⟩ rfl
            (fun hin => (nomatch hin)) (fun _ hpc => (nomatch hpc))
          rw [hpc]
          rfl
      · exact h
  | timeout i =>
      simp only [step]
      split
      · exact h.move ⟨rfl, rfl, rfl, rfl⟩ rfl (fun j _ hj => h.mutex j hj)
          (fun hin => (nomatch hin)) (fun _ hpc => (nomatch hpc))
      · exact h
  | spurious i =>
      simp only [step]
      split
      · exact h.move ⟨rfl, rfl, rfl, rfl⟩ rfl (fun j _ hj => h.mutex j hj)
          (fun hin => (nomatch hin)) (fun _ hpc => (nomatch hpc))
      · exact h
  | relock i =>
      simp only [step]
      split
      · next hmutex =>
          exact h.moveAlone (.inr hmutex) ⟨rfl, rfl, rfl, rfl⟩ rfl (fun _ => rfl)
            (fun _ hpc => (nomatch hpc))
      · exact h
  | store w =>
      cases hw : s.writer w with
      | start => exact h.store writes hw
      | stored => simpa only [step, hw] using h
      | notified => simpa only [step, hw] using h
  | notify w =>
      cases hw : s.writer w with
      | stored => exact h.notify writes hw ha
      | start => simpa only [step, hw] using h
      | notified => simpa only [step, hw] using h
  | shutdown =>
      simp only [step]
      split
      · next hmutex => exact h.shutdown hmutex
      · exact h

/-- A notification that is late loses the wake-up as soon as its waiter blocks. -/
theorem late_notify_lostWakeup {a : Act ι ω} (ha : ¬ s.NotifiesInTime waits a) :
    ∃ i, ((s.step waits writes a).step waits writes (.block i)).LostWakeup waits := by
  cases a with
  | notify w =>
      rw [NotifiesInTime] at ha
      push Not at ha
      obtain ⟨hw, i, previousValue, hpc, hlast, hholds⟩ := ha
      refine ⟨i, late_step_lostWakeup waits writes ?_⟩
      intro hsleeps
      refine hsleeps previousValue ?_ ⟨?_, ?_⟩
      · simp only [step, hw, notifyAll, hpc]
      · simp only [step, hw]
        exact eq_true_of_ne_false hholds
      · intro v hv
        simp only [step, hw] at hv ⊢
        have hvw : some v = some w := hv.symm.trans hlast
        injection hvw with hvw
        rw [hvw, Function.update_self]
  | lock | enter | evaluate | block | timeout | spurious | relock | store | shutdown =>
      exact (ha True.intro).elim

/-- **NO LOST WAKE-UP**: in every run in which no writer notifies while a waiter whose
    predicate its store made true stands between its evaluation and its block, no waiter
    ever sleeps on a notification that will not come; a run that has such a
    notification loses the wake-up when the waiter blocks next. -/
theorem no_lost_wakeup (waits : ι → Wait) (writes : ω → Write) (vault : Vault) :
    (∀ schedule, AllSteps (fun s a => s.step waits writes a) (fun s a => s.NotifiesInTime waits a)
        (start vault) schedule →
      ¬ (run (fun s a => s.step waits writes a) (start vault) schedule).LostWakeup waits)
    ∧ ∀ schedule a,
        ¬ (run (fun s a => s.step waits writes a) (start vault) schedule).NotifiesInTime waits a →
        ∃ i, (run (fun s a => s.step waits writes a) (start vault)
          (schedule ++ [a, .block i])).LostWakeup waits := by
  constructor
  · intro schedule hall
    have hinv := run_invariant_of
      (I := fun s : State ι ω => s.Awake waits ∧ ¬ s.LostWakeup waits)
      (fun s a hs ha => ⟨step_awake writes hs.1 ha,
        fun hlost => hs.2 (step_lostWakeup waits writes (hs.1.sleepsInTime a) hlost)⟩)
      schedule (start vault) ⟨awake_start waits vault, not_lostWakeup_start waits vault⟩ hall
    exact hinv.2
  · intro schedule a ha
    obtain ⟨i, hlost⟩ := late_notify_lostWakeup writes ha
    refine ⟨i, ?_⟩
    rw [run_append]
    exact hlost

end Runs

end State

end Machine

/-- The waiter blocks before the store: the notification finds it. -/
theorem blocked_waiter_is_woken :
    ¬ (run (fun s a => s.step (fun _ : Unit => ⟨"ready", .bool true⟩)
          (fun _ : Unit => ⟨"ready", .bool true⟩) a) (State.start ∅)
        [.lock (), .enter (), .evaluate (), .block (), .store (), .notify ()]).LostWakeup
      (fun _ => ⟨"ready", .bool true⟩) := by
  refine (State.no_lost_wakeup _ _ ∅).1 _ ?_
  refine ⟨True.intro, True.intro, True.intro, True.intro, True.intro, ?_, True.intro⟩
  intro _ i previousValue hpc
  cases hpc

/-- The store and the notification of a writer between the evaluation and the block of the
    waiter: it sleeps though the key has the value it waits for. -/
theorem wakeup_lost_before_block :
    ¬ ∀ schedule : List (Act Unit Unit),
      ¬ (run (fun s a => s.step (fun _ => ⟨"ready", .bool true⟩) (fun _ => ⟨"ready", .bool true⟩) a)
          (State.start ∅) schedule).LostWakeup (fun _ => ⟨"ready", .bool true⟩) := by
  intro h
  refine h [.lock (), .enter (), .evaluate (), .store (), .notify (), .block ()] ?_
  refine ⟨(), .null, ?_, ?_, ?_⟩
  · rfl
  · rfl
  · intro w _
    rfl

end H2Wait
