import H2agent.ChainEndpointProofs

/-! # The sequence of a request

    A trigger puts the number of its request into the counter of the provision, and the
    request reads it back when it is transformed and when it is sent; a timer and the next
    step of a chain hand their number on as an argument.  A negative argument stands for
    the counter as well, and everybody writes the counter.

    `sequences_kept_iff`: every execution for a number uses this number exactly in the
    runs in which, wherever the counter is read for it, the counter still holds it. -/

namespace H2ClientFlow

open H2ClientProvision H2Convert H2Endpoint H2Key H2Source H2Store H2Target H2Transformation
open H2Trigger StepRun

/-! ## What is read of a sequence -/

/-- A provision at the sequence a call works with. -/
def ProvisionObject.at (p : ProvisionObject) (n : Int) : H2ClientProvision.AdminClientProvision :=
  { p.loaded with seq := n }

theorem withSequence_eq {p : ProvisionObject} {seq n : Int} (h : p.sequenceFor seq = n)
    (w : World) : p.current.withSequence seq w = (p.at n).withSequence n w := by
  have hread : (if seq ≥ 0 then seq else p.current.seq) = if n ≥ 0 then n else (p.at n).seq := by
    rw [show (if seq ≥ 0 then seq else p.current.seq) = n from h]
    split <;> rfl
  rw [AdminClientProvision.withSequence, AdminClientProvision.withSequence, hread]

/-- Nothing of `transform` depends on the counter but the sequence it works with. -/
theorem transform_at {p : ProvisionObject} {seq n : Int} (h : p.sequenceFor seq = n) (env : Env)
    (w : World) : p.current.transform env seq w = (p.at n).transform env n w := by
  have hitems : p.current.runItems env seq w = (p.at n).runItems env n w := by
    simp only [AdminClientProvision.runItems, AdminClientProvision.start, withSequence_eq h]
    rfl
  simp only [AdminClientProvision.transform, hitems]
  rfl

/-- Neither does `transformResponse`. -/
theorem transformResponse_at {p : ProvisionObject} {seq n : Int} (h : p.sequenceFor seq = n)
    (env : Env) (requestUri : String) (requestHeaders : HeaderMap) (received : ReceivedResponse)
    (sendSeq : Nat) (outState : String) (w : World) :
    p.current.transformResponse env requestUri requestHeaders received sendSeq outState seq w
      = (p.at n).transformResponse env requestUri requestHeaders received sendSeq outState n w := by
  have hitems : p.current.runResponseItems env requestUri requestHeaders received sendSeq outState
      seq w = (p.at n).runResponseItems env requestUri requestHeaders received sendSeq outState n
        w := by
    simp only [AdminClientProvision.runResponseItems, AdminClientProvision.startResponse,
      withSequence_eq h]
    rfl
  simp only [AdminClientProvision.transformResponse, hitems]
  rfl

/-! ## What is noted -/

/-- The executions an act notes: a transformation, a sending, and the transformation and
    the storage of a response.  By `transform_at` and `transformResponse_at` the sequence
    that is noted is the one the transformation works with. -/
def Flow.notes (s : Flow) : Act → List (Option Int × Int)
  | .transform j _ =>
      match s.chains j with
      | some (.entered c) =>
          [(c.captured, (s.provisions.objects c.provision).sequenceFor c.seq)]
      | _ => []
  | .send j =>
      match s.chains j with
      | some (.built c _) =>
          [(c.captured, (s.provisions.objects c.provision).sequenceFor c.seq)]
      | _ => []
  | .response j _ response =>
      match s.chains j with
      | some (.sent c _ m) =>
          (match s.provisions.find c.inState m.clientProvisionId with
            | none => []
            | some p => [(c.captured, (s.provisions.objects p).sequenceFor m.provisionSeq)])
          ++ if 0 < response.statusCode && s.clientData then [(c.captured, m.provisionSeq)] else []
      | _ => []
  | _ => []

theorem noteResponse_executions (s : Flow) (c : Call) (m : Sending) :
    (s.noteResponse c m).executions = s.executions
      ++ match s.provisions.find c.inState m.clientProvisionId with
        | none => []
        | some p => [(c.captured, (s.provisions.objects p).sequenceFor m.provisionSeq)] := by
  rw [Flow.noteResponse]
  cases s.provisions.find c.inState m.clientProvisionId with
  | none => exact (List.append_nil _).symm
  | some p => rfl

theorem conclude_executions (s : Flow) (lib : Lib) (j : Nat) (c : Call) (r : Request) (m : Sending)
    (response : Response) (valid : Bool) (outState : String) :
    (s.conclude lib j c r m response valid outState).executions = s.executions
      ++ if 0 < response.statusCode && s.clientData then [(c.captured, m.provisionSeq)]
        else [] := by
  rw [(conclude_kept s lib j c r m response valid outState).executions]
  split
  · next hstatus =>
      have hnot : decide (0 < response.statusCode) = false := decide_eq_false (by omega)
      rw [hnot, Bool.false_and, if_neg Bool.false_ne_true, List.append_nil]
  · next hstatus =>
      have hpos : decide (0 < response.statusCode) = true := decide_eq_true (by omega)
      rw [hpos, Bool.true_and]
      simp only [Flow.store]
      split
      · rfl
      · exact (List.append_nil _).symm

/-- The executions grow by the notes of each act. -/
theorem act_executions {s t : Flow} {a : Act} (h : act s a = .ok t) :
    t.executions = s.executions ++ s.notes a := by
  have hnothing : s.executions = s.executions ++ [] := (List.append_nil _).symm
  cases a with
  | triggerClientOperation | triggerClientProvision | tick | advance =>
      exact (act_schedules h True.intro).1.executions.trans hnothing
  | transform j env =>
      rcases act_transform h with ⟨hnot, rfl⟩ | ⟨c, out, error, stage, hc, -, rfl⟩
      · simp only [Flow.notes]
        exact hnothing
      · simp only [Flow.notes, hc]
        rfl
  | send j =>
      rcases act_send h with ⟨hnot, rfl⟩ | ⟨c, r, hc, rfl⟩
      · simp only [Flow.notes]
        exact hnothing
      · simp only [Flow.notes, hc]
        rfl
  | response j env response =>
      rcases act_response h with ⟨hnot, rfl⟩ | ⟨c, r, m, valid, outState, w, hc, -, rfl⟩
      · simp only [Flow.notes]
        exact hnothing
      · simp only [Flow.notes, hc]
        rw [conclude_executions, ← List.append_assoc, ← noteResponse_executions]
        obtain ⟨executions, hnote⟩ := Flow.noteResponse_eq s c m
        rw [hnote]
  | loadEndpoint doc =>
      cases h
      split <;> exact hnothing
  | clearEndpoints | loadProvision | clearProvisions | clearEvents | configure | disturb =>
      cases h
      exact hnothing

/-! ## When the counter holds the number -/

/-- An execution for a number used this number. -/
def Faithful (x : Option Int × Int) : Prop := ∀ n, x.1 = some n → x.2 = n

/-- Every execution so far used the number it was for. -/
def Flow.SequencesKept (s : Flow) : Prop := ∀ x ∈ s.executions, Faithful x

/-- Wherever an act reads the counter for a request, the counter holds the number of this
    request.  It is read for calls without a number that is not negative, and for
    responses of requests with a negative one. -/
def Flow.CounterHolds (s : Flow) : Act → Prop
  | .transform j _ => ∀ c n, s.chains j = some (.entered c) → c.captured = some n →
      0 ≤ c.seq ∨ (s.provisions.objects c.provision).dynamics.seq = n
  | .send j => ∀ c r n, s.chains j = some (.built c r) → c.captured = some n →
      0 ≤ c.seq ∨ (s.provisions.objects c.provision).dynamics.seq = n
  | .response j _ _ => ∀ c r m n p, s.chains j = some (.sent c r m) → c.captured = some n →
      s.provisions.find c.inState m.clientProvisionId = some p →
        0 ≤ n ∨ (s.provisions.objects p).dynamics.seq = n
  | _ => True

/-- A number that is handed on, is the number of the request. -/
structure HandsOn (s : Flow) : Prop where
  called : ∀ j stage, s.chains j = some stage → ∀ n, stage.call.captured = some n →
    0 ≤ stage.call.seq → stage.call.seq = n
  labelled : ∀ j c r m, s.chains j = some (.sent c r m) → ∀ n, c.captured = some n →
    m.provisionSeq = n

theorem handsOn_start : HandsOn {} where
  called _ _ h := nomatch h
  labelled _ _ _ _ h := nomatch h

theorem sequenceFor_iff {p : ProvisionObject} {seq n : Int} (h : 0 ≤ seq → seq = n) :
    p.sequenceFor seq = n ↔ 0 ≤ seq ∨ p.dynamics.seq = n := by
  rw [ProvisionObject.sequenceFor]
  by_cases hseq : 0 ≤ seq
  · rw [if_pos hseq]
    exact ⟨fun _ => .inl hseq, fun _ => h hseq⟩
  · rw [if_neg hseq]
    exact ⟨.inr, fun hor => hor.resolve_left hseq⟩

/-- Where a number that is handed on is the right one, the counter is what matters. -/
theorem faithful_iff {captured : Option Int} {p : ProvisionObject} {seq : Int}
    (h : ∀ n, captured = some n → 0 ≤ seq → seq = n) :
    Faithful (captured, p.sequenceFor seq)
      ↔ ∀ n, captured = some n → 0 ≤ seq ∨ p.dynamics.seq = n := by
  constructor
  · intro hused n hn
    exact (sequenceFor_iff (h n hn)).mp (hused n hn)
  · intro hread n hn
    exact (sequenceFor_iff (h n hn)).mpr (hread n hn)

section OneAct

variable {s t : Flow} {a : Act}

/-- What an act notes is right exactly when the counter holds what it is read for. -/
theorem HandsOn.notes_iff (hs : HandsOn s) :
    (∀ x ∈ s.notes a, Faithful x) ↔ s.CounterHolds a := by
  cases a with
  | transform j env =>
      simp only [Flow.notes, Flow.CounterHolds]
      constructor
      · intro h c n hc hn
        rw [hc] at h
        exact (faithful_iff (hs.called j _ hc)).mp (h _ (List.mem_singleton_self _)) n hn
      · intro h x hx
        split at hx
        · next c hc =>
            rw [List.mem_singleton.mp hx]
            exact (faithful_iff (hs.called j _ hc)).mpr (fun n hn => h c n hc hn)
        · cases hx
  | send j =>
      simp only [Flow.notes, Flow.CounterHolds]
      constructor
      · intro h c r n hc hn
        rw [hc] at h
        exact (faithful_iff (hs.called j _ hc)).mp (h _ (List.mem_singleton_self _)) n hn
      · intro h x hx
        split at hx
        · next c r hc =>
            rw [List.mem_singleton.mp hx]
            exact (faithful_iff (hs.called j _ hc)).mpr (fun n hn => h c r n hc hn)
        · cases hx
  | response j env response =>
      simp only [Flow.notes, Flow.CounterHolds]
      constructor
      · intro h c r m n p hc hn hp
        have hlabel := hs.labelled j c r m hc
        rw [hc] at h
        simp only [hp] at h
        have hread := (faithful_iff (fun n hn _ => hlabel n hn)).mp
          (h _ (List.mem_append_left _ (List.mem_singleton_self _))) n hn
        rw [hlabel n hn] at hread
        exact hread
      · intro h x hx
        split at hx
        · next c r m hc =>
            have hlabel := hs.labelled j c r m hc
            rcases List.mem_append.mp hx with hx | hx
            · split at hx
              · cases hx
              · next p hp =>
                  rw [List.mem_singleton.mp hx]
                  refine (faithful_iff (fun n hn _ => hlabel n hn)).mpr ?_
                  intro n hn
                  rw [hlabel n hn]
                  exact h c r m n p hc hn hp
            · -- the event is stored with the number of the sending
              split at hx
              · rw [List.mem_singleton.mp hx]
                exact hlabel
              · cases hx
        · cases hx
  | triggerClientOperation | triggerClientProvision | tick | advance | loadEndpoint
  | clearEndpoints | loadProvision | clearProvisions | clearEvents | configure | disturb =>
      exact ⟨fun _ => True.intro, fun _ _ hx => nomatch hx⟩

/-- **STEP LEMMA**: an act that finds the counters as they should be. -/
theorem act_handsOn (hs : HandsOn s) (ha : s.CounterHolds a) (h : act s a = .ok t) :
    HandsOn t := by
  constructor
  case called =>
    intro j stage hj n hn hseq
    rcases act_chains h hj with hold | hbrings
    · exact hs.called j stage hold n hn hseq
    · cases hbrings with
      | operation found updated sent =>
          have hnegative : ¬ (0 : Int) ≤ -1 := by decide
          exact absurd hseq hnegative
      | provision found registered permitted => cases hn
      | tick ticking => exact Option.some.inj hn
      | transform entered built => exact hs.called _ _ entered n hn hseq
      | send built => exact hs.called _ _ built n hn hseq
      | response sent on => exact hs.labelled _ _ _ _ sent n hn
  case labelled =>
    intro j c r m hj n hn
    rcases act_chains h hj with hold | hbrings
    · exact hs.labelled j c r m hold n hn
    · cases hbrings with
      | send built =>
          have hcalled := hs.called j _ built n hn
          exact (sequenceFor_iff hcalled).mpr (ha c r n built hn)

theorem sequencesKept_act (h : act s a = .ok t) :
    t.SequencesKept ↔ s.SequencesKept ∧ ∀ x ∈ s.notes a, Faithful x := by
  rw [Flow.SequencesKept, act_executions h, List.forall_mem_append]
  rfl

end OneAct

/-! ## Runs -/

/-- **SEQUENCES ARE KEPT WHERE THE COUNTER IS**: in a run, every transformation, sending and
    storage for a number used this number, exactly when each act found this number in the
    counter where it read the counter. -/
theorem sequences_kept_iff (schedule : List Act) (s : Flow)
    (hrun : runUntil act {} schedule = .ok s) :
    s.SequencesKept ↔ AllUntil act Flow.CounterHolds {} schedule := by
  constructor
  · intro hkept
    refine allUntil_of_final (I := HandsOn) (P := Flow.SequencesKept) ?_ ?_ schedule {} s
      handsOn_start hrun hkept
    · intro u a v h hv
      exact ((sequencesKept_act h).mp hv).1
    · intro u a v hu h hv
      have ha := hu.notes_iff.mp ((sequencesKept_act h).mp hv).2
      exact ⟨ha, act_handsOn hu ha h⟩
  · intro hall
    have hboth := runUntil_invariant_of (I := fun s => HandsOn s ∧ s.SequencesKept)
      (fun u a v hu ha h => ⟨act_handsOn hu.1 ha h,
        (sequencesKept_act h).mpr ⟨hu.2, hu.1.notes_iff.mpr ha⟩⟩) schedule {} s
      ⟨handsOn_start, fun _ h => nomatch h⟩ hall hrun
    exact hboth.2

/-- A trigger with a number. -/
def triggerOf (sequence : String) : TriggerQuery := { plainTrigger with sequence := sequence }

/-- One request, for the number 5. -/
def numbered : List Act :=
  [.loadEndpoint (openEndpoint "x"), .loadProvision (linkOf "initial" "" "x" mark_not_in_x),
    .triggerClientOperation "f" (triggerOf "5"), .transform 0 idleEnv, .send 0,
    .response 0 idleEnv accepted]

/-- The executions of a run that does not fail. -/
def executionsOf (schedule : List Act) : Option (List (Option Int × Int)) :=
  (runUntil act {} schedule).toOption.map Flow.executions

theorem of_executionsOf {schedule : List Act} {l : List (Option Int × Int)}
    (h : executionsOf schedule = some l) :
    ∃ s, runUntil act {} schedule = .ok s ∧ s.executions = l := by
  rw [executionsOf] at h
  cases hrun : runUntil act {} schedule with
  | error e =>
      rw [hrun] at h
      cases h
  | ok s =>
      rw [hrun] at h
      exact ⟨s, rfl, Option.some.inj h⟩

/-- It is transformed, sent, answered and stored with 5. -/
theorem numbered_request_keeps_its_number :
    executionsOf numbered = some [(some 5, 5), (some 5, 5), (some 5, 5), (some 5, 5)]
      ∧ AllUntil act Flow.CounterHolds {} numbered := by
  have hnumbers : executionsOf numbered
      = some [(some 5, 5), (some 5, 5), (some 5, 5), (some 5, 5)] := by decide +kernel
  refine ⟨hnumbers, ?_⟩
  obtain ⟨s, hrun, hexecutions⟩ := of_executionsOf hnumbers
  refine (sequences_kept_iff numbered s hrun).mp ?_
  intro x hx n hn
  rw [hexecutions] at hx
  have hfive : x = (some 5, 5) := by simpa using hx
  subst hfive
  exact Option.some.inj hn

/-- The same, and a trigger without parameters behind it. -/
def unnumbered : List Act :=
  numbered ++ [.triggerClientOperation "f" plainTrigger, .transform 1 idleEnv]

/-- The second request is for 0 and transformed with 5. -/
theorem unnumbered_request_takes_another_number :
    ¬ ∀ (schedule : List Act) (s : Flow), runUntil act {} schedule = .ok s →
      s.SequencesKept := by
  intro h
  have hnumbers : executionsOf unnumbered
      = some [(some 5, 5), (some 5, 5), (some 5, 5), (some 5, 5), (some 0, 5)] := by
    decide +kernel
  obtain ⟨s, hrun, hexecutions⟩ := of_executionsOf hnumbers
  have hkept := h unnumbered s hrun (some 0, 5) (by simp [hexecutions])
  exact absurd (hkept 0 rfl) (by decide)

end H2ClientFlow
