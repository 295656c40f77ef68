import H2agent.ClientFlowProofs

/-! # The endpoint of a chained request

    A trigger looks up the endpoint its provision names and tests its permit; the
    requests that follow in the chain, and the ticks of a timer, keep that endpoint OBJECT
    whatever their own provisions name.  The events they store are labelled with the name
    in the provision all the same.

    `requests_use_their_endpoint`: requests go through the endpoint registered under their
    provision's name, and permitted, in every run in which chains go on only to
    provisions of the same endpoint, and no endpoint is dropped or disabled while somebody
    keeps it. -/

namespace H2ClientFlow

open H2Convert H2Endpoint H2Key H2Store H2Transformation H2Trigger StepRun

/-! ## What a trigger checks -/

theorem updateTriggering_ticking (d : Dynamics) (q : TriggerQuery) :
    (d.updateTriggering q).2.ticking = d.ticking := by
  have hrange : ∀ b e, (d.assignRange q b e).ticking = d.ticking := by
    intro b e
    simp only [Dynamics.assignRange]
    split <;> split <;> rfl
  rw [updateTriggering_eq]
  split
  · rfl
  · split
    · exact hrange _ _
    · split
      · exact hrange _ _
      · exact hrange _ _

/-- A request is sent, or a timer started, with a permitted endpoint only. -/
theorem dispatch_permitted {admin : AdminData} {p after : Provision} {statusCode : Nat}
    (hafter : (dispatch admin p statusCode).provision = some after)
    (h : (dispatch admin p statusCode).sent = true
      ∨ (after.dynamics.ticking = true ∧ p.dynamics.ticking = false)) :
    admin.findEndpoint p.clientEndpointId = some true := by
  simp only [dispatch] at hafter h
  split at h
  · next hnone =>
      simp only [hnone] at hafter
      injection hafter with hafter
      subst hafter
      rcases h with h | ⟨hon, hoff⟩
      · cases h
      · rw [hoff] at hon
        cases hon
  · next hfalse =>
      simp only [hfalse] at hafter
      injection hafter with hafter
      subst hafter
      rcases h with h | ⟨hon, hoff⟩
      · cases h
      · rw [hoff] at hon
        cases hon
  · next htrue => exact htrue

theorem triggerWith_permitted {admin : AdminData} {clientProvisionId : String} {q : TriggerQuery}
    {p after : Provision} (hp : admin.findProvision q.inState clientProvisionId = some p)
    (hafter : (triggerWith admin clientProvisionId q).provision = some after)
    (h : (triggerWith admin clientProvisionId q).sent = true
      ∨ (after.dynamics.ticking = true ∧ p.dynamics.ticking = false)) :
    admin.findEndpoint p.clientEndpointId = some true := by
  -- a result that neither sends nor starts a timer
  have hidle : ∀ d : Dynamics, d.ticking = p.dynamics.ticking →
      some (⟨p.clientEndpointId, d⟩ : Provision) = some after → ¬ (false = true
        ∨ (after.dynamics.ticking = true ∧ p.dynamics.ticking = false)) := by
    rintro d hd hsome (hsent | ⟨hon, hoff⟩)
    · cases hsent
    · injection hsome with hsome
      subst hsome
      rw [hd, hoff] at hon
      cases hon
  simp only [triggerWith, hp] at hafter h
  split at h
  · next hboth =>
      rw [if_pos hboth] at hafter
      exact (hidle p.dynamics rfl hafter h).elim
  · next hboth =>
      rw [if_neg hboth] at hafter
      split at h
      · next hsequence =>
          rw [if_pos hsequence] at hafter
          split at h
          · next hnone =>
              simp only [hnone] at hafter
              exact (hidle p.dynamics rfl hafter h).elim
          · next v hv =>
              simp only [hv] at hafter
              have hpermitted := dispatch_permitted hafter h
              exact hpermitted
      · next hsequence =>
          rw [if_neg hsequence] at hafter
          split at h
          · next hdynamics =>
              rw [if_pos hdynamics] at hafter
              have hkeep := updateTriggering_ticking p.dynamics q
              split at h
              · next d hd =>
                  simp only [hd] at hafter hkeep
                  rw [← hkeep] at h
                  have hpermitted := dispatch_permitted hafter h
                  exact hpermitted
              · next d hd =>
                  simp only [hd] at hafter hkeep
                  exact (hidle d hkeep hafter h).elim
          · next hdynamics =>
              rw [if_neg hdynamics] at hafter
              exact dispatch_permitted hafter h

/-! ## Who keeps an endpoint -/

/-- Somebody keeps an endpoint for a provision: a chain, or a running timer. -/
def Flow.Keeps (s : Flow) (p e : Nat) : Prop :=
  (∃ j stage, s.chains j = some stage ∧ stage.call.provision = p ∧ stage.call.endpoint = e)
    ∨ ((s.provisions.objects p).dynamics.ticking = true
        ∧ (s.provisions.objects p).tickEndpoint = e)

/-- Nothing that was kept goes wrong: a chain goes on to a provision of the same endpoint,
    no endpoint that somebody keeps is disabled, and all of them are dropped only while
    nobody keeps one. -/
def Flow.KeepsEndpoints (s : Flow) : Act → Prop
  | .response j env response => ∀ c r m outState w p, s.chains j = some (.sent c r m) →
      GoesOn s env c r m response outState w p →
        (s.provisions.objects p).clientEndpointId = m.clientEndpointId
  | .loadEndpoint doc => ∀ p e, s.Keeps p e → s.endpoints.pointer doc.id = some e →
      (s.endpoints.objects e).exposed.sameAddress doc = false → doc.permit = true
  | .clearEndpoints => ∀ p e, ¬ s.Keeps p e
  | _ => True

/-- Who keeps an endpoint keeps the one registered under its provision's name, and it is
    permitted. -/
structure Directed (s : Flow) : Prop where
  mapped : ∀ k p, s.provisions.map.lookup k = some p → p < s.provisions.made
  called : ∀ j stage, s.chains j = some stage → stage.call.provision < s.provisions.made
  idle : ∀ p, s.provisions.made ≤ p → (s.provisions.objects p).dynamics.ticking = false
  labelled : ∀ j c r m, s.chains j = some (.sent c r m) →
    m.clientEndpointId = (s.provisions.objects c.provision).clientEndpointId
  kept : ∀ p e, s.Keeps p e →
    s.endpoints.pointer (s.provisions.objects p).clientEndpointId = some e
      ∧ (s.endpoints.objects e).permit = true

theorem directed_start : Directed {} where
  mapped k p h := by
    simp only [ProvisionData.empty, AList.lookup_empty] at h
    cases h
  called _ _ h := nomatch h
  idle _ _ := rfl
  labelled _ _ _ _ h := nomatch h
  kept p e h := by
    rcases h with ⟨j, stage, h, -⟩ | ⟨h, -⟩
    · cases h
    · cases h

/-! ## What becomes of the provisions -/

/-- Objects keep their documents, and a timer runs because it ran before with the same
    endpoint, or because it was started with a permitted one. -/
structure Advances (s t : Flow) : Prop where
  made : s.provisions.made ≤ t.provisions.made
  documents : ∀ p, p < s.provisions.made →
    (t.provisions.objects p).toProvisionDocument = (s.provisions.objects p).toProvisionDocument
  mapped : ∀ k p, t.provisions.map.lookup k = some p →
    s.provisions.map.lookup k = some p ∨ p < t.provisions.made
  ticking : ∀ p, (t.provisions.objects p).dynamics.ticking = true →
    ((s.provisions.objects p).dynamics.ticking = true
        ∧ (t.provisions.objects p).tickEndpoint = (s.provisions.objects p).tickEndpoint)
      ∨ (p < s.provisions.made
        ∧ s.endpoints.pointer (s.provisions.objects p).clientEndpointId
            = some (t.provisions.objects p).tickEndpoint
        ∧ (s.endpoints.objects (t.provisions.objects p).tickEndpoint).permit = true)

theorem Advances.of_eq {s t : Flow} (h : t.provisions = s.provisions) : Advances s t where
  made := by rw [h]
  documents p _ := by rw [h]
  mapped k p hp := by
    rw [h] at hp
    exact .inl hp
  ticking p hp := by
    rw [h] at hp ⊢
    exact .inl ⟨hp, rfl⟩

/-- New dynamics that tick only where the old ones did. -/
theorem Advances.of_setDynamics {s t : Flow} {p : Nat} {dynamics : Dynamics}
    (h : t.provisions = s.provisions.setDynamics p dynamics)
    (hticking : dynamics.ticking = true → (s.provisions.objects p).dynamics.ticking = true) :
    Advances s t where
  made := by rw [h]; exact Nat.le_refl _
  documents q _ := by
    rw [h]
    by_cases hqp : q = p
    · rw [hqp, ProvisionData.setDynamics_self]
    · rw [ProvisionData.setDynamics_ne _ hqp]
  mapped k q hq := by
    rw [h] at hq
    exact .inl hq
  ticking q hq := by
    rw [h] at hq ⊢
    by_cases hqp : q = p
    · rw [hqp, ProvisionData.setDynamics_self] at hq ⊢
      exact .inl ⟨hticking hq, rfl⟩
    · rw [ProvisionData.setDynamics_ne _ hqp] at hq ⊢
      exact .inl ⟨hq, rfl⟩

theorem find_adminData {s : Flow} {clientProvisionId inState : String} {p : Nat}
    (h : s.provisions.find inState clientProvisionId = some p) :
    s.adminData.findProvision inState clientProvisionId
      = some ⟨(s.provisions.objects p).clientEndpointId, (s.provisions.objects p).dynamics⟩ := by
  simp only [Flow.adminData, h, Option.map_some]

/-- The endpoint found by a trigger, as a pointer. -/
theorem pointer_of_permitted {s : Flow} {id : String}
    (h : s.adminData.findEndpoint id = some true) :
    ∃ e, s.endpoints.pointer id = some e ∧ (s.endpoints.objects e).permit = true := by
  simp only [Flow.adminData, AdminClientEndpointData.find] at h
  cases hp : s.endpoints.pointer id with
  | none =>
      rw [hp] at h
      cases h
  | some e =>
      rw [hp] at h
      injection h with h
      exact ⟨e, rfl, h⟩

/-- The object a trigger found. -/
theorem triggered_advances {s t : Flow} {p : Nat} {clientProvisionId : String} {q : TriggerQuery}
    {after : Provision} (hmapped : p < s.provisions.made)
    (hp : s.provisions.find q.inState clientProvisionId = some p)
    (hafter : (triggerWith s.adminData clientProvisionId q).provision = some after)
    (h : t.provisions = { s.provisions with
      objects := Function.update s.provisions.objects p
        (Flow.triggered (s.provisions.objects p) after.dynamics q.inState
          ((s.endpoints.pointer (s.provisions.objects p).clientEndpointId).getD 0)) }) :
    Advances s t := by
  have hdoc : ∀ d inState e, (Flow.triggered (s.provisions.objects p) d inState
      e).toProvisionDocument = (s.provisions.objects p).toProvisionDocument := by
    intro d inState e
    simp only [Flow.triggered]
    split <;> rfl
  constructor
  case made => rw [h]
  case documents =>
    intro q' _
    rw [h]
    by_cases hqp : q' = p
    · simp only [hqp, Function.update_self]
      exact hdoc _ _ _
    · simp only [Function.update_of_ne hqp]
  case mapped =>
    intro k q' hq'
    rw [h] at hq'
    exact .inl hq'
  case ticking =>
    intro q' hq'
    rw [h] at hq' ⊢
    by_cases hqp : q' = p
    · subst hqp
      simp only [Function.update_self] at hq' ⊢
      by_cases hon : (after.dynamics.ticking
          && !(s.provisions.objects q').dynamics.ticking) = true
      · -- the timer was started
        right
        simp only [Flow.triggered, if_pos hon]
        simp only [Bool.and_eq_true, Bool.not_eq_true'] at hon
        have hpermitted := triggerWith_permitted (find_adminData hp) hafter (.inr hon)
        obtain ⟨e, he, hpermit⟩ := pointer_of_permitted hpermitted
        rw [he]
        exact ⟨hmapped, rfl, hpermit⟩
      · left
        simp only [Flow.triggered, if_neg hon] at hq' ⊢
        refine ⟨?_, trivial⟩
        cases hold : (s.provisions.objects q').dynamics.ticking with
        | true => rfl
        | false =>
            rw [hq', hold] at hon
            exact (hon rfl).elim
    · simp only [Function.update_of_ne hqp] at hq' ⊢
      exact .inl ⟨hq', trivial⟩

theorem advance_ticking {d : Dynamics} (h : d.advance.1.ticking = true) : d.ticking = true := by
  simp only [Dynamics.advance] at h
  split at h
  · split at h
    · exact h
    · cases h
  · exact h

theorem tick_advances (s : Flow) (p : Nat) (dispatched : Bool) :
    Advances s (s.tick p dispatched) := by
  have hon : (s.provisions.objects p).dynamics.scheduleTick.ticking = true →
      (s.provisions.objects p).dynamics.ticking = true :=
    fun h => (Flow.scheduleTick_ticking h).1
  simp only [Flow.tick]
  split
  · exact .of_eq rfl
  · split
    · exact .of_setDynamics rfl hon
    · split
      · exact .of_setDynamics rfl hon
      · exact .of_setDynamics rfl hon

theorem progress_advances (s : Flow) (j : Nat) (c : Call) (m : Sending) (outState : String)
    (keys : Option (List (DataKey × Nat))) : Advances s (s.progress j c m outState keys) := by
  simp only [Flow.progress]
  split
  · split
    · exact .of_eq rfl
    · exact .of_setDynamics rfl (fun h => h)
  · exact .of_eq rfl

/-- The provisions and the endpoints are read of the state before. -/
theorem Advances.of_before {s s' t : Flow} (h : Advances s' t)
    (hprovisions : s'.provisions = s.provisions) (hendpoints : s'.endpoints = s.endpoints) :
    Advances s t := by
  obtain ⟨hmade, hdocuments, hmapped, hticking⟩ := h
  rw [hprovisions] at hmade hdocuments hmapped hticking
  rw [hendpoints] at hticking
  exact ⟨hmade, hdocuments, hmapped, hticking⟩

theorem conclude_advances (s : Flow) (lib : Lib) (j : Nat) (c : Call) (r : Request) (m : Sending)
    (response : Response) (valid : Bool) (outState : String) :
    Advances s (s.conclude lib j c r m response valid outState) := by
  have hstore : (s.store lib j c r m response outState).provisions = s.provisions :=
    Flow.store_provisions lib c r m response outState
  simp only [Flow.conclude]
  split
  · exact .of_eq rfl
  · split
    · exact .of_eq hstore
    · split
      · exact .of_eq hstore
      · refine (progress_advances _ j c m outState _).of_before hstore ?_
        simp only [Flow.store]
        split <;> rfl

/-- A new provision has a timer that does not run. -/
theorem add_advances (s : Flow) (doc : ProvisionDocument) :
    Advances s { s with provisions := s.provisions.add doc } := by
  constructor
  case made => exact Nat.le_succ _
  case documents =>
    intro p hp
    simp only [ProvisionData.add, Function.update_of_ne (Nat.ne_of_lt hp)]
  case mapped =>
    intro k p hp
    by_cases hk : k = doc.key
    · subst hk
      have hnew : s.provisions.made = p :=
        Option.some.inj ((AList.lookup_insert s.provisions.map).symm.trans hp)
      rw [← hnew]
      exact .inr (Nat.lt_succ_self _)
    · exact .inl ((AList.lookup_insert_ne hk).symm.trans hp)
  case ticking =>
    intro p hp
    by_cases hmade : p = s.provisions.made
    · simp only [ProvisionData.add, hmade, Function.update_self] at hp
      cases hp
    · simp only [ProvisionData.add, Function.update_of_ne hmade] at hp ⊢
      exact .inl ⟨hp, trivial⟩

/-- **WHAT BECOMES OF THE PROVISIONS**, act by act. -/
theorem act_advances {s t : Flow} {a : Act} (hs : Directed s) (h : act s a = .ok t) :
    Advances s t := by
  cases a with
  | triggerClientOperation clientProvisionId q =>
      cases h
      simp only [Flow.triggerClientOperation]
      split
      · next p after hp hafter =>
          have hmapped := hs.mapped _ p hp
          split
          · exact triggered_advances hmapped hp hafter rfl
          · exact triggered_advances hmapped hp hafter rfl
      · exact .of_eq rfl
  | triggerClientProvision clientProvisionId inState =>
      cases h
      refine .of_eq ?_
      simp only [Flow.triggerClientProvision]
      split
      · rfl
      · split
        · rfl
        · split <;> rfl
  | tick p dispatched =>
      cases h
      exact tick_advances s p dispatched
  | advance p =>
      cases h
      simp only [Flow.advance]
      split
      · exact .of_setDynamics rfl advance_ticking
      · exact .of_eq rfl
  | transform j env =>
      rcases act_transform h with ⟨-, rfl⟩ | ⟨c, out, error, stage, -, -, rfl⟩
      · exact .of_eq rfl
      · exact .of_eq rfl
  | send j =>
      rcases act_send h with ⟨-, rfl⟩ | ⟨c, r, -, rfl⟩
      · exact .of_eq rfl
      · exact .of_eq rfl
  | response j env response =>
      rcases act_response h with ⟨-, rfl⟩ | ⟨c, r, m, valid, outState, w, -, -, rfl⟩
      · exact .of_eq rfl
      · obtain ⟨executions, hnote⟩ := Flow.noteResponse_eq s c m
        rw [hnote]
        exact (conclude_advances _ env.lib j c r m response valid outState).of_before rfl rfl
  | loadEndpoint doc =>
      cases h
      refine .of_eq ?_
      split <;> rfl
  | loadProvision doc =>
      cases h
      exact add_advances s doc
  | clearProvisions =>
      cases h
      refine ⟨Nat.le_refl _, fun _ _ => rfl, ?_, fun p hp => .inl ⟨hp, rfl⟩⟩
      intro k p hp
      simp only [AList.lookup_empty] at hp
      cases hp
  | clearEndpoints | clearEvents | configure | disturb =>
      cases h
      exact .of_eq rfl

/-! ## One act -/

section OneAct

variable {s t : Flow} {a : Act}

theorem Directed.brought_call (hs : Directed s) {j : Nat} {stage : Stage}
    (h : Brings s a j stage) : stage.call.provision < s.provisions.made := by
  cases h with
  | operation found updated sent => exact hs.mapped _ _ found
  | provision found registered permitted => exact hs.mapped _ _ found
  | @tick p ticking =>
      refine Nat.lt_of_not_le (fun hle => ?_)
      rw [hs.idle p hle] at ticking
      cases ticking
  | transform entered built =>
      have hcalled := hs.called _ _ entered
      exact hcalled
  | send built =>
      have hcalled := hs.called _ _ built
      exact hcalled
  | response sent on => exact hs.mapped _ _ on.found

/-- What a chain is brought to with, was right before the act. -/
theorem Directed.brought_endpoint (hs : Directed s) (ha : s.KeepsEndpoints a) {j : Nat}
    {stage : Stage} (h : Brings s a j stage) :
    s.endpoints.pointer (s.provisions.objects stage.call.provision).clientEndpointId
        = some stage.call.endpoint
      ∧ (s.endpoints.objects stage.call.endpoint).permit = true := by
  cases h with
  | operation found updated sent =>
      have hpermitted := triggerWith_permitted (find_adminData found) updated (.inl sent)
      obtain ⟨e, he, hpermit⟩ := pointer_of_permitted hpermitted
      simp only [Stage.call, he, Option.getD_some]
      exact ⟨trivial, hpermit⟩
  | provision found registered permitted => exact ⟨registered, permitted⟩
  | @tick p ticking => exact hs.kept p _ (.inr ⟨ticking, rfl⟩)
  | transform entered built => exact hs.kept _ _ (.inl ⟨_, _, entered, rfl, rfl⟩)
  | send built => exact hs.kept _ _ (.inl ⟨_, _, built, rfl, rfl⟩)
  | @response j env c r m response outState w p sent on =>
      have hsame := ha c r m outState w p sent on
      have hbefore := hs.kept c.provision c.endpoint (.inl ⟨j, _, sent, rfl, rfl⟩)
      rw [← hs.labelled j c r m sent, ← hsame] at hbefore
      exact hbefore

/-- Whoever keeps an endpoint behind an act, was right before it. -/
theorem Directed.kept_before (hs : Directed s) (ha : s.KeepsEndpoints a) (h : act s a = .ok t)
    {p e : Nat} (hkeeps : t.Keeps p e) :
    s.endpoints.pointer (t.provisions.objects p).clientEndpointId = some e
      ∧ (s.endpoints.objects e).permit = true := by
  have hadvances := act_advances hs h
  rcases hkeeps with ⟨j, stage, hj, rfl, rfl⟩ | ⟨hticking, rfl⟩
  · rcases act_chains h hj with hold | hbrings
    · rw [hadvances.documents _ (hs.called j stage hold)]
      exact hs.kept _ _ (.inl ⟨j, stage, hold, rfl, rfl⟩)
    · rw [hadvances.documents _ (hs.brought_call hbrings)]
      exact hs.brought_endpoint ha hbrings
  · rcases hadvances.ticking p hticking with ⟨hold, hsame⟩ | ⟨hp, hpointer, hpermit⟩
    · have hp : p < s.provisions.made := by
        refine Nat.lt_of_not_le (fun hle => ?_)
        rw [hs.idle p hle] at hold
        cases hold
      rw [hadvances.documents p hp, hsame]
      exact hs.kept p _ (.inr ⟨hold, rfl⟩)
    · rw [hadvances.documents p hp]
      exact ⟨hpointer, hpermit⟩

/-- A document leaves a registered endpoint registered, and permitted unless it disables
    it. -/
theorem put_kept {d : AdminClientEndpointData} {doc : EndpointDocument} {id : String} {e : Nat}
    (hpointer : d.pointer id = some e) (hpermit : (d.objects e).permit = true)
    (hdoc : d.pointer doc.id = some e → (d.objects e).exposed.sameAddress doc = false →
      doc.permit = true) :
    (d.put doc).2.pointer id = some e ∧ ((d.put doc).2.objects e).permit = true := by
  simp only [AdminClientEndpointData.put]
  split
  · next hnone =>
      have hid : id ≠ doc.id := by
        intro hid
        rw [← hid, hpointer] at hnone
        cases hnone
      have hne : e ≠ d.made := Nat.ne_of_lt (d.keyed id e hpointer).1
      constructor
      · exact (AList.lookup_insert_ne hid).trans hpointer
      · simp only [AdminClientEndpointData.add, Function.update_of_ne hne]
        exact hpermit
  · next q hq =>
      split
      · exact ⟨hpointer, hpermit⟩
      · next hother =>
          refine ⟨hpointer, ?_⟩
          by_cases hqe : e = q
          · subst hqe
            simp only [AdminClientEndpointData.modify, Function.update_self]
            exact hdoc hq (Bool.eq_false_iff.mpr hother)
          · simp only [AdminClientEndpointData.modify, Function.update_of_ne hqe]
            exact hpermit

/-- **STEP LEMMA**: an act that keeps the endpoints. -/
theorem act_directed (hs : Directed s) (ha : s.KeepsEndpoints a) (h : act s a = .ok t) :
    Directed t := by
  have hadvances := act_advances hs h
  constructor
  case mapped =>
    intro k p hp
    rcases hadvances.mapped k p hp with hold | hnew
    · exact Nat.lt_of_lt_of_le (hs.mapped k p hold) hadvances.made
    · exact hnew
  case called =>
    intro j stage hj
    refine Nat.lt_of_lt_of_le ?_ hadvances.made
    rcases act_chains h hj with hold | hbrings
    · exact hs.called j stage hold
    · exact hs.brought_call hbrings
  case idle =>
    intro p hp
    rw [← Bool.not_eq_true]
    intro hticking
    have hle := Nat.le_trans hadvances.made hp
    rcases hadvances.ticking p hticking with ⟨hold, -⟩ | ⟨hlt, -⟩
    · rw [hs.idle p hle] at hold
      cases hold
    · exact absurd hlt (Nat.not_lt.mpr hle)
  case labelled =>
    intro j c r m hj
    rcases act_chains h hj with hold | hbrings
    · have hcalled : c.provision < s.provisions.made := hs.called j _ hold
      rw [hadvances.documents _ hcalled]
      exact hs.labelled j c r m hold
    · have hcalled : c.provision < s.provisions.made := hs.brought_call hbrings
      rw [hadvances.documents _ hcalled]
      cases hbrings with
      | send built => rfl
  case kept =>
    intro p e hkeeps
    obtain ⟨hpointer, hpermit⟩ := hs.kept_before ha h hkeeps
    rcases act_endpoints h with hsame | ⟨doc, rfl, -, rfl⟩ | ⟨rfl, rfl⟩ | ⟨j, c, r, rfl, hc, rfl⟩
    · rw [hsame]
      exact ⟨hpointer, hpermit⟩
    · exact put_kept hpointer hpermit (ha p e hkeeps)
    · exact (ha p e hkeeps).elim
    · refine ⟨hpointer, ?_⟩
      by_cases he : e = c.endpoint
      · subst he
        simp only [Flow.send, AdminClientEndpointData.modify, Function.update_self]
        exact hpermit
      · simp only [Flow.send, AdminClientEndpointData.modify, Function.update_of_ne he]
        exact hpermit

end OneAct

/-! ## Runs -/

/-- **REQUESTS USE THEIR ENDPOINT**: in every run whose acts keep the endpoints, each
    request that is about to be sent goes through the endpoint registered under the name
    its event will be stored with, and this endpoint is permitted. -/
theorem requests_use_their_endpoint (schedule : List Act) (s : Flow)
    (hall : AllUntil act Flow.KeepsEndpoints {} schedule)
    (hrun : runUntil act {} schedule = .ok s) (j : Nat) (c : Call) (r : Request)
    (hj : s.chains j = some (.built c r)) :
    s.endpoints.pointer (s.sending c).clientEndpointId = some c.endpoint
      ∧ (s.endpoints.objects c.endpoint).permit = true := by
  have hdirected := runUntil_invariant_of (I := Directed)
    (fun _ _ _ hs ha h => act_directed hs ha h) schedule {} s directed_start hall hrun
  exact hdirected.kept c.provision c.endpoint (.inl ⟨j, _, hj, rfl, rfl⟩)

/-- A permitted endpoint. -/
def openEndpoint (id : String) : EndpointDocument := ⟨id, "localhost", 8000, false, true⟩

/-- A provision of the flow `f`, in a state and for an endpoint. -/
def linkOf (inState outState endpoint : String) (h : '#' ∉ endpoint.toList) :
    ProvisionDocument where
  clientProvisionId := "f"
  clientEndpointId := endpoint
  loaded := { inState := inState, outState := outState, requestMethod := "GET", requestUri := "/a" }
  hashFree := h

theorem mark_not_in_x : '#' ∉ "x".toList := by
  decide

/-- A trigger without parameters. -/
def plainTrigger : TriggerQuery := ⟨"initial", "", "", "", "", ""⟩

/-- A response. -/
def accepted : Response := { body := "", headers := [], statusCode := 200 }

/-- A chain that stays with the endpoint `x`. -/
def staying : List Act :=
  [.loadEndpoint (openEndpoint "x"),
    .loadProvision (linkOf "initial" "next" "x" (by decide)),
    .loadProvision (linkOf "next" "" "x" (by decide)),
    .triggerClientOperation "f" plainTrigger, .transform 0 idleEnv, .send 0,
    .response 0 idleEnv accepted, .transform 0 idleEnv]

/-- Its second request goes through `x` again. -/
theorem staying_chain_uses_its_endpoint :
    ∃ s c r, runUntil act {} staying = .ok s ∧ s.chains 0 = some (.built c r)
      ∧ s.endpoints.pointer (s.sending c).clientEndpointId = some c.endpoint
      ∧ (s.endpoints.objects c.endpoint).permit = true := by
  refine ⟨_, _, _, rfl, rfl, ?_⟩
  refine requests_use_their_endpoint staying _ ?_ rfl 0 _ _ rfl
  refine allUntil_cons (fun _ _ _ _ _ => rfl) rfl ?_
  refine allUntil_cons True.intro rfl ?_
  refine allUntil_cons True.intro rfl ?_
  refine allUntil_cons True.intro rfl ?_
  refine allUntil_cons True.intro rfl ?_
  refine allUntil_cons True.intro rfl ?_
  refine allUntil_cons ?_ rfl (allUntil_cons True.intro rfl True.intro)
  -- the response goes on to the second provision of `x`
  intro c r m outState w p hsent on
  cases hsent
  have hresponded := on.responded
  cases hresponded
  have hfound := on.found
  cases hfound
  rfl

/-- A chain from the endpoint `x` to the endpoint `y`. -/
def crossing : List Act :=
  [.loadEndpoint (openEndpoint "x"), .loadEndpoint (openEndpoint "y"),
    .loadProvision (linkOf "initial" "next" "x" (by decide)),
    .loadProvision (linkOf "next" "" "y" (by decide)),
    .triggerClientOperation "f" plainTrigger, .transform 0 idleEnv, .send 0,
    .response 0 idleEnv accepted, .transform 0 idleEnv]

/-- The second request of the chain goes through `x` and is stored under `y`. -/
theorem chain_leaves_its_endpoint :
    ¬ ∀ (schedule : List Act) (s : Flow), runUntil act {} schedule = .ok s →
      ∀ j c r, s.chains j = some (.built c r) →
        s.endpoints.pointer (s.sending c).clientEndpointId = some c.endpoint := by
  intro h
  have hsent := h crossing _ rfl 0 _ _ rfl
  cases hsent

end H2ClientFlow
