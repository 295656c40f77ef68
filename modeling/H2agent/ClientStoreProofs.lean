import H2agent.ClientFlowProofs

/-! # The client store under a flow

    What the operations of the store do to the events of a key, and what a client
    provision does to the store while it transforms: its items can purge events and never
    store one. -/

namespace H2ClientFlow

open FallbackList H2ClientProvision H2Convert H2Filter H2Key H2Source H2Store H2Target H2Traffic
open H2Transformation JsonValue MockEventLike

/-! ## The events of a key -/

section Events

variable (m : MockData MockEvent) (k : String)

theorem eventsOf_insert_self (h : MockEventsHistory MockEvent) :
    eventsOf (m.insert k h) k = h.events := by
  rw [eventsOf, AList.lookup_insert]

theorem eventsOf_insert_ne {k' : String} (hk : k' ≠ k) (h : MockEventsHistory MockEvent) :
    eventsOf (m.insert k h) k' = eventsOf m k' := by
  rw [eventsOf, AList.lookup_insert_ne hk]
  rfl

theorem eventsOf_erase_self : eventsOf (m.erase k) k = [] := by
  rw [eventsOf, AList.lookup_erase]

theorem eventsOf_erase_ne {k' : String} (hk : k' ≠ k) :
    eventsOf (m.erase k) k' = eventsOf m k' := by
  rw [eventsOf, AList.lookup_erase_ne hk]
  rfl

/-- One more event. -/
theorem eventsOf_clientLoad (dataKey : DataKey) (event : MockEvent) (historyEnabled : Bool) :
    eventsOf (MockClientData.loadEvent m dataKey event historyEnabled) k
      = if k = dataKey.getKey then loaded (eventsOf m k) event historyEnabled
        else eventsOf m k := by
  simp only [MockClientData.loadEvent]
  by_cases hk : k = dataKey.getKey
  · subst hk
    rw [if_pos rfl, eventsOf_insert_self, events_loadEvent, eventsOf]
    cases m.lookup dataKey.getKey with
    | none => rfl
    | some h => rfl
  · rw [if_neg hk, eventsOf_insert_ne _ _ hk]

/-- The first event with the number leaves. -/
theorem eventsOf_removeEventBySeq (dataKey : DataKey) (seq : Nat) :
    eventsOf (MockData.removeEventBySeq m dataKey seq).2 k
      = if k = dataKey.getKey then (eventsOf m k).eraseP (fun e => getSeq e == seq)
        else eventsOf m k := by
  simp only [MockData.removeEventBySeq]
  cases hm : m.lookup dataKey.getKey with
  | none =>
      by_cases hk : k = dataKey.getKey
      · subst hk
        rw [if_pos rfl, eventsOf, hm]
        rfl
      · rw [if_neg hk]
  | some h =>
      simp only
      -- whether or not one is found, this is what is left of the history
      have hleft : (h.removeEventBySeq seq).2.events
          = h.events.eraseP (fun e => getSeq e == seq) := by
        simp only [MockEventsHistory.removeEventBySeq]
        split
        · rfl
        · next hnone =>
            rw [List.eraseP_of_forall_not]
            intro e he hseq
            exact hnone (List.any_eq_true.mpr ⟨e, he, hseq⟩)
      by_cases hk : k = dataKey.getKey
      · subst hk
        rw [if_pos rfl]
        have hold : eventsOf m dataKey.getKey = h.events := by
          rw [eventsOf, hm]
        rw [hold, ← hleft]
        split
        · next hempty =>
            simp only [Bool.and_eq_true, beq_iff_eq] at hempty
            rw [eventsOf_erase_self, List.eq_nil_of_length_eq_zero hempty.2]
        · rw [eventsOf_insert_self]
      · rw [if_neg hk]
        split
        · rw [eventsOf_erase_ne _ _ hk]
        · rw [eventsOf_insert_ne _ _ hk]

end Events

/-! ## Stores that only lose events -/

/-- Events may have left, and nothing else has changed. -/
def Shrunk (m m' : MockData MockEvent) : Prop :=
  ∀ k, (eventsOf m' k).Sublist (eventsOf m k)

theorem Shrunk.refl (m : MockData MockEvent) : Shrunk m m := fun _ => List.Sublist.refl _

theorem Shrunk.trans {m m' m'' : MockData MockEvent} (h : Shrunk m m') (h' : Shrunk m' m'') :
    Shrunk m m'' := fun k => (h' k).trans (h k)

theorem shrunk_removeEventBySeq (m : MockData MockEvent) (dataKey : DataKey) (seq : Nat) :
    Shrunk m (MockData.removeEventBySeq m dataKey seq).2 := by
  intro k
  rw [eventsOf_removeEventBySeq]
  split
  · exact List.eraseP_sublist
  · exact List.Sublist.refl _

theorem shrunk_erase (m : MockData MockEvent) (k : String) : Shrunk m (m.erase k) := by
  intro k'
  by_cases hk : k' = k
  · rw [hk, eventsOf_erase_self]
    exact List.nil_sublist _
  · rw [eventsOf_erase_ne _ _ hk]

/-- One event of a history leaves. -/
theorem shrunk_insert {m : MockData MockEvent} {k : String} {h h' : MockEventsHistory MockEvent}
    (hm : m.lookup k = some h) (hsub : h'.events.Sublist h.events) : Shrunk m (m.insert k h') := by
  intro k'
  by_cases hk : k' = k
  · have hold : eventsOf m k = h.events := by
      rw [eventsOf, hm]
    rw [hk, eventsOf_insert_self, hold]
    exact hsub
  · rw [eventsOf_insert_ne _ _ hk]

theorem removeEvent_sublist (h : MockEventsHistory MockEvent) (n : Nat) (reverse : Bool) :
    (h.removeEvent n reverse).2.events.Sublist h.events := by
  simp only [MockEventsHistory.removeEvent]
  split
  · exact List.Sublist.refl _
  · split
    · exact List.Sublist.refl _
    · exact List.eraseIdx_sublist _ _

theorem shrunk_clear (m : MockData MockEvent) (ekey : EventKey) :
    Shrunk m (MockData.clear m ekey).2.2 := by
  simp only [MockData.clear]
  split
  · intro k
    rw [eventsOf, AList.lookup_empty]
    exact List.nil_sublist _
  · split
    · exact .refl m
    · split
      · exact .refl m
      · next h hm =>
          split
          · split
            · exact .refl m
            · next n reverse hposition =>
                split
                · exact shrunk_erase m _
                · exact shrunk_insert hm (removeEvent_sublist h n reverse)
          · exact shrunk_erase m _

theorem shrunk_purgeAll (keys : List (DataKey × Nat)) (m : MockData MockEvent) :
    Shrunk m (purgeAll m keys) := by
  induction keys generalizing m with
  | nil => exact .refl m
  | cons k keys ih => exact (shrunk_removeEventBySeq m k.1 k.2).trans (ih _)

/-! ## Client provisions only purge -/

section Targets

variable (env : Env) (t : Transformation) (target : String) (inc : Incoming) (w : World)

theorem purgeClientEvent_shrunk :
    Yields (fun r => Shrunk w.clientEvents r.2.clientEvents) (purgeClientEvent env t w) := by
  refine yields_bind fun _ _ => yields_bind fun _ _ => yields_bind fun _ _ =>
    yields_bind fun _ _ => yields_bind fun sendseq _ => ?_
  split
  · split
    · exact yields_ok (.refl _)
    · exact yields_ok (shrunk_removeEventBySeq _ _ _)
  · exact yields_ok (shrunk_clear _ _)

theorem clientTarget_shrunk (s : ClientState) :
    Shrunk s.world.clientEvents (clientTarget env t target inc s).2.world.clientEvents := by
  rcases clientTarget_world env t target inc s with hworld | ⟨-, hworld⟩ | hworld
  · rw [hworld]
    exact .refl _
  · rw [hworld]
    have hyields := purgeClientEvent_shrunk env t s.world
    cases hpurge : purgeClientEvent env t s.world with
    | error e => exact .refl _
    | ok r => exact hyields r hpurge
  · rw [hworld, (worldTarget_stores env t target inc s.world).2]
    exact .refl _

end Targets

/-- An item only purges. -/
theorem processItem_shrunk {env : Env} {req : ClientRequest} {seen : ClientState → SeenRequest}
    {t : Transformation} {s u : ClientRun}
    (h : (processItem env req seen t s).state = some u) :
    Shrunk s.state.world.clientEvents u.state.world.clientEvents := by
  obtain ⟨found, -, hu | ⟨-, groups, v, hstage⟩⟩ := processItem_cases h
  · rw [hu]
    exact .refl _
  · obtain ⟨target, -, hu⟩ := targetStage_cases hstage
    rw [hu]
    exact clientTarget_shrunk env t target _ _

/-- `transform` only purges. -/
theorem transform_shrunk {env : Env} {p : H2ClientProvision.AdminClientProvision} {seq : Int}
    {w : World} {out : ClientState} {error : Option String}
    (h : p.transform env seq w = .ok (out, error)) :
    Shrunk w.clientEvents out.world.clientEvents := by
  obtain ⟨s, hs, hworld⟩ := AdminClientProvision.transform_world h
  rw [hworld]
  refine runMain_invariant
    (I := fun s : ClientRun => Shrunk w.clientEvents s.state.world.clientEvents)
    ?_ ?_ p.transformations (Items.all_of_forall (fun _ => trivial) _) ?_ hs
  · exact fun _ h => h
  · exact fun _ _ _ _ hs hu => hs.trans (processItem_shrunk hu)
  · exact .refl _

/-- So does `transformResponse`. -/
theorem transformResponse_shrunk {env : Env} {p : H2ClientProvision.AdminClientProvision}
    {requestUri : String} {requestHeaders : HeaderMap} {received : ReceivedResponse}
    {sendSeq : Nat} {outState finalOutState : String} {seq : Int} {w w' : World} {valid : Bool}
    (h : p.transformResponse env requestUri requestHeaders received sendSeq outState seq w
      = .ok (valid, finalOutState, w')) : Shrunk w.clientEvents w'.clientEvents := by
  simp only [AdminClientProvision.transformResponse] at h
  split at h
  · cases h
    exact .refl _
  · split at h
    · cases h
    · next s hs =>
        cases h
        refine runMain_invariant
          (I := fun s : ClientRun => Shrunk w.clientEvents s.state.world.clientEvents)
          ?_ ?_ p.onResponseTransformations (Items.all_of_forall (fun _ => trivial) _) ?_ hs
        · exact fun _ h => h
        · exact fun _ _ _ _ hs hu => hs.trans (processItem_shrunk hu)
        · exact .refl _

/-- And so does the response handler up to there. -/
theorem respond_shrunk {s : Flow} {env : Env} {c : Call} {r : Request} {m : Sending}
    {response : Response} {valid : Bool} {outState : String} {w : World}
    (h : s.respond env c r m response = .ok (valid, outState, w)) :
    Shrunk s.world.clientEvents w.clientEvents := by
  simp only [Flow.respond] at h
  split at h
  · cases h
    exact .refl _
  · have hshrunk := transformResponse_shrunk h
    exact hshrunk

/-! ## What an act does to the store -/

/-- The event a response stores, in the world its transformations left. -/
def storedIn (s : Flow) (env : Env) (c : Call) (r : Request) (m : Sending) (response : Response)
    (outState : String) (w : World) : MockClientData MockEvent :=
  MockClientData.loadEvent w.clientEvents (dataKeyOf r m)
    (mockClientEvent env.lib c.inState outState r m response) s.clientDataKeyHistory

/-- A response that stores an event. -/
structure Stores (s : Flow) (j : Nat) (env : Env) (response : Response) (c : Call) (r : Request)
    (m : Sending) (valid : Bool) (outState : String) (w : World) : Prop where
  sent : s.chains j = some (.sent c r m)
  responded : s.respond env c r m response = .ok (valid, outState, w)
  answered : 0 < response.statusCode
  enabled : s.clientData = true

theorem mem_loaded {l : List MockEvent} {e x : MockEvent} {historyEnabled : Bool}
    (h : x ∈ loaded l e historyEnabled) : x = e ∨ x ∈ l := by
  rw [loaded] at h
  split at h
  · exact (List.mem_or_eq_of_mem_set h).symm
  · rcases List.mem_append.mp h with h | h
    · exact .inr h
    · exact .inl (List.mem_singleton.mp h)

theorem nodup_loaded {l : List MockEvent} {e : MockEvent} (historyEnabled : Bool)
    (h : (l.map MockEvent.seq).Nodup) (he : e.seq ∉ l.map MockEvent.seq) :
    ((loaded l e historyEnabled).map MockEvent.seq).Nodup := by
  rw [loaded]
  split
  · rw [List.map_set]
    exact h.set he
  · rw [List.map_append]
    refine List.nodup_append.mpr ⟨h, List.nodup_singleton _, ?_⟩
    intro x hx y hy
    rw [List.map_singleton, List.mem_singleton] at hy
    rw [hy]
    exact fun hxe => he (hxe ▸ hx)

section Stored

variable {s : Flow} {j : Nat} {env : Env} {response : Response} {c : Call} {r : Request}
  {m : Sending} {valid : Bool} {outState : String} {w : World}

/-- An event behind the storage is the new one, or an old one. -/
theorem mem_storedIn (hstores : Stores s j env response c r m valid outState w) {k : String}
    {x : MockEvent} (hx : x ∈ eventsOf (storedIn s env c r m response outState w) k) :
    (k = (dataKeyOf r m).getKey ∧ x.seq = m.sendSeq) ∨ x ∈ eventsOf s.world.clientEvents k := by
  have hw := respond_shrunk hstores.responded
  rw [storedIn, eventsOf_clientLoad] at hx
  split at hx
  · next hk =>
      rcases mem_loaded hx with rfl | hx
      · exact .inl ⟨hk, rfl⟩
      · exact .inr ((hw k).subset hx)
  · exact .inr ((hw k).subset hx)

/-- A new number keeps the numbers distinct. -/
theorem nodup_storedIn (hstores : Stores s j env response c r m valid outState w)
    (hs : ∀ k, ((eventsOf s.world.clientEvents k).map MockEvent.seq).Nodup)
    (hfresh : m.sendSeq
      ∉ (eventsOf s.world.clientEvents (dataKeyOf r m).getKey).map MockEvent.seq) (k : String) :
    ((eventsOf (storedIn s env c r m response outState w) k).map MockEvent.seq).Nodup := by
  have hw := respond_shrunk hstores.responded
  have hold := (hs k).sublist ((hw k).map MockEvent.seq)
  rw [storedIn, eventsOf_clientLoad]
  split
  · next hk =>
      subst hk
      exact nodup_loaded _ hold (fun h => hfresh (((hw _).map MockEvent.seq).subset h))
  · exact hold

end Stored

theorem eventsOf_start (k : String) : eventsOf ({} : Flow).world.clientEvents k = [] := rfl

/-- An act stores nothing and notes nothing. -/
def Silent (s t : Flow) : Prop :=
  Shrunk s.world.clientEvents t.world.clientEvents ∧ t.stored = s.stored

theorem Silent.of_eq {s t : Flow} (hevents : t.world.clientEvents = s.world.clientEvents)
    (hstored : t.stored = s.stored) : Silent s t := by
  rw [Silent, hevents]
  exact ⟨.refl _, hstored⟩

/-- The response handler behind the storage: it purges, or leaves the store alone. -/
theorem afterStore_events (t : Flow) (purgeExecution valid : Bool) (j : Nat) (c : Call)
    (r : Request) (m : Sending) (outState : String) (keys : Option (List (DataKey × Nat))) :
    Silent t (if !valid then t.setChain j none
      else if purgeExecution && outState == "purge" then (t.purge keys r m).setChain j none
      else t.progress j c m outState keys) := by
  split
  · exact .of_eq rfl rfl
  · split
    · exact ⟨shrunk_purgeAll _ _, rfl⟩
    · simp only [Flow.progress]
      split
      · split
        · exact .of_eq rfl rfl
        · exact .of_eq rfl rfl
      · exact .of_eq rfl rfl

/-- A response that stores: its event is in, and noted, and events may be purged behind
    it. -/
theorem response_stores {s t : Flow} {j : Nat} {env : Env} {response : Response} {c : Call}
    {r : Request} {m : Sending} {valid : Bool} {outState : String} {w : World}
    (hstores : Stores s j env response c r m valid outState w)
    (h : act s (.response j env response) = .ok t) :
    Shrunk (storedIn s env c r m response outState w) t.world.clientEvents
      ∧ t.stored = Function.update s.stored j
          (s.stored j ++ [((dataKeyOf r m).getKey, m.sendSeq)]) := by
  obtain ⟨hsent, hresponded, hanswered, henabled⟩ := hstores
  simp only [act, hsent, Flow.complete, hresponded] at h
  injection h with h
  obtain ⟨executions, hnote⟩ := Flow.noteResponse_eq s c m
  rw [hnote, Flow.conclude, if_neg (Int.not_le.mpr hanswered)] at h
  obtain ⟨hshrunk, hstored⟩ := afterStore_events
    (({ s with executions := executions, world := w } : Flow).store env.lib j c r m response
      outState) s.purgeExecution valid j c r m outState
    (({ s with executions := executions, world := w } : Flow).keysAfter c r m)
  rw [← h]
  simp only [Flow.store, henabled, if_true] at hshrunk hstored ⊢
  exact ⟨hshrunk, hstored⟩

/-- A response that stores nothing. -/
theorem conclude_silent (s : Flow) (lib : Lib) (j : Nat) (c : Call) (r : Request) (m : Sending)
    (response : Response) (valid : Bool) (outState : String)
    (h : ¬ (0 < response.statusCode ∧ s.clientData = true)) :
    Silent s (s.conclude lib j c r m response valid outState) := by
  simp only [Flow.conclude]
  split
  · exact .of_eq rfl rfl
  · next hstatus =>
      have hstore : s.store lib j c r m response outState = s := by
        rw [Flow.store, if_neg (fun hdata => h ⟨by omega, hdata⟩)]
      rw [hstore]
      exact afterStore_events s s.purgeExecution valid j c r m outState (s.keysAfter c r m)

/-- **WHAT AN ACT DOES TO THE STORE**: it stores nothing, or it is a response that stores
    its event, behind which events may be purged. -/
theorem act_events {s t : Flow} {a : Act} (h : act s a = .ok t) :
    Silent s t
      ∨ ∃ j env response c r m valid outState w, a = .response j env response
          ∧ Stores s j env response c r m valid outState w
          ∧ Shrunk (storedIn s env c r m response outState w) t.world.clientEvents
          ∧ t.stored = Function.update s.stored j
              (s.stored j ++ [((dataKeyOf r m).getKey, m.sendSeq)]) := by
  cases a with
  | triggerClientOperation | triggerClientProvision | tick | advance =>
      obtain ⟨hkept, hworld⟩ := act_schedules h True.intro
      exact .inl (.of_eq (congrArg World.clientEvents hworld) hkept.stored)
  | transform j env =>
      rcases act_transform h with ⟨-, rfl⟩ | ⟨c, out, error, stage, -, hbuilt, rfl⟩
      · exact .inl (.of_eq rfl rfl)
      · have hshrunk := transform_shrunk hbuilt
        exact .inl ⟨hshrunk, rfl⟩
  | send j =>
      rcases act_send h with ⟨-, rfl⟩ | ⟨c, r, -, rfl⟩
      · exact .inl (.of_eq rfl rfl)
      · exact .inl (.of_eq rfl rfl)
  | response j env response =>
      rcases act_response h with ⟨-, rfl⟩ | ⟨c, r, m, valid, outState, w, hc, hresponded, ht⟩
      · exact .inl (.of_eq rfl rfl)
      · by_cases hstores : 0 < response.statusCode ∧ s.clientData = true
        · right
          have hstores : Stores s j env response c r m valid outState w :=
            ⟨hc, hresponded, hstores.1, hstores.2⟩
          exact ⟨j, env, response, c, r, m, valid, outState, w, rfl, hstores,
            response_stores hstores h⟩
        · left
          obtain ⟨executions, hnote⟩ := Flow.noteResponse_eq s c m
          have hsilent := conclude_silent { s with executions := executions, world := w } env.lib j
            c r m response valid outState hstores
          rw [hnote] at ht
          rw [ht]
          exact ⟨(respond_shrunk hresponded).trans hsilent.1, hsilent.2⟩
  | loadEndpoint doc =>
      cases h
      left
      split <;> exact .of_eq rfl rfl
  | clearEvents ekey =>
      cases h
      exact .inl ⟨shrunk_clear _ _, rfl⟩
  | clearEndpoints | loadProvision | clearProvisions | configure | disturb =>
      cases h
      exact .inl (.of_eq rfl rfl)

end H2ClientFlow
