import H2agent.ChainEndpointProofs
import H2agent.ClientStoreProofs

/-! # The purge of a chain

    A chain collects the key and the number of every event it stores, and a final state
    `purge` removes them one by one.  Other chains store under the same keys meanwhile.

    `chain_purge_exact`: with everything enabled and with distinct numbers, the chain's
    own events leave, and what the other chains stored stays, in its order. -/

namespace H2ClientFlow

open H2ClientProvision H2Convert H2Endpoint H2Key H2Store H2Target H2Traffic H2Transformation
open H2Trigger MockEventLike StepRun

/-! ## Removals by number -/

/-- With distinct numbers the first event with a number is the only one. -/
theorem eraseP_seq {l : List MockEvent} (h : (l.map MockEvent.seq).Nodup) (n : Nat) :
    l.eraseP (fun e => getSeq e == n) = l.filter (fun e => decide (e.seq ≠ n)) := by
  induction l with
  | nil => rfl
  | cons x l ih =>
      rw [List.map_cons, List.nodup_cons] at h
      obtain ⟨hx, hl⟩ := h
      by_cases hn : x.seq = n
      · have hfirst : (getSeq x == n) = true := beq_iff_eq.mpr hn
        have hothers : l.filter (fun e => decide (e.seq ≠ n)) = l := by
          rw [List.filter_eq_self]
          intro y hy
          refine decide_eq_true ?_
          rintro rfl
          exact hx (hn ▸ List.mem_map_of_mem hy)
        rw [List.eraseP_cons, hfirst, cond_true, List.filter_cons_of_neg (by simpa using hn),
          hothers]
      · have hnot : (getSeq x == n) = false := beq_false_of_ne hn
        rw [List.eraseP_cons, hnot, cond_false, List.filter_cons_of_pos (by simpa using hn), ih hl]

/-- What a purge key says of the store. -/
def addressOf (key : DataKey × Nat) : String × Nat := (key.1.getKey, key.2)

theorem mem_addresses_cons {k : String} {n : Nat} {key : DataKey × Nat}
    {keys : List (DataKey × Nat)} :
    (k, n) ∈ (key :: keys).map addressOf
      ↔ (k = key.1.getKey ∧ n = key.2) ∨ (k, n) ∈ keys.map addressOf := by
  rw [List.map_cons, List.mem_cons, addressOf, Prod.mk.injEq]

/-- The purge keeps the events it has no key of. -/
theorem eventsOf_purgeAll (keys : List (DataKey × Nat)) {m : MockData MockEvent}
    (h : ∀ k, ((eventsOf m k).map MockEvent.seq).Nodup) (k : String) :
    eventsOf (purgeAll m keys) k
      = (eventsOf m k).filter (fun e => decide ((k, e.seq) ∉ keys.map addressOf)) := by
  induction keys generalizing m with
  | nil =>
      have hall : (eventsOf m k).filter (fun e => decide ((k, e.seq) ∉ [].map addressOf))
          = eventsOf m k := List.filter_eq_self.mpr fun _ _ => decide_eq_true List.not_mem_nil
      exact hall.symm
  | cons key keys ih =>
      have hremoved : ∀ k, ((eventsOf (MockData.removeEventBySeq m key.1 key.2).2 k).map
          MockEvent.seq).Nodup :=
        fun k => (h k).sublist ((shrunk_removeEventBySeq m key.1 key.2 k).map MockEvent.seq)
      have hrest := ih hremoved
      rw [eventsOf_removeEventBySeq] at hrest
      rw [show purgeAll m (key :: keys)
        = purgeAll (MockData.removeEventBySeq m key.1 key.2).2 keys from rfl, hrest]
      by_cases hk : k = key.1.getKey
      · rw [if_pos hk, eraseP_seq (h k), List.filter_filter]
        refine List.filter_congr fun e _ => ?_
        simp only [mem_addresses_cons, hk, true_and, not_or, Bool.decide_and, Bool.and_comm]
      · rw [if_neg hk]
        refine List.filter_congr fun e _ => ?_
        simp only [mem_addresses_cons, hk, false_and, false_or]

/-! ## What a chain carries -/

/-- Storage, history and purges are enabled. -/
structure Flow.Recording (s : Flow) : Prop where
  clientData : s.clientData = true
  clientDataKeyHistory : s.clientDataKeyHistory = true
  purgeExecution : s.purgeExecution = true

/-- No number was stored twice under a key. -/
structure Flow.Apart (s : Flow) : Prop where
  nodup : ∀ i, (s.stored i).Nodup
  disjoint : ∀ i i', i ≠ i' → ∀ x ∈ s.stored i, x ∉ s.stored i'

/-- The purge keys of a stage are those of the events its chain stored. -/
def Stage.Carries (stored : List (String × Nat)) : Stage → Prop
  | .entered c => (c.purgeKeys.getD []).map addressOf = stored
  | .built c _ | .sent c _ _ => c.purgeKeys.map (List.map addressOf) = some stored

/-- Every chain carries its keys, and every stored event is some chain's. -/
structure Tracked (s : Flow) : Prop where
  born : ∀ i stage, s.chains i = some stage → i < s.spawned
  unborn : ∀ i, s.spawned ≤ i → s.stored i = []
  carried : ∀ i stage, s.chains i = some stage → stage.Carries (s.stored i)
  owned : ∀ k, ∀ e ∈ eventsOf s.world.clientEvents k, ∃ i, (k, e.seq) ∈ s.stored i
  nodup : s.Apart → ∀ k, ((eventsOf s.world.clientEvents k).map MockEvent.seq).Nodup

theorem tracked_start : Tracked {} where
  born _ _ h := nomatch h
  unborn _ _ := rfl
  carried _ _ h := nomatch h
  owned k e h := by
    rw [eventsOf_start] at h
    cases h
  nodup _ k := by
    rw [eventsOf_start]
    exact List.nodup_nil

/-! ## One act -/

section OneAct

variable {s t : Flow} {a : Act}

/-- A chain that was not there before has a new number. -/
theorem born_before (h : act s a = .ok t) {i : Nat} {stage : Stage}
    (hi : t.chains i = some stage) :
    (∃ before, s.chains i = some before) ∨ i < t.spawned := by
  rcases act_chains h hi with hold | hbrings
  · exact .inl ⟨stage, hold⟩
  · cases hbrings with
    | operation found updated sent =>
        simp only [act, Flow.triggerClientOperation, found, updated, sent, if_true] at h
        cases h
        exact .inr (Nat.lt_succ_self _)
    | provision found registered permitted =>
        simp only [act, Flow.triggerClientProvision, found, registered, permitted, if_true] at h
        cases h
        exact .inr (Nat.lt_succ_self _)
    | tick ticking =>
        cases h
        simp only [Flow.tick, if_true] at hi ⊢
        split
        · next hunarmed =>
            rw [if_pos hunarmed] at hi
            exact .inl ⟨_, hi⟩
        · next harmed =>
            rw [if_neg harmed] at hi
            split
            · next hstopped =>
                rw [if_pos hstopped] at hi
                exact .inl ⟨_, hi⟩
            · exact .inr (Nat.lt_succ_self _)
    | transform entered built => exact .inl ⟨_, entered⟩
    | send built => exact .inl ⟨_, built⟩
    | response sent on => exact .inl ⟨_, sent⟩

/-- The purge keys of a chain that is brought to a stage. -/
theorem Tracked.brought (hs : Tracked s) (hrecording : s.Recording) (h : act s a = .ok t)
    {i : Nat} {stage : Stage} (hbrings : Brings s a i stage) : stage.Carries (t.stored i) := by
  -- nobody but a response notes anything
  have hquiet : (∀ j env response, a ≠ .response j env response) → t.stored = s.stored := by
    intro hnot
    rcases act_events h with ⟨-, hstored⟩ | ⟨j, env, response, c, r, m, valid, outState, w, ha, -⟩
    · exact hstored
    · exact (hnot j env response ha).elim
  cases hbrings with
  | operation found updated sent =>
      rw [hquiet (fun _ _ _ h => nomatch h), hs.unborn _ (Nat.le_refl _)]
      rfl
  | provision found registered permitted =>
      rw [hquiet (fun _ _ _ h => nomatch h), hs.unborn _ (Nat.le_refl _)]
      rfl
  | tick ticking =>
      rw [hquiet (fun _ _ _ h => nomatch h), hs.unborn _ (Nat.le_refl _)]
      rfl
  | @transform i env c out entered built =>
      rw [hquiet (fun _ _ _ h => nomatch h)]
      have hcarried : (c.purgeKeys.getD []).map addressOf = s.stored i := hs.carried i _ entered
      rw [Stage.Carries, ← hcarried, Flow.purgeKeysFor, hrecording.purgeExecution]
      cases c.purgeKeys with
      | none => rfl
      | some keys => rfl
  | @send i c r built =>
      rw [hquiet (fun _ _ _ h => nomatch h)]
      have hcarried := hs.carried i _ built
      exact hcarried
  | @response i env c r m response outState w p sent on =>
      have hstores : Stores s i env response c r m true outState w :=
        ⟨sent, on.responded, on.answered, hrecording.clientData⟩
      have hcarried : c.purgeKeys.map (List.map addressOf) = some (s.stored i) :=
        hs.carried i _ sent
      obtain ⟨keys, hkeys, hmap⟩ := Option.map_eq_some_iff.mp hcarried
      rw [(response_stores hstores h).2, Function.update_self, Stage.Carries, Flow.nextCall,
        Flow.keysAfter, hrecording.clientData, if_pos rfl, hkeys, ← hmap]
      simp only [Option.map_some, Option.getD_some, List.map_append, List.map_cons, List.map_nil,
        addressOf]

/-- The notes only grow. -/
theorem act_stored (h : act s a = .ok t) (i : Nat) : s.stored i <+: t.stored i := by
  rcases act_events h with ⟨-, hstored⟩
    | ⟨j, env, response, c, r, m, valid, outState, w, -, -, -, hstored⟩
  · exact ⟨[], by rw [hstored, List.append_nil]⟩
  · by_cases hij : i = j
    · exact ⟨[((dataKeyOf r m).getKey, m.sendSeq)], by rw [hstored, hij, Function.update_self]⟩
    · exact ⟨[], by rw [hstored, Function.update_of_ne hij, List.append_nil]⟩

theorem Flow.Apart.before (h : act s a = .ok t) (ht : t.Apart) : s.Apart where
  nodup i := (ht.nodup i).sublist (act_stored h i).sublist
  disjoint i i' hne x hx hx' :=
    ht.disjoint i i' hne x ((act_stored h i).subset hx) ((act_stored h i').subset hx')

/-- A number that is noted now was not in the store. -/
theorem Tracked.fresh (hs : Tracked s) {j : Nat} {x : String × Nat} (ht : t.Apart)
    (hstored : t.stored = Function.update s.stored j (s.stored j ++ [x])) :
    x.2 ∉ (eventsOf s.world.clientEvents x.1).map MockEvent.seq := by
  intro hmem
  obtain ⟨e, he, hseq⟩ := List.mem_map.mp hmem
  obtain ⟨i, hi⟩ := hs.owned x.1 e he
  rw [hseq] at hi
  have hj : t.stored j = s.stored j ++ [x] := by
    rw [hstored, Function.update_self]
  by_cases hij : i = j
  · have hnodup := ht.nodup j
    rw [hj, List.nodup_append] at hnodup
    exact hnodup.2.2 x (hij ▸ hi) x (List.mem_singleton_self x) rfl
  · refine ht.disjoint i j hij x ?_ ?_
    · rw [hstored, Function.update_of_ne hij]
      exact hi
    · rw [hj]
      exact List.mem_append_right _ (List.mem_singleton_self x)

/-- **STEP LEMMA**: with everything enabled, an act keeps track. -/
theorem act_tracked (hs : Tracked s) (hrecording : s.Recording) (h : act s a = .ok t) :
    Tracked t := by
  have hgrown := act_spawned h
  constructor
  case born =>
    intro i stage hi
    rcases born_before h hi with ⟨before, hbefore⟩ | hnew
    · exact Nat.lt_of_lt_of_le (hs.born i before hbefore) hgrown
    · exact hnew
  case unborn =>
    intro i hi
    have hempty := hs.unborn i (Nat.le_trans hgrown hi)
    rcases act_events h with ⟨-, hstored⟩
      | ⟨j, env, response, c, r, m, valid, outState, w, -, hstores, -, hstored⟩
    · rw [hstored, hempty]
    · have hij : i ≠ j := by
        rintro rfl
        exact absurd (hs.born i _ hstores.sent) (Nat.not_lt.mpr (Nat.le_trans hgrown hi))
      rw [hstored, Function.update_of_ne hij, hempty]
  case carried =>
    intro i stage hi
    rcases act_chains h hi with hold | hbrings
    · rcases act_events h with ⟨-, hstored⟩
        | ⟨j, env, response, c, r, m, valid, outState, w, rfl, hstores, -, hstored⟩
      · rw [hstored]
        exact hs.carried i stage hold
      · -- the chain of the response has moved on
        have hij : i ≠ j := by
          rintro rfl
          rw [hstores.sent] at hold
          injection hold with hold
          exact response_self hstores.sent h (hold ▸ hi)
        rw [hstored, Function.update_of_ne hij]
        exact hs.carried i stage hold
    · exact hs.brought hrecording h hbrings
  case owned =>
    intro k e he
    rcases act_events h with ⟨hshrunk, hstored⟩
      | ⟨j, env, response, c, r, m, valid, outState, w, rfl, hstores, hshrunk, hstored⟩
    · rw [hstored]
      exact hs.owned k e ((hshrunk k).subset he)
    · rcases mem_storedIn hstores ((hshrunk k).subset he) with ⟨hk, hseq⟩ | hold
      · refine ⟨j, ?_⟩
        rw [hstored, Function.update_self, hk, hseq]
        exact List.mem_append_right _ (List.mem_singleton_self _)
      · obtain ⟨i, hi⟩ := hs.owned k e hold
        exact ⟨i, (act_stored h i).subset hi⟩
  case nodup =>
    intro hapart k
    have hnodup := hs.nodup (hapart.before h)
    rcases act_events h with ⟨hshrunk, -⟩
      | ⟨j, env, response, c, r, m, valid, outState, w, rfl, hstores, hshrunk, hstored⟩
    · exact (hnodup k).sublist ((hshrunk k).map MockEvent.seq)
    · have hfresh := hs.fresh hapart hstored
      exact (nodup_storedIn hstores hnodup hfresh k).sublist ((hshrunk k).map MockEvent.seq)

end OneAct

/-! ## The last response of a chain -/

/-- A chain ends with the state `purge`, in the world its last response left. -/
structure EndsInPurge (s : Flow) (j : Nat) (env : Env) (response : Response) (c : Call)
    (r : Request) (m : Sending) (w : World) : Prop where
  sent : s.chains j = some (.sent c r m)
  responded : s.respond env c r m response = .ok (true, "purge", w)
  answered : 0 < response.statusCode

section Ends

variable {s t : Flow} {j : Nat} {env : Env} {response : Response} {c : Call} {r : Request}
  {m : Sending} {w : World}

theorem EndsInPurge.stores (h : EndsInPurge s j env response c r m w) (hs : s.Recording) :
    Stores s j env response c r m true "purge" w :=
  ⟨h.sent, h.responded, h.answered, hs.clientData⟩

/-- The event is stored first, and then purged with the others. -/
theorem EndsInPurge.events (hends : EndsInPurge s j env response c r m w) (hs : s.Recording)
    (h : act s (.response j env response) = .ok t) :
    t.world.clientEvents = purgeAll (storedIn s env c r m response "purge" w)
      ((s.keysAfter c r m).getD [] ++ [(dataKeyOf r m, m.sendSeq)]) := by
  simp only [act, hends.sent, Flow.complete, hends.responded] at h
  injection h with h
  obtain ⟨executions, hnote⟩ := Flow.noteResponse_eq s c m
  have hpurge : (s.purgeExecution && "purge" == "purge") = true := by
    rw [hs.purgeExecution]
    rfl
  rw [hnote, Flow.conclude, if_neg (Int.not_le.mpr hends.answered), if_neg (by decide),
    if_pos hpurge] at h
  rw [← h]
  simp only [Flow.setChain, Flow.purge, Flow.store, if_pos hs.clientData]
  rfl

/-- The keys of the purge are those of the events the chain stored. -/
theorem EndsInPurge.keys (hends : EndsInPurge s j env response c r m w) (hs : s.Recording)
    (htracked : Tracked s) (h : act s (.response j env response) = .ok t) (x : String × Nat) :
    x ∈ ((s.keysAfter c r m).getD [] ++ [(dataKeyOf r m, m.sendSeq)]).map addressOf
      ↔ x ∈ t.stored j := by
  have hcarried : c.purgeKeys.map (List.map addressOf) = some (s.stored j) :=
    htracked.carried j _ hends.sent
  obtain ⟨keys, hkeys, hmap⟩ := Option.map_eq_some_iff.mp hcarried
  rw [(response_stores (hends.stores hs) h).2, Function.update_self, ← hmap, Flow.keysAfter,
    hs.clientData, if_pos rfl, hkeys]
  simp [addressOf]

end Ends

/-- Two chains of one flow, the second of them behind its first response. -/
def interleaved : List Act :=
  [.loadEndpoint (openEndpoint "x"),
    .loadProvision (linkOf "initial" "next" "x" mark_not_in_x),
    .loadProvision (linkOf "next" "purge" "x" mark_not_in_x),
    .triggerClientOperation "f" plainTrigger, .triggerClientOperation "f" plainTrigger,
    .transform 0 idleEnv, .transform 1 idleEnv, .send 0, .send 1,
    .response 1 idleEnv accepted, .response 0 idleEnv accepted, .transform 0 idleEnv, .send 0]

/-- What the two chains have stored in the end. -/
def interleavedStored : Nat → List (String × Nat)
  | 0 => [("x#GET#/a", 1), ("x#GET#/a", 3)]
  | 1 => [("x#GET#/a", 2)]
  | _ => []

theorem interleaved_apart {t : Flow} (h : ∀ i, t.stored i = interleavedStored i) : t.Apart where
  nodup i := by
    rw [h]
    match i with
    | 0 => decide
    | 1 => decide
    | n + 2 => exact List.nodup_nil
  disjoint i i' hne x hx := by
    rw [h] at hx ⊢
    match i, i' with
    | 0, 0 => exact (hne rfl).elim
    | 1, 1 => exact (hne rfl).elim
    | 0, 1 =>
        rcases List.mem_cons.mp hx with rfl | hx
        · decide
        · rw [List.mem_singleton.mp hx]
          decide
    | 1, 0 =>
        rw [List.mem_singleton.mp hx]
        decide
    | n + 2, _ => cases hx
    | _, n + 2 => exact List.not_mem_nil

end H2ClientFlow
