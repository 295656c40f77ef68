import H2agent.ChainEndpointProofs
import H2agent.ClientStoreProofs

/-! # Send sequences as addresses

    `getEventBySendSeq` and `removeEventBySendSeq` take the first event with a number, so
    the numbers under a key have to be distinct.  They come from a counter in the endpoint
    OBJECT a request is sent through, while the events are stored under the NAME in its
    provision: another object behind the name starts to count anew, and a chain that goes on
    to a provision of another endpoint counts with the first one.

    `send_sequences_distinct`: the numbers under a key stay distinct in every run in which
    requests go through the object made last for the name of their provision, and a new
    object for a name is made only once its events and requests are gone. -/

namespace H2ClientFlow

open CppText H2Convert H2Endpoint H2Key H2Store H2Target H2Traffic H2Transformation H2Trigger
open MockEventLike StepRun

/-! ## Names in keys -/

/-- A key of the events of an endpoint: its name and the first mark. -/
def OfEndpoint (id k : String) : Prop := k.toList.takeWhile (· ≠ '#') = id.toList

theorem takeWhile_mark {l : List Char} (h : '#' ∉ l) (rest : List Char) :
    (l ++ '#' :: rest).takeWhile (· ≠ '#') = l := by
  have hl : ∀ c ∈ l, decide (c ≠ '#') = true :=
    fun c hc => decide_eq_true (fun heq => h (heq ▸ hc))
  rw [List.takeWhile_append_of_pos hl]
  simp

theorem calculateStringKey_mark (k1 k2 k3 : String) :
    ∃ rest, (calculateStringKey k1 k2 k3).toList = k1.toList ++ '#' :: rest := by
  rw [calculateStringKey]
  split
  · exact ⟨k2.toList, by simp⟩
  · exact ⟨k2.toList ++ '#' :: k3.toList, by simp⟩

/-- A request is stored under a key of the endpoint its provision names. -/
theorem ofEndpoint_dataKey {r : Request} {m : Sending} (h : '#' ∉ m.clientEndpointId.toList) :
    OfEndpoint m.clientEndpointId (dataKeyOf r m).getKey := by
  obtain ⟨rest, hkey⟩ :=
    calculateStringKey_mark m.clientEndpointId r.requestMethod r.requestUri
  have htext : (dataKeyOf r m).getKey
      = calculateStringKey m.clientEndpointId r.requestMethod r.requestUri := rfl
  rw [OfEndpoint, htext, hkey, takeWhile_mark h]

/-- Requests stored under one key name one endpoint. -/
theorem endpoint_of_key {r r' : Request} {m m' : Sending} (h : '#' ∉ m.clientEndpointId.toList)
    (h' : '#' ∉ m'.clientEndpointId.toList)
    (hkey : (dataKeyOf r m).getKey = (dataKeyOf r' m').getKey) :
    m.clientEndpointId = m'.clientEndpointId := by
  have hof := ofEndpoint_dataKey (r := r) h
  have hof' := ofEndpoint_dataKey (r := r') h'
  rw [hkey] at hof
  exact String.toList_injective (hof.symm.trans hof')

/-! ## The object made last for a name -/

/-- The endpoint object made last for a name, registered or not. -/
structure Latest (d : AdminClientEndpointData) (id : String) (e : Nat) : Prop where
  made : e < d.made
  key : (d.objects e).key = id
  last : ∀ q, q < d.made → (d.objects q).key = id → q ≤ e

/-- A change in place moves nobody. -/
theorem Latest.of_modify {d : AdminClientEndpointData} {p : Nat} {x : AdminClientEndpoint}
    {id : String} {e : Nat} (hkey : x.key = (d.objects p).key)
    (h : Latest (d.modify p x hkey) id e) : Latest d id e := by
  have hsame : ∀ q, ((d.modify p x hkey).objects q).key = (d.objects q).key := by
    intro q
    by_cases hqp : q = p
    · simp only [AdminClientEndpointData.modify, hqp, Function.update_self, hkey]
    · simp only [AdminClientEndpointData.modify, Function.update_of_ne hqp]
  obtain ⟨hmade, hid, hlast⟩ := h
  rw [hsame] at hid
  refine ⟨hmade, hid, ?_⟩
  intro q hq hqid
  refine hlast q hq ?_
  rw [hsame]
  exact hqid

/-- The acts that keep numbers fresh: a request goes through the object made last for the
    name of its provision, whose counter is not exhausted; an object is made
    for a name without events and without requests on their way. -/
def Flow.NumbersFresh (s : Flow) : Act → Prop
  | .send j => ∀ c r, s.chains j = some (.built c r) →
      Latest s.endpoints (s.sending c).clientEndpointId c.endpoint
        ∧ (s.endpoints.objects c.endpoint).sendSeq + 1 < 18446744073709551616
  | .loadEndpoint doc => doc.accepted = true → s.endpoints.pointer doc.id = none →
      (∀ k, OfEndpoint doc.id k → eventsOf s.world.clientEvents k = [])
        ∧ ∀ j c r m, s.chains j = some (.sent c r m) → m.clientEndpointId ≠ doc.id
  | _ => True

/-- Stored events and requests on their way have distinct numbers under a key, and none
    beyond the counter of the object made last for the name. -/
structure Distinct (s : Flow) : Prop where
  nodup : ∀ k, ((eventsOf s.world.clientEvents k).map MockEvent.seq).Nodup
  hashFree : ∀ j c r m, s.chains j = some (.sent c r m) → '#' ∉ m.clientEndpointId.toList
  apart : ∀ j c r m, s.chains j = some (.sent c r m) →
    m.sendSeq ∉ (eventsOf s.world.clientEvents (dataKeyOf r m).getKey).map MockEvent.seq
  flights : ∀ i c r m, s.chains i = some (.sent c r m) → ∀ j c' r' m',
    s.chains j = some (.sent c' r' m') → i ≠ j →
      (dataKeyOf r m).getKey = (dataKeyOf r' m').getKey → m.sendSeq ≠ m'.sendSeq
  eventsBelow : ∀ id e, Latest s.endpoints id e → ∀ k, OfEndpoint id k →
    ∀ x ∈ eventsOf s.world.clientEvents k, x.seq ≤ (s.endpoints.objects e).sendSeq
  flightsBelow : ∀ id e, Latest s.endpoints id e → ∀ j c r m,
    s.chains j = some (.sent c r m) → m.clientEndpointId = id →
      m.sendSeq ≤ (s.endpoints.objects e).sendSeq

theorem distinct_start : Distinct {} where
  nodup k := by
    rw [eventsOf_start]
    exact List.nodup_nil
  hashFree _ _ _ _ h := nomatch h
  apart _ _ _ _ h := nomatch h
  flights _ _ _ _ h := nomatch h
  eventsBelow _ _ h := absurd h.made (Nat.not_lt_zero _)
  flightsBelow _ _ h := absurd h.made (Nat.not_lt_zero _)

theorem Latest.unique {d : AdminClientEndpointData} {id : String} {e e' : Nat}
    (h : Latest d id e) (h' : Latest d id e') : e = e' :=
  Nat.le_antisymm (h'.last e h.made h.key) (h.last e' h'.made h'.key)

/-! ## One act -/

section OneAct

variable {s t : Flow} {a : Act}

/-- Events leave, requests are answered, and no counter goes back. -/
theorem Distinct.shrink (hs : Distinct s)
    (hsent : ∀ j c r m, t.chains j = some (.sent c r m) → s.chains j = some (.sent c r m))
    (hshrunk : Shrunk s.world.clientEvents t.world.clientEvents)
    (hbelow : ∀ id e, Latest t.endpoints id e → Latest s.endpoints id e
      ∧ (s.endpoints.objects e).sendSeq ≤ (t.endpoints.objects e).sendSeq) : Distinct t where
  nodup k := (hs.nodup k).sublist ((hshrunk k).map MockEvent.seq)
  hashFree j c r m hj := hs.hashFree j c r m (hsent j c r m hj)
  apart j c r m hj hmem :=
    hs.apart j c r m (hsent j c r m hj) (((hshrunk _).map MockEvent.seq).subset hmem)
  flights i c r m hi j c' r' m' hj :=
    hs.flights i c r m (hsent i c r m hi) j c' r' m' (hsent j c' r' m' hj)
  eventsBelow id e he k hk x hx := by
    obtain ⟨hlatest, hle⟩ := hbelow id e he
    exact Nat.le_trans (hs.eventsBelow id e hlatest k hk x ((hshrunk k).subset hx)) hle
  flightsBelow id e he j c r m hj hid := by
    obtain ⟨hlatest, hle⟩ := hbelow id e he
    exact Nat.le_trans (hs.flightsBelow id e hlatest j c r m (hsent j c r m hj) hid) hle

/-- A response stores its event, and its request is not on its way any more. -/
theorem Distinct.store (hs : Distinct s) {j : Nat} {env : Env} {response : Response} {c : Call}
    {r : Request} {m : Sending} {valid : Bool} {outState : String} {w : World}
    (hstores : Stores s j env response c r m valid outState w)
    (hshrunk : Shrunk (storedIn s env c r m response outState w) t.world.clientEvents)
    (hsent : ∀ i c' r' m', t.chains i = some (.sent c' r' m') →
      i ≠ j ∧ s.chains i = some (.sent c' r' m'))
    (hendpoints : t.endpoints = s.endpoints) : Distinct t := by
  -- an event of the store is the new one, or an old one
  have hmem : ∀ k, ∀ x ∈ eventsOf t.world.clientEvents k,
      (k = (dataKeyOf r m).getKey ∧ x.seq = m.sendSeq)
        ∨ x ∈ eventsOf s.world.clientEvents k :=
    fun k x hx => mem_storedIn hstores ((hshrunk k).subset hx)
  have hfresh := hs.apart j c r m hstores.sent
  constructor
  case nodup =>
    intro k
    exact (nodup_storedIn hstores hs.nodup hfresh k).sublist ((hshrunk k).map MockEvent.seq)
  case hashFree =>
    intro i c' r' m' hi
    exact hs.hashFree i c' r' m' (hsent i c' r' m' hi).2
  case apart =>
    intro i c' r' m' hi hin
    obtain ⟨hij, hi⟩ := hsent i c' r' m' hi
    obtain ⟨x, hx, hseq⟩ := List.mem_map.mp hin
    rcases hmem _ x hx with ⟨hk, hnew⟩ | hold
    · exact hs.flights i c' r' m' hi j c r m hstores.sent hij hk (hseq.symm.trans hnew)
    · exact hs.apart i c' r' m' hi (List.mem_map.mpr ⟨x, hold, hseq⟩)
  case flights =>
    intro i c₁ r₁ m₁ hi i' c₂ r₂ m₂ hi'
    exact hs.flights i c₁ r₁ m₁ (hsent i c₁ r₁ m₁ hi).2 i' c₂ r₂ m₂ (hsent i' c₂ r₂ m₂ hi').2
  case eventsBelow =>
    intro id e he k hk x hx
    rw [hendpoints] at he ⊢
    rcases hmem k x hx with ⟨rfl, hnew⟩ | hold
    · -- the name in the key is that of the request
      have hof := ofEndpoint_dataKey (r := r) (hs.hashFree j c r m hstores.sent)
      have hid : m.clientEndpointId = id := String.toList_injective (hof.symm.trans hk)
      rw [hnew]
      exact hs.flightsBelow id e he j c r m hstores.sent hid
    · exact hs.eventsBelow id e he k hk x hold
  case flightsBelow =>
    intro id e he i c' r' m' hi
    rw [hendpoints] at he ⊢
    exact hs.flightsBelow id e he i c' r' m' (hsent i c' r' m' hi).2

theorem modify_sendSeq {d : AdminClientEndpointData} {p : Nat} {x : AdminClientEndpoint}
    (hkey : x.key = (d.objects p).key) (hle : (d.objects p).sendSeq ≤ x.sendSeq) (e : Nat) :
    (d.objects e).sendSeq ≤ ((d.modify p x hkey).objects e).sendSeq := by
  by_cases hep : e = p
  · subst hep
    simp only [AdminClientEndpointData.modify, Function.update_self]
    exact hle
  · simp only [AdminClientEndpointData.modify, Function.update_of_ne hep]
    exact Nat.le_refl _

/-- A request on its way behind a sending is the one that is sent, or another chain's. -/
theorem send_sent {i j : Nat} {c c' : Call} {r r' : Request} {m' : Sending}
    (hi : (s.send j c r).chains i = some (.sent c' r' m')) :
    (i ≠ j ∧ s.chains i = some (.sent c' r' m'))
      ∨ (i = j ∧ c = c' ∧ r = r' ∧ s.sending c = m') := by
  simp only [Flow.send, Flow.setChain, Flow.note] at hi
  by_cases hij : i = j
  · rw [hij, Function.update_self] at hi
    injection hi with hi
    injection hi with hc hr hm
    exact .inr ⟨hij, hc, hr, hm⟩
  · rw [Function.update_of_ne hij] at hi
    exact .inl ⟨hij, hi⟩

/-- A request is sent with the next number of the object made last for its name. -/
theorem Distinct.send (hs : Distinct s) {j : Nat} {c : Call} {r : Request}
    (hlatest : Latest s.endpoints (s.sending c).clientEndpointId c.endpoint)
    (hroom : (s.endpoints.objects c.endpoint).sendSeq + 1 < 18446744073709551616) :
    Distinct (s.send j c r) := by
  have hnext : (s.sending c).sendSeq = (s.endpoints.objects c.endpoint).sendSeq + 1 :=
    Nat.mod_eq_of_lt hroom
  have hcounter : ((s.send j c r).endpoints.objects c.endpoint).sendSeq
      = (s.endpoints.objects c.endpoint).sendSeq + 1 := by
    simp only [Flow.send, AdminClientEndpointData.modify, Function.update_self]
    exact Nat.mod_eq_of_lt hroom
  have hkept : (s.endpoints.objects c.endpoint).incrementSendSeq.2.key
      = (s.endpoints.objects c.endpoint).key := rfl
  have hgrows : ∀ e, (s.endpoints.objects e).sendSeq
      ≤ ((s.send j c r).endpoints.objects e).sendSeq := by
    have hle := Nat.le_succ (s.endpoints.objects c.endpoint).sendSeq
    rw [Nat.succ_eq_add_one, ← hnext] at hle
    exact modify_sendSeq hkept hle
  have hfree : '#' ∉ (s.sending c).clientEndpointId.toList :=
    (s.provisions.objects c.provision).hashFree
  -- what is under the key of the new request has older numbers
  have hflights : ∀ i c' r' m', s.chains i = some (.sent c' r' m') →
      (dataKeyOf r' m').getKey = (dataKeyOf r (s.sending c)).getKey →
        m'.sendSeq ≠ (s.sending c).sendSeq := by
    intro i c' r' m' hi hkey
    have hid := endpoint_of_key (hs.hashFree i c' r' m' hi) hfree hkey
    have hle := hs.flightsBelow _ _ hlatest i c' r' m' hi hid
    omega
  constructor
  case nodup => exact hs.nodup
  case hashFree =>
    intro i c' r' m' hi
    rcases send_sent hi with ⟨-, hi⟩ | ⟨-, -, -, rfl⟩
    · exact hs.hashFree i c' r' m' hi
    · exact hfree
  case apart =>
    intro i c' r' m' hi hin
    rcases send_sent hi with ⟨-, hi⟩ | ⟨-, rfl, rfl, rfl⟩
    · exact hs.apart i c' r' m' hi hin
    · obtain ⟨x, hx, hseq⟩ := List.mem_map.mp hin
      have hle := hs.eventsBelow _ _ hlatest _ (ofEndpoint_dataKey hfree) x hx
      omega
  case flights =>
    intro i c₁ r₁ m₁ hi i' c₂ r₂ m₂ hi' hne hkey
    rcases send_sent hi with ⟨-, hold⟩ | ⟨rfl, rfl, rfl, rfl⟩
    · rcases send_sent hi' with ⟨-, hold'⟩ | ⟨rfl, rfl, rfl, rfl⟩
      · exact hs.flights i c₁ r₁ m₁ hold i' c₂ r₂ m₂ hold' hne hkey
      · exact hflights i c₁ r₁ m₁ hold hkey
    · rcases send_sent hi' with ⟨-, hold'⟩ | ⟨heq, -⟩
      · exact (hflights i' c₂ r₂ m₂ hold' hkey.symm).symm
      · exact (hne heq.symm).elim
  case eventsBelow =>
    intro id e he k hk x hx
    exact Nat.le_trans (hs.eventsBelow id e (he.of_modify hkept) k hk x hx) (hgrows e)
  case flightsBelow =>
    intro id e he i c' r' m' hi hid
    rcases send_sent hi with ⟨-, hi⟩ | ⟨-, rfl, rfl, rfl⟩
    · exact Nat.le_trans (hs.flightsBelow id e (he.of_modify hkept) i c' r' m' hi hid) (hgrows e)
    · have hold := he.of_modify hkept
      rw [← hid] at hold
      rw [← hlatest.unique hold, hcounter, hnext]

/-- A document: a new object for a name nothing is left of, or a change that leaves the
    counter alone. -/
theorem Distinct.loadEndpoint (hs : Distinct s) {doc : EndpointDocument}
    (hc : s.NumbersFresh (.loadEndpoint doc)) (haccepted : doc.accepted = true) :
    Distinct { s with endpoints := (s.endpoints.put doc).2 } := by
  simp only [AdminClientEndpointData.put]
  split
  · next hnone =>
      obtain ⟨hevents, hflights⟩ := hc haccepted hnone
      have hlatest : ∀ id e,
          Latest (s.endpoints.add (AdminClientEndpoint.assign {} doc)) id e →
            id = doc.id ∨ (Latest s.endpoints id e ∧ e ≠ s.endpoints.made) := by
        intro id e he
        by_cases hmade : e = s.endpoints.made
        · left
          have hkey := he.key
          simp only [AdminClientEndpointData.add, hmade, Function.update_self] at hkey
          exact hkey.symm
        · right
          have hlt : e < s.endpoints.made := by
            have hlt := he.made
            simp only [AdminClientEndpointData.add] at hlt
            omega
          have hkey := he.key
          simp only [AdminClientEndpointData.add, Function.update_of_ne hmade] at hkey
          refine ⟨⟨hlt, hkey, ?_⟩, hmade⟩
          intro q hq hqid
          refine he.last q (Nat.lt_succ_of_lt hq) ?_
          simp only [AdminClientEndpointData.add, Function.update_of_ne (Nat.ne_of_lt hq)]
          exact hqid
      refine ⟨hs.nodup, hs.hashFree, hs.apart, hs.flights, ?_, ?_⟩
      · intro id e he k hk x hx
        rcases hlatest id e he with rfl | ⟨hold, hmade⟩
        · rw [hevents k hk] at hx
          cases hx
        · simp only [AdminClientEndpointData.add, Function.update_of_ne hmade]
          exact hs.eventsBelow id e hold k hk x hx
      · intro id e he j c r m hj hid
        rcases hlatest id e he with rfl | ⟨hold, hmade⟩
        · exact (hflights j c r m hj hid).elim
        · simp only [AdminClientEndpointData.add, Function.update_of_ne hmade]
          exact hs.flightsBelow id e hold j c r m hj hid
  · next q hq =>
      split
      · exact hs
      · refine hs.shrink (fun _ _ _ _ h => h) (.refl _) ?_
        intro id e he
        have hkept : ((s.endpoints.objects q).assign doc).key = (s.endpoints.objects q).key := by
          rw [AdminClientEndpoint.assign_key, (s.endpoints.keyed doc.id q hq).2]
        have hle : (s.endpoints.objects q).sendSeq
            ≤ ((s.endpoints.objects q).assign doc).sendSeq := Nat.le_refl _
        exact ⟨he.of_modify hkept, modify_sendSeq hkept hle e⟩

/-- Requests get on their way by a `send` only. -/
theorem sent_before (h : act s a = .ok t)
    (hnot : ∀ j c r, a = .send j → s.chains j ≠ some (.built c r)) {j : Nat} {c : Call}
    {r : Request} {m : Sending} (hj : t.chains j = some (.sent c r m)) :
    s.chains j = some (.sent c r m) := by
  rcases act_chains h hj with hold | hbrings
  · exact hold
  · cases hbrings with
    | send built => exact (hnot j c r rfl built).elim

/-- Anything but a request that is sent, or a change of the endpoints. -/
theorem Distinct.other (hs : Distinct s) (h : act s a = .ok t)
    (hnot : ∀ j c r, a = .send j → s.chains j ≠ some (.built c r))
    (hendpoints : t.endpoints = s.endpoints) : Distinct t := by
  rcases act_events h with ⟨hshrunk, -⟩
    | ⟨j, env, response, c, r, m, valid, outState, w, rfl, hstores, hshrunk, -⟩
  · refine hs.shrink (fun _ _ _ _ hj => sent_before h hnot hj) hshrunk ?_
    rw [hendpoints]
    exact fun _ _ he => ⟨he, Nat.le_refl _⟩
  · refine hs.store hstores hshrunk ?_ hendpoints
    intro i c' r' m' hi
    refine ⟨?_, sent_before h hnot hi⟩
    rintro rfl
    exact response_self hstores.sent h hi

/-- **STEP LEMMA**: an act that keeps the numbers fresh. -/
theorem act_distinct (hs : Distinct s) (ha : s.NumbersFresh a) (h : act s a = .ok t) :
    Distinct t := by
  by_cases hsend : ∃ j c r, a = .send j ∧ s.chains j = some (.built c r)
  · obtain ⟨j, c, r, rfl, hc⟩ := hsend
    obtain ⟨hlatest, hroom⟩ := ha c r hc
    simp only [act, hc] at h
    injection h with h
    rw [← h]
    exact hs.send hlatest hroom
  · have hnot : ∀ j c r, a = .send j → s.chains j ≠ some (.built c r) :=
      fun j c r hj hc => hsend ⟨j, c, r, hj, hc⟩
    rcases act_endpoints h with hsame | ⟨doc, rfl, haccepted, rfl⟩ | ⟨rfl, rfl⟩
      | ⟨j, c, r, rfl, hc, -⟩
    · exact hs.other h hnot hsame
    · exact hs.loadEndpoint ha haccepted
    · exact hs.shrink (fun _ _ _ _ h => h) (.refl _)
        (fun id e he => ⟨⟨he.made, he.key, he.last⟩, Nat.le_refl _⟩)
    · exact (hnot j c r rfl hc).elim

end OneAct

/-! ## Runs -/

/-- **SEND SEQUENCES ARE ADDRESSES**: in every run whose acts keep the numbers fresh, the
    events stored under a key have distinct numbers, and a number selects one event at
    most. -/
theorem send_sequences_distinct (schedule : List Act) (s : Flow)
    (hall : AllUntil act Flow.NumbersFresh {} schedule)
    (hrun : runUntil act {} schedule = .ok s) (dataKey : DataKey) :
    ((eventsOf s.world.clientEvents dataKey.getKey).map MockEvent.seq).Nodup
      ∧ ∀ sendSeq, (eventsOf s.world.clientEvents dataKey.getKey).countP
          (fun e => getSeq e == sendSeq) ≤ 1 := by
  have hdistinct := runUntil_invariant_of (I := Distinct)
    (fun _ _ _ hs ha h => act_distinct hs ha h) schedule {} s distinct_start hall hrun
  have hnodup := hdistinct.nodup dataKey.getKey
  refine ⟨hnodup, ?_⟩
  intro sendSeq
  have hcount := List.nodup_iff_count_le_one.mp hnodup sendSeq
  rw [List.count, List.countP_map] at hcount
  exact hcount

/-- A chain of two requests, both stored. -/
def twoStored : List Act := staying ++ [.send 0, .response 0 idleEnv accepted]

/-- Its events have the numbers 1 and 2. -/
theorem staying_chain_numbers_distinct :
    ∃ s, runUntil act {} twoStored = .ok s
      ∧ (eventsOf s.world.clientEvents (DataKey.ofClient "x" "GET" "/a").getKey).map
          MockEvent.seq = [1, 2]
      ∧ ((eventsOf s.world.clientEvents (DataKey.ofClient "x" "GET" "/a").getKey).map
          MockEvent.seq).Nodup := by
  refine ⟨_, rfl, rfl, ?_⟩
  refine (send_sequences_distinct twoStored _ ?_ rfl _).1
  -- the first and the only object is the last one made
  have hlatest : ∀ d : AdminClientEndpointData, d.made = 1 → (d.objects 0).key = "x" →
      Latest d "x" 0 := fun d hmade hkey =>
    ⟨by omega, hkey, fun q hq _ => by omega⟩
  refine allUntil_cons (fun _ _ => ⟨fun _ _ => rfl, fun _ _ _ _ h => nomatch h⟩) rfl ?_
  refine allUntil_cons True.intro rfl ?_
  refine allUntil_cons True.intro rfl ?_
  refine allUntil_cons True.intro rfl ?_
  refine allUntil_cons True.intro rfl ?_
  refine allUntil_cons ?_ rfl ?_
  · intro c r hc
    cases hc
    exact ⟨hlatest _ rfl rfl, by decide⟩
  refine allUntil_cons True.intro rfl ?_
  refine allUntil_cons True.intro rfl ?_
  refine allUntil_cons ?_ rfl (allUntil_cons True.intro rfl True.intro)
  intro c r hc
  cases hc
  exact ⟨hlatest _ rfl rfl, by decide⟩

/-- An endpoint that is deleted and made again while an event of it is stored. -/
def madeAgain : List Act :=
  [.loadEndpoint (openEndpoint "x"),
    .loadProvision (linkOf "initial" "" "x" mark_not_in_x),
    .triggerClientOperation "f" plainTrigger, .transform 0 idleEnv, .send 0,
    .response 0 idleEnv accepted,
    .clearEndpoints, .loadEndpoint (openEndpoint "x"),
    .triggerClientOperation "f" plainTrigger, .transform 1 idleEnv, .send 1,
    .response 1 idleEnv accepted]

/-- Both events have the number 1. -/
theorem endpoint_made_again_repeats_numbers :
    ¬ ∀ (schedule : List Act) (s : Flow), runUntil act {} schedule = .ok s →
      ∀ dataKey : DataKey,
        ((eventsOf s.world.clientEvents dataKey.getKey).map MockEvent.seq).Nodup := by
  intro h
  have hnodup := h madeAgain _ rfl (DataKey.ofClient "x" "GET" "/a")
  exact absurd hnodup (show ¬ [1, 1].Nodup by decide)

end H2ClientFlow
