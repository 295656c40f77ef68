import H2agent.LookupKeyProofs
import H2agent.OwnProvisionProofs

/-! # Key isolation — one key does not see the receptions on others

    State and chain variables live in the history of a normalized key, method and
    URI, and a reception reads and writes the history of its own key only, as
    long as the provision it matches works on the request, its variables and
    the response.  Two runs are compared: a sequence of receptions on any keys,
    and its receptions on one key alone, at another time and with everything the
    receptions on other keys left gone.

    * `view`: what a search sees of a key, and what each operation of the store
      makes of it;
    * `receive_other`, `receive_own`: a reception on another key, and one on the
      key itself;
    * `key_isolation`: whole runs. -/

namespace H2Isolation

open FallbackList H2Convert H2Filter H2Key H2Lookup H2ServerProvision H2Source H2Store H2Target
open H2Traffic H2Transformation JsonValue StepRun

/-! ## What a search sees of a key -/

/-- The states and the variables under an aggregated key. -/
abbrev View := Option (List String × TextMap String)

def view (m : MockData MockEvent) (k : String) : View :=
  (m.lookup k).map (fun h => (h.events.map MockEvent.state, h.chainVariables))

/-- What the search for a state and its variables answers. -/
def View.found : View → Option (Bool × String × TextMap String)
  | none => some (false, defaultState, ∅)
  | some (states, chainVariables) =>
      match states.getLast? with
      | none => none
      | some state =>
          if state.isEmpty then some (true, defaultState, ∅) else some (true, state, chainVariables)

theorem find_eq_found (m : MockData MockEvent) (dataKey : DataKey) :
    m.findLastRegisteredRequestState dataKey = (view m dataKey.getKey).found := by
  unfold MockData.findLastRegisteredRequestState view
  cases m.lookup dataKey.getKey with
  | none => rfl
  | some h =>
      have hlast : h.getLastRegisteredRequestState = (h.events.map MockEvent.state).getLast? := by
        rw [List.getLast?_map]
        rfl
      cases hl : (h.events.map MockEvent.state).getLast? with
      | none =>
          rw [hl] at hlast
          simp only [Option.map_some, View.found, hlast, hl]
      | some state =>
          rw [hl] at hlast
          simp only [Option.map_some, View.found, hlast, hl]

/-- One more event. -/
def View.load (x : View) (state : String) (historyEnabled : Bool) : View :=
  match x with
  | none => some ([state], ∅)
  | some (states, chainVariables) =>
      some (if !historyEnabled && states.length != 0 then states.set 0 state else states ++ [state],
        chainVariables)

/-- Other variables, when the key is there. -/
def View.chain (x : View) (chainVariables : TextMap String) : View :=
  x.map (fun y => (y.1, chainVariables))

theorem states_loadEvent (h : MockEventsHistory MockEvent) (event : MockEvent)
    (historyEnabled : Bool) :
    some ((h.loadEvent event historyEnabled).events.map MockEvent.state,
        (h.loadEvent event historyEnabled).chainVariables)
      = View.load (some (h.events.map MockEvent.state, h.chainVariables)) event.state
          historyEnabled := by
  unfold MockEventsHistory.loadEvent View.load
  dsimp only
  rw [List.length_map]
  split
  · rw [List.map_set]
  · rw [List.map_append]
    rfl

theorem view_loadServerEvent (w : World) (dataKey : DataKey) (event : MockEvent)
    (historyEnabled : Bool) (k : String) :
    view (loadServerEvent w dataKey event historyEnabled).serverEvents.map k
      = if k = dataKey.getKey then (view w.serverEvents.map k).load event.state historyEnabled
        else view w.serverEvents.map k := by
  unfold view
  rw [lookup_loadServerEvent]
  by_cases hk : k = dataKey.getKey
  · rw [if_pos hk, if_pos hk, hk, Option.map_some, states_loadEvent, MockData.getEvents]
    cases w.serverEvents.map.lookup dataKey.getKey with
    | none =>
        cases historyEnabled with
        | false => rfl
        | true => rfl
    | some h => rfl
  · rw [if_neg hk, if_neg hk]

theorem view_chainServerVariables (w : World) (dataKey : DataKey)
    (chainVariables : TextMap String) (k : String) :
    view (chainServerVariables w dataKey chainVariables).serverEvents.map k
      = if k = dataKey.getKey then (view w.serverEvents.map k).chain chainVariables
        else view w.serverEvents.map k := by
  unfold view
  rw [lookup_chainServerVariables]
  by_cases hk : k = dataKey.getKey
  · rw [if_pos hk, if_pos hk, View.chain, Option.map_map, Option.map_map]
    rfl
  · rw [if_neg hk, if_neg hk]

/-- The purge of a key with a method; without a URI it is refused. -/
theorem view_clearServerKey (w : World) {method : String} (hm : method ≠ "") (uri k : String) :
    view (clearServerKey w (.ofServer method uri)).serverEvents.map k
      = if k = (DataKey.ofServer method uri).getKey ∧ uri ≠ "" then none
        else view w.serverEvents.map k := by
  unfold view
  rw [lookup_clearServerKey w hm]
  split
  · rfl
  · rfl

/-! ## What a reception makes of a key -/

/-- The key after a provisioned reception on it. -/
def View.registered (s : TrafficServer) (uri : String) (out : ServerState) (x : View) : View :=
  if s.purgeExecution && out.outState == "purge" then (if uri ≠ "" then none else x)
  else if s.serverData then (x.load out.outState s.serverDataKeyHistory).chain out.world.vars
  else x

/-- The key after an unprovisioned reception on it. -/
def View.unknown (s : TrafficServer) (x : View) : View :=
  if s.serverData then x.load "" true else x

/-- A provisioned reception changes its own key. -/
theorem view_register (env : Env) (s : TrafficServer) (req : Request) (c : Context)
    (p : Provisioned) {out : ServerState} (hm : req.method ≠ "") (hmethod : out.outStateMethod = "")
    (hout : out.world.serverEvents = s.world.serverEvents) (k : String) :
    view (s.register env req c p out).serverEvents.map k
      = if k = (s.normalizedKey env req).getKey
        then (view s.world.serverEvents.map k).registered s (normalize env.lib s.matching req).1 out
        else view s.world.serverEvents.map k := by
  unfold TrafficServer.register View.registered
  dsimp only
  rw [hmethod]
  by_cases hpurge : (s.purgeExecution && out.outState == "purge") = true
  · rw [if_pos hpurge, if_pos hpurge, TrafficServer.normalizedKey, view_clearServerKey _ hm, hout]
    by_cases hk : k = (DataKey.ofServer req.method (normalize env.lib s.matching req).1).getKey
    · rw [if_pos hk]
      by_cases hu : (normalize env.lib s.matching req).1 ≠ ""
      · have hboth := And.intro hk hu
        rw [if_pos hboth, if_pos hu]
      · rw [if_neg (fun h => hu (And.right h)), if_neg hu]
    · rw [if_neg (fun h => hk (And.left h)), if_neg hk]
  · rw [if_neg hpurge, if_neg hpurge]
    by_cases hdata : s.serverData = true
    · rw [if_pos hdata, if_pos hdata]
      show view (chainServerVariables _ _ _).serverEvents.map k = _
      rw [view_chainServerVariables, view_loadServerEvent, hout, DataKey.getKey_setProvisionUri]
      by_cases hk : k = (s.normalizedKey env req).getKey
      · rw [if_pos hk, if_pos hk, if_pos hk]
        rfl
      · rw [if_neg hk, if_neg hk, if_neg hk]
    · rw [if_neg hdata, if_neg hdata, hout]
      exact (ite_self _).symm

theorem view_registerUnknown (env : Env) (s : TrafficServer) (req : Request) (k : String) :
    view (s.registerUnknown env req).serverEvents.map k
      = if k = (s.normalizedKey env req).getKey then (view s.world.serverEvents.map k).unknown s
        else view s.world.serverEvents.map k := by
  unfold TrafficServer.registerUnknown View.unknown
  by_cases hdata : s.serverData = true
  · rw [if_pos hdata, if_pos hdata, view_loadServerEvent]
    rfl
  · rw [if_neg hdata, if_neg hdata]
    exact (ite_self _).symm

theorem vault_register (env : Env) (s : TrafficServer) (req : Request) (c : Context)
    (p : Provisioned) (out : ServerState) :
    (s.register env req c p out).vault = out.world.vault := by
  unfold TrafficServer.register
  dsimp only
  split
  · rfl
  · split
    · split <;> rfl
    · rfl

theorem vault_registerUnknown (env : Env) (s : TrafficServer) (req : Request) :
    (s.registerUnknown env req).vault = s.world.vault := by
  unfold TrafficServer.registerUnknown
  split <;> rfl

/-! ## Receptions -/

/-- `checkMethodIsImplemented`, and `checkMethodIsAllowed`: what they refuse does not
    come to `receive`. -/
def checkMethodIsImplemented (method : String) : Bool :=
  method == "POST" || method == "GET" || method == "PUT" || method == "DELETE"
    || method == "HEAD"

theorem implemented_plain {method : String} (h : checkMethodIsImplemented method = true) :
    method ≠ "" ∧ Plain method := by
  simp only [checkMethodIsImplemented, Bool.or_eq_true, beq_iff_eq, or_assoc] at h
  rcases h with rfl | rfl | rfl | rfl | rfl <;> exact ⟨by decide, by decide⟩

/-- A reception: a request that is let in, and the outside as it is then. -/
structure Received where
  env : Env
  req : Request
  implemented : checkMethodIsImplemented req.method = true

/-- A normalized key. -/
structure Key where
  method : String
  uri : String
  implemented : checkMethodIsImplemented method = true

def Key.dataKey (k : Key) : DataKey := .ofServer k.method k.uri

/-- The URI a request is stored under. -/
def Received.normalizedUri (c : Config) (r : Received) : String := (normalize r.env.lib c r.req).1

/-- Whether a reception is one on the key. -/
def Received.on (c : Config) (k : Key) (r : Received) : Bool :=
  decide (r.req.method = k.method ∧ r.normalizedUri c = k.uri)

/-- The same request again, at another time and with another number, and an outside
    with the same libraries and schemas. -/
structure Repeats (r r' : Received) : Prop where
  outside : SameOutside r.env r'.env
  request : ∃ receptionTimestampUs receptionId,
    r'.req = { r.req with receptionTimestampUs, receptionId }

/-- Two servers that agree on a key. -/
structure Agree (c : Config) (k : Key) (s s' : TrafficServer) : Prop where
  matching : s.matching = c
  matching' : s'.matching = c
  serverData : s.serverData = s'.serverData
  serverDataKeyHistory : s.serverDataKeyHistory = s'.serverDataKeyHistory
  purgeExecution : s.purgeExecution = s'.purgeExecution
  provisions : s.provisions = s'.provisions
  vault : s.world.vault = s'.world.vault
  view : view s.world.serverEvents.map k.dataKey.getKey
    = view s'.world.serverEvents.map k.dataKey.getKey

/-- Servers go on agreeing on a key when their new worlds do. -/
theorem Agree.withWorld {c : Config} {k : Key} {s s' : TrafficServer} (hs : Agree c k s s')
    {w w' : World} {triggers triggers' : List (String × String)} (hvault : w.vault = w'.vault)
    (hview : H2Isolation.view w.serverEvents.map k.dataKey.getKey
      = H2Isolation.view w'.serverEvents.map k.dataKey.getKey) :
    Agree c k { s with world := w, clientTriggers := triggers }
      { s' with world := w', clientTriggers := triggers' } :=
  ⟨hs.matching, hs.matching', hs.serverData, hs.serverDataKeyHistory, hs.purgeExecution,
    hs.provisions, hvault, hview⟩

/-- A reply with what is then seen of a key: whether it is there, its state and its
    variables. -/
abbrev Seen := Reply × Option (Bool × String × TextMap String)

def seen (k : Key) (result : Reply × TrafficServer) : Seen × TrafficServer :=
  ((result.1, result.2.world.serverEvents.map.findLastRegisteredRequestState k.dataKey), result.2)

/-- A reception as it is seen from a key. -/
def receiveSeen (k : Key) (s : TrafficServer) (r : Received) : Except Fault (Seen × TrafficServer) :=
  (s.receive r.env r.req).map (seen k)

/-- The provision a reception matches, if any, works on its own key. -/
def MatchesOwn (s : TrafficServer) (r : Received) : Prop :=
  ∀ c p, s.context r.env r.req = some c →
    s.select r.env.lib c.inState r.req.method c.classificationUri = some p →
    OwnProvision p.provision

variable {c : Config} {k : Key}

theorem normalizedKey_own {s : TrafficServer} (hs : s.matching = c) {r : Received}
    (h : r.on c k = true) : s.normalizedKey r.env r.req = k.dataKey := by
  obtain ⟨hm, hu⟩ := of_decide_eq_true h
  unfold TrafficServer.normalizedKey Key.dataKey
  rw [hm, hs]
  exact congrArg (DataKey.ofServer k.method) hu

theorem normalizedKey_other {s : TrafficServer} (hs : s.matching = c) {r : Received}
    (h : r.on c k = false) : k.dataKey.getKey ≠ (s.normalizedKey r.env r.req).getKey := by
  intro heq
  obtain ⟨hm, hu⟩ := calculateStringKey_pair_inj (implemented_plain k.implemented).2
    (implemented_plain r.implemented).2 heq
  refine of_decide_eq_false h ⟨hm.symm, ?_⟩
  rw [Received.normalizedUri, ← hs]
  exact hu.symm

/-- The request as a provision gets it. -/
def receptionOf (c : Context) (req : Request) : Reception :=
  ⟨c.normalizedUri, req.uriPath, c.qmap, { str := req.body }, req.headers, req.receptionId⟩

/-- A reception once its context and its provision are found. -/
theorem receive_eq (env : Env) (s : TrafficServer) (req : Request) :
    s.receive env req
      = match s.context env req with
        | none => .error .undefined
        | some c =>
            match s.select env.lib c.inState req.method c.classificationUri with
            | none =>
                .ok (TrafficServer.notImplemented, { s with world := s.registerUnknown env req })
            | some p =>
                match p.provision.transform env (receptionOf c req)
                    { s.world with vars := c.chainVariables } with
                | .error e => .error e
                | .ok out =>
                    .ok (replyOf out,
                      { s with
                        world := s.register env req c p out,
                        clientTriggers := s.clientTriggers ++ out.clientProvisionTriggers }) := by
  unfold TrafficServer.receive TrafficServer.process
  cases s.context env req with
  | none => rfl
  | some c =>
      dsimp only
      cases s.select env.lib c.inState req.method c.classificationUri with
      | none => rfl
      | some p =>
          unfold receptionOf
          dsimp only
          generalize p.provision.transform env _ _ = result
          cases result with
          | error e => rfl
          | ok out => rfl

/-- **STEP LEMMA, ANOTHER KEY**: a reception on another key leaves what the servers
    agree on. -/
theorem receive_other {s s' t : TrafficServer} {r : Received} {o : Seen} (hs : Agree c k s s')
    (hown : MatchesOwn s r) (hoff : r.on c k = false) (h : receiveSeen k s r = .ok (o, t)) :
    Agree c k t s' := by
  have hkey := normalizedKey_other hs.matching hoff
  have hm := (implemented_plain r.implemented).1
  unfold receiveSeen at h
  rw [receive_eq] at h
  cases hctx : s.context r.env r.req with
  | none =>
      rw [hctx] at h
      cases h
  | some ctx =>
      rw [hctx] at h
      dsimp only at h
      cases hsel : s.select r.env.lib ctx.inState r.req.method ctx.classificationUri with
      | none =>
          rw [hsel] at h
          cases h
          refine hs.withWorld ?_ ?_
          · exact (vault_registerUnknown r.env s r.req).trans hs.vault
          · refine Eq.trans ?_ hs.view
            exact (view_registerUnknown r.env s r.req _).trans (if_neg hkey)
      | some p =>
          rw [hsel] at h
          dsimp only at h
          cases hout : p.provision.transform r.env (receptionOf ctx r.req)
              { s.world with vars := ctx.chainVariables } with
          | error e =>
              rw [hout] at h
              cases h
          | ok out =>
              rw [hout] at h
              cases h
              obtain ⟨hstore, hvault, hmethod⟩ := transform_frame (hown ctx p hctx hsel) hout
              refine hs.withWorld ?_ ?_
              · exact ((vault_register r.env s r.req ctx p out).trans hvault).trans hs.vault
              · refine Eq.trans ?_ hs.view
                exact (view_register r.env s r.req ctx p hm hmethod hstore _).trans (if_neg hkey)

/-- The context of a request is what its key shows. -/
theorem context_own {s s' : TrafficServer} {r r' : Received} (hs : Agree c k s s')
    (hr : Repeats r r') (hon : r.on c k = true) :
    r'.on c k = true ∧ s'.context r'.env r'.req = s.context r.env r.req := by
  obtain ⟨us, n, hreq⟩ := hr.request
  have hnormal : normalize r'.env.lib c r'.req = normalize r.env.lib c r.req := by
    rw [hreq, hr.outside.lib]
    rfl
  have hon' : r'.on c k = true := by
    obtain ⟨hm, hu⟩ := of_decide_eq_true hon
    refine decide_eq_true ⟨?_, ?_⟩
    · rw [hreq]
      exact hm
    · rw [Received.normalizedUri, hnormal]
      exact hu
  refine ⟨hon', ?_⟩
  unfold TrafficServer.context
  rw [normalizedKey_own hs.matching hon, normalizedKey_own hs.matching' hon', find_eq_found,
    find_eq_found, hs.view, hs.matching, hs.matching', hnormal]

theorem select_own {s s' : TrafficServer} {r r' : Received} (hs : Agree c k s s')
    (hr : Repeats r r') (inState classificationUri : String) :
    s'.select r'.env.lib inState r'.req.method classificationUri
      = s.select r.env.lib inState r.req.method classificationUri := by
  obtain ⟨us, n, hreq⟩ := hr.request
  unfold TrafficServer.select
  rw [hreq, hs.matching, hs.matching', hs.provisions, hr.outside.lib]

/-- Servers that agree on a key show the same of it. -/
theorem sameStep_seen {t t' : TrafficServer} (ht : Agree c k t t') {reply reply' : Reply}
    (hreply : reply' = reply) :
    SameStep (Agree c k) ((Except.ok (reply, t) : Except Fault _).map (seen k))
      ((Except.ok (reply', t') : Except Fault _).map (seen k)) := by
  refine .inr ⟨(reply, t.world.serverEvents.map.findLastRegisteredRequestState k.dataKey), t, t',
    rfl, ?_, ht⟩
  show Except.ok ((reply', t'.world.serverEvents.map.findLastRegisteredRequestState k.dataKey), t')
    = _
  rw [hreply, find_eq_found, find_eq_found, ht.view]

/-- The key after a provisioned reception on it depends on what the servers agree on
    and on what was built. -/
theorem Agree.registered {s s' : TrafficServer} (hs : Agree c k s s') {a b : World}
    {out out' : ServerState} (hb : Built a b out out') (uri : String) (x : View) :
    x.registered s uri out = x.registered s' uri out' := by
  rw [hb.other]
  unfold View.registered
  rw [hs.purgeExecution, hs.serverData, hs.serverDataKeyHistory]
  rfl

/-- **STEP LEMMA, THE KEY ITSELF**: a reception on the key, and its repetition on a
    server that agrees on it, end in the same reply, or in the same fault, and
    the key shows the same afterwards. -/
theorem receive_own {s s' : TrafficServer} {r r' : Received} (hs : Agree c k s s')
    (hown : MatchesOwn s r) (hon : r.on c k = true) (hr : Repeats r r') :
    SameStep (Agree c k) (receiveSeen k s r) (receiveSeen k s' r') := by
  obtain ⟨hon', hcontext⟩ := context_own hs hr hon
  have hkey := normalizedKey_own hs.matching hon
  have hkey' := normalizedKey_own hs.matching' hon'
  have hm := (implemented_plain r.implemented).1
  have hm' := (implemented_plain r'.implemented).1
  unfold receiveSeen
  rw [receive_eq, receive_eq, hcontext]
  cases hctx : s.context r.env r.req with
  | none => exact .inl ⟨_, rfl, rfl⟩
  | some ctx =>
      dsimp only
      rw [select_own hs hr]
      cases hsel : s.select r.env.lib ctx.inState r.req.method ctx.classificationUri with
      | none =>
          -- without a provision the key gets an event without a state
          dsimp only
          refine sameStep_seen ?_ rfl
          refine hs.withWorld ?_ ?_
          · show (s.registerUnknown r.env r.req).vault = (s'.registerUnknown r'.env r'.req).vault
            rw [vault_registerUnknown, vault_registerUnknown, hs.vault]
          · show view (s.registerUnknown r.env r.req).serverEvents.map _
              = view (s'.registerUnknown r'.env r'.req).serverEvents.map _
            rw [view_registerUnknown, view_registerUnknown, hkey, hkey', if_pos rfl, if_pos rfl,
              hs.view, View.unknown, View.unknown, hs.serverData]
      | some p =>
          -- the provision runs twice, on the variables that both servers show of the key
          have hp := hown ctx p hctx hsel
          obtain ⟨us, n, hreq⟩ := hr.request
          have hreception : receptionOf ctx r'.req = { receptionOf ctx r.req with recvSeq := n } := by
            rw [hreq]
            rfl
          have hbuilt := transform_beside (a := { s.world with vars := ctx.chainVariables })
            (b := { s'.world with vars := ctx.chainVariables }) hs.vault rfl hr.outside hp
            (receptionOf ctx r.req) n
          rw [← hreception] at hbuilt
          dsimp only
          generalize p.provision.transform r.env (receptionOf ctx r.req)
            { s.world with vars := ctx.chainVariables } = result at hbuilt ⊢
          generalize p.provision.transform r'.env (receptionOf ctx r'.req)
            { s'.world with vars := ctx.chainVariables } = result' at hbuilt ⊢
          cases hbuilt with
          | error e => exact .inl ⟨_, rfl, rfl⟩
          | @ok out out' hb =>
              have huri : (normalize r'.env.lib s'.matching r'.req).1
                  = (normalize r.env.lib s.matching r.req).1 :=
                congrArg DataKey.uri (hkey'.trans hkey.symm)
              dsimp only
              refine sameStep_seen ?_ hb.reply
              refine hs.withWorld ?_ ?_
              · show (s.register r.env r.req ctx p out).vault
                  = (s'.register r'.env r'.req ctx p out').vault
                rw [vault_register, vault_register, hb.vault, hb.vault', hs.vault]
              · show view (s.register r.env r.req ctx p out).serverEvents.map _
                  = view (s'.register r'.env r'.req ctx p out').serverEvents.map _
                rw [view_register _ _ _ _ _ hm hb.method hb.stores,
                  view_register _ _ _ _ _ hm' hb.method' hb.stores', hkey, hkey', if_pos rfl,
                  if_pos rfl, hs.view, huri, hs.registered hb]

/-- **KEY ISOLATION**: for every key, every state of the server and every sequence of
    receptions whose matched provisions work on their own key, what is seen of
    the key (replies, states and chain variables, and faults) is what is seen
    when only the receptions on it are repeated; where a fault on another key
    ends the run, it is a first part of that. -/
theorem key_isolation (k : Key) (s : TrafficServer) (rs rs' : List Received)
    (hmatched : AllUntil (silent (receiveSeen k)) MatchesOwn s rs)
    (hrepeats : List.Forall₂ Repeats (rs.filter (Received.on s.matching k)) rs') :
    observed (receiveSeen k) (Received.on s.matching k) s rs
        <+: observed (receiveSeen k) (Received.on s.matching k) s rs'
      ∧ ((∃ t, runUntil (silent (receiveSeen k)) s rs = .ok t) →
        observed (receiveSeen k) (Received.on s.matching k) s rs
          = observed (receiveSeen k) (Received.on s.matching k) s rs') := by
  have hs : Agree s.matching k s s := ⟨rfl, rfl, rfl, rfl, rfl, rfl, rfl, rfl⟩
  refine observed_isolated ?_ ?_ ?_ rs rs' s s hs hmatched hrepeats
  · intro t t' r o u hagree hown hoff h
    exact receive_other hagree hown hoff h
  · intro t t' r r' hagree hown hon hr
    exact receive_own hagree hown hon hr
  · intro r r' hr hon
    exact (context_own hs hr hon).1

/-! ## Stores of such provisions -/

/-- A store all of whose provisions work on their own key. -/
def OwnStore (d : AdminServerProvisionData) : Prop :=
  ∀ key p, d.map.lookup key = some p → OwnProvision p.provision

theorem select_mem {lib : Lib} {s : TrafficServer} {inState method classificationUri : String}
    {p : Provisioned} (h : s.select lib inState method classificationUri = some p) :
    ∃ key, s.provisions.map.lookup key = some p := by
  have hfind : ∀ uri, s.provisions.find inState method uri = some p →
      ∃ key, s.provisions.map.lookup key = some p := fun uri h => ⟨_, h⟩
  have hregex : s.provisions.findRegexMatching lib inState method classificationUri = some p →
      ∃ key, s.provisions.map.lookup key = some p := by
    intro h
    obtain ⟨key, _, hkey⟩ := List.mem_filterMap.mp (List.mem_of_find?_eq_some h)
    exact ⟨key, hkey⟩
  unfold TrafficServer.select at h
  dsimp only at h
  split at h
  · rename_i found hfound
    obtain rfl := Option.some.inj h
    split at hfound
    · exact hfind _ hfound
    · exact hfind _ hfound
    · exact hregex hfound
  · exact hfind _ h

theorem receive_provisions {env : Env} {s t : TrafficServer} {req : Request} {reply : Reply}
    (h : s.receive env req = .ok (reply, t)) : t.provisions = s.provisions := by
  rw [receive_eq] at h
  split at h
  · cases h
  · split at h
    · cases h
      rfl
    · split at h
      · cases h
      · cases h
        rfl

/-- Over such a store every sequence of receptions matches such provisions. -/
theorem matchesOwn_of_ownStore (k : Key) (rs : List Received) {s : TrafficServer}
    (hs : OwnStore s.provisions) : AllUntil (silent (receiveSeen k)) MatchesOwn s rs := by
  induction rs generalizing s with
  | nil => exact True.intro
  | cons r rs ih =>
      refine ⟨?_, ?_⟩
      · intro c p _ hsel
        obtain ⟨key, hkey⟩ := select_mem hsel
        exact hs key p hkey
      · intro t ht
        refine ih ?_
        unfold silent receiveSeen at ht
        cases hr : s.receive r.env r.req with
        | error e =>
            rw [hr] at ht
            cases ht
        | ok result =>
            obtain ⟨reply, u⟩ := result
            rw [hr] at ht
            obtain rfl := Except.ok.inj ht
            show OwnStore u.provisions
            rw [receive_provisions hr]
            exact hs

/-- A provision for every URI that leaves the URI in a chain variable. -/
def chained : Provisioned :=
  { requestMethod := "GET", requestUri := "",
    provision :=
      { responseCode := 200,
        transformations := .cons
          { sourceType := .RequestUri, targetType := .TVar, target := "first" } .nil .nil } }

def chainedServer : TrafficServer :=
  { world := World.blank, provisions := (⟨∅, []⟩ : AdminServerProvisionData).add chained }

/-- A request for a path. -/
def getPath (path : String) (receptionId : Nat) : Received :=
  ⟨idleEnv, { method := "GET", uriPath := path, receptionId }, rfl⟩

theorem chainedServer_own : OwnStore chainedServer.provisions := by
  refine forall_insert (forall_empty _) ?_
  exact ⟨⟨rfl, True.intro⟩, True.intro, True.intro⟩

/-- Two receptions on `/a` with one on `/b` between them, and alone. -/
theorem other_path_not_seen :
    observed (receiveSeen ⟨"GET", "/a", rfl⟩) (Received.on {} ⟨"GET", "/a", rfl⟩) chainedServer
        [getPath "/a" 1, getPath "/b" 2, getPath "/a" 3]
      = observed (receiveSeen ⟨"GET", "/a", rfl⟩) (Received.on {} ⟨"GET", "/a", rfl⟩)
          chainedServer [getPath "/a" 1, getPath "/a" 2] := by
  have hrepeat : ∀ n m, Repeats (getPath "/a" n) (getPath "/a" m) :=
    fun n m => ⟨⟨rfl, rfl⟩, 0, m, rfl⟩
  have hrepeats : List.Forall₂ Repeats
      ([getPath "/a" 1, getPath "/b" 2, getPath "/a" 3].filter
        (Received.on chainedServer.matching ⟨"GET", "/a", rfl⟩))
      [getPath "/a" 1, getPath "/a" 2] := .cons (hrepeat 1 1) (.cons (hrepeat 3 2) .nil)
  exact (key_isolation ⟨"GET", "/a", rfl⟩ chainedServer _ _
    (matchesOwn_of_ownStore _ _ chainedServer_own) hrepeats).2 ⟨_, rfl⟩

end H2Isolation
