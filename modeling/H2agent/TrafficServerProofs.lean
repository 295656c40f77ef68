import H2agent.ServerProvisionProofs

/-! # The traffic server

    `MyTrafficHttp2Server::receive`: normalization of the URI, search of the mock
    context, selection of a provision (`AdminServerProvisionData` under the
    matching configuration), its transformation, and what is stored of the
    reception.

    The state machine of a key lives in its stored events: a reception is handled
    in the state of the LAST event of the key.  With the history disabled
    `MockEventsHistory::loadEvent` overwrites the FIRST event, which is the last one
    only while there is no other.  `states_kept_iff` says in which runs of
    receptions and administrative changes no state is lost. -/

namespace H2Traffic

open H2Convert H2Key H2ServerProvision H2Store H2Target H2Transformation JsonValue StepRun

/-! ## Provisions and matching -/

/-- A loaded provision under the parts of its key.  `regex` is the key precompiled,
    which `load` does under the matching algorithm `RegexMatching` only. -/
structure Provisioned where
  requestMethod : String
  requestUri : String
  regex : Option String := none
  provision : AdminServerProvision

/-- `AdminServerProvision::getKey`. -/
def Provisioned.getKey (p : Provisioned) : String :=
  calculateStringKey p.provision.inState p.requestMethod p.requestUri

/-- `AdminServerProvisionData`: the map, and its keys in insertion order. -/
structure AdminServerProvisionData where
  map : TextMap Provisioned
  orderedKeys : List String

namespace AdminServerProvisionData

/-- The insertion at the end of `loadSingle`. -/
def add (d : AdminServerProvisionData) (p : Provisioned) : AdminServerProvisionData where
  map := d.map.insert p.getKey p
  orderedKeys :=
    if (d.map.lookup p.getKey).isSome then d.orderedKeys else d.orderedKeys ++ [p.getKey]

/-- `find`. -/
def find (d : AdminServerProvisionData) (inState method uri : String) : Option Provisioned :=
  d.map.lookup (calculateStringKey inState method uri)

/-- `findRegexMatching`: the first key, in insertion order, whose expression matches
    the whole key searched.  An expression never assigned matches nothing. -/
def findRegexMatching (lib : Lib) (d : AdminServerProvisionData)
    (inState method uri : String) : Option Provisioned :=
  let key := calculateStringKey inState method uri
  (d.orderedKeys.filterMap (fun k => d.map.lookup k)).find? (fun p =>
    match p.regex with
    | none => false
    | some regex => (lib.regexMatch regex key).isSome)

end AdminServerProvisionData

/-- `AdminServerMatchingData::AlgorithmType`. -/
inductive AlgorithmType where
  | FullMatching | FullMatchingRegexReplace | RegexMatching
  deriving DecidableEq, Repr

/-- `AdminServerMatchingData::UriPathQueryParametersFilterType`. -/
inductive UriPathQueryParametersFilterType where
  | Sort | PassBy | Ignore
  deriving DecidableEq, Repr

/-- `AdminServerMatchingData::UriPathQueryParametersSeparatorType`. -/
inductive UriPathQueryParametersSeparatorType where
  | Ampersand | Semicolon
  deriving DecidableEq, Repr

/-- `AdminServerMatchingData::Config`. -/
structure Config where
  algorithm : AlgorithmType := .FullMatching
  rgx : String := ""
  fmt : String := ""
  uriPathQueryParametersFilter : UriPathQueryParametersFilterType := .Sort
  uriPathQueryParametersSeparator : UriPathQueryParametersSeparatorType := .Ampersand

/-! ## Requests and what is stored of them -/

/-- What `receive` reads of a request. -/
structure Request where
  method : String
  uriPath : String
  uriQuery : String := ""
  headers : HeaderMap := []
  body : String := ""
  receptionTimestampUs : Nat := 0
  receptionId : Nat := 0

/-- What is sent back. -/
structure Reply where
  statusCode : Nat
  headers : HeaderMap
  body : String
  delayMs : Nat

/-- A member put into an object under a condition. -/
def putIf (condition : Bool) (key : String) (value : Json) (fields : List (String × Json)) :
    List (String × Json) :=
  if condition then Json.setField key value fields else fields

/-- Headers as one object; of repeated ones the last value stays. -/
def headersObject (headers : HeaderMap) : Json :=
  .obj (headers.foldl (fun fields h => Json.setField h.1 (.str h.2) fields) [])

/-- `MockEvent::load` and `MockServerEvent::load`.  The request body is decoded in
    any case, whatever the provision needed. -/
def mockServerEvent (lib : Lib) (req : Request) (previousState state : String) (reply : Reply)
    (virtualOrigin : Option (String × String)) : MockEvent :=
  let requestBody := (DataPart.decode lib { str := req.body } req.headers).json
  let responseBody := DataPart.decode lib { str := reply.body } reply.headers
  let fields := putIf (!previousState.isEmpty) "previousState" (.str previousState) []
  let fields := putIf (!state.isEmpty) "state" (.str state) fields
  let fields := putIf true "receptionTimestampUs" (.uint req.receptionTimestampUs) fields
  let fields := putIf true "responseStatusCode" (.int reply.statusCode) fields
  let fields := putIf (!req.headers.isEmpty) "requestHeaders" (headersObject req.headers) fields
  let fields := putIf (!reply.headers.isEmpty) "responseHeaders" (headersObject reply.headers)
    fields
  let fields := putIf (!requestBody.empty) "requestBody" requestBody fields
  let fields := putIf (!responseBody.str.isEmpty) "responseBody" responseBody.json fields
  let fields := putIf true "recvseq" (.uint req.receptionId) fields
  let fields := putIf true "responseDelayMs" (.uint reply.delayMs) fields
  let fields := match virtualOrigin with
    | none => fields
    | some (method, uri) =>
        putIf (!method.isEmpty) "virtualOrigin"
          (.obj [("method", .str method), ("uri", .str uri)]) fields
  ⟨state, req.receptionId, .obj fields⟩

/-! ## The server -/

/-- `MyTrafficHttp2Server` with the administrative data and the stores it works on.
    The variables of the world are those of the reception at work. -/
structure TrafficServer where
  serverData : Bool := true
  serverDataKeyHistory : Bool := true
  purgeExecution : Bool := true
  matching : Config := {}
  provisions : AdminServerProvisionData := ⟨∅, []⟩
  world : World
  clientTriggers : List (String × String) := []

/-- The mock context of a request: its URIs, its parameters, and the state and the
    variables its key was left in. -/
structure Context where
  normalizedUri : String
  classificationUri : String
  qmap : TextMap String
  inState : String
  chainVariables : TextMap String

/-- The separator of the query parameters. -/
def Config.separator (c : Config) : Char :=
  match c.uriPathQueryParametersSeparator with
  | .Ampersand => '&'
  | .Semicolon => ';'

/-- The normalized URI, the classification URI, and the query parameters. -/
def normalize (lib : Lib) (c : Config) (req : Request) : String × String × TextMap String :=
  if req.uriQuery.isEmpty then (req.uriPath, req.uriPath, ∅)
  else
    let (qmap, uriQueryNormalized) := extractQueryParameters lib.urlDecode req.uriQuery c.separator
    let classificationUri := match c.uriPathQueryParametersFilter with
      | .PassBy => req.uriPath ++ "?" ++ req.uriQuery
      | .Sort => req.uriPath ++ "?" ++ uriQueryNormalized
      | .Ignore => req.uriPath
    (req.uriPath ++ "?" ++ uriQueryNormalized, classificationUri, qmap)

namespace TrafficServer

/-- `normalizedKey`. -/
def normalizedKey (env : Env) (s : TrafficServer) (req : Request) : DataKey :=
  DataKey.ofServer req.method (normalize env.lib s.matching req).1

/-- The search of the mock context; `none` is undefined behaviour of the store. -/
def context (env : Env) (s : TrafficServer) (req : Request) : Option Context :=
  let (normalizedUri, classificationUri, qmap) := normalize env.lib s.matching req
  match s.world.serverEvents.map.findLastRegisteredRequestState (s.normalizedKey env req) with
  | none => none
  | some (_, inState, chainVariables) =>
      some ⟨normalizedUri, classificationUri, qmap, inState, chainVariables⟩

/-- The matching algorithm, and the default provision (empty URI) behind it. -/
def select (lib : Lib) (s : TrafficServer) (inState method classificationUri : String) :
    Option Provisioned :=
  let found := match s.matching.algorithm with
    | .FullMatching => s.provisions.find inState method classificationUri
    | .FullMatchingRegexReplace =>
        s.provisions.find inState method
          (lib.regexReplace s.matching.rgx classificationUri s.matching.fmt)
    | .RegexMatching => s.provisions.findRegexMatching lib inState method classificationUri
  match found with
  | some p => some p
  | none => s.provisions.find inState method ""

end TrafficServer

/-- A reception before anything of it is stored. -/
inductive Processed where
  | unprovisioned (c : Context)
  | provisioned (c : Context) (p : Provisioned) (out : ServerState)

namespace TrafficServer

/-- `receive` up to the end of `transform`. -/
def process (env : Env) (s : TrafficServer) (req : Request) : Except Fault Processed :=
  match s.context env req with
  | none => .error .undefined
  | some c =>
      match s.select env.lib c.inState req.method c.classificationUri with
      | none => .ok (.unprovisioned c)
      | some p =>
          match p.provision.transform env
              ⟨c.normalizedUri, req.uriPath, c.qmap, { str := req.body }, req.headers,
                req.receptionId⟩
              { s.world with vars := c.chainVariables } with
          | .error e => .error e
          | .ok out => .ok (.provisioned c p out)

end TrafficServer

/-- `loadEvent` of the store of the world. -/
def loadServerEvent (w : World) (dataKey : DataKey) (event : MockEvent)
    (historyEnabled : Bool) : World :=
  { w with serverEvents := w.serverEvents.loadEvent dataKey event historyEnabled }

/-- `storeChainVariables` of the store of the world. -/
def chainServerVariables (w : World) (dataKey : DataKey) (chainVariables : TextMap String) :
    World :=
  let map := w.serverEvents.map.storeChainVariables dataKey chainVariables
  { w with serverEvents := { w.serverEvents with map := map } }

/-- `clear` of the store of the world, for a whole key. -/
def clearServerKey (w : World) (dataKey : DataKey) : World :=
  let (_, _, map) := w.serverEvents.map.clear ⟨dataKey, ""⟩
  { w with serverEvents := { w.serverEvents with map := map } }

/-- The reply of a provision. -/
def replyOf (out : ServerState) : Reply :=
  ⟨out.responseStatusCode, out.responseHeaders, out.responseBody.text, out.responseDelayMs⟩

/-- The key of the virtual event: the foreign method, and the foreign URI or the
    normalized one. -/
def foreignKey (c : Context) (out : ServerState) : DataKey :=
  DataKey.ofServer out.outStateMethod
    (if out.outStateUri.isEmpty then c.normalizedUri else out.outStateUri)

namespace TrafficServer

variable (env : Env) (s : TrafficServer) (req : Request)

/-- What a provisioned reception leaves in the stores: a purged key, or its event,
    the variables of the chain and the virtual event. -/
def register (c : Context) (p : Provisioned) (out : ServerState) : World :=
  let key := s.normalizedKey env req
  if s.purgeExecution && out.outState == "purge" then clearServerKey out.world key
  else if s.serverData then
    let hasVirtualMethod := !out.outStateMethod.isEmpty
    let state := if hasVirtualMethod then p.provision.outState else out.outState
    let w := loadServerEvent out.world (key.setProvisionUri p.requestUri)
      (mockServerEvent env.lib req c.inState state (replyOf out) none) s.serverDataKeyHistory
    let w := chainServerVariables w (key.setProvisionUri p.requestUri) out.world.vars
    if hasVirtualMethod then
      loadServerEvent w ((foreignKey c out).setProvisionUri p.requestUri)
        (mockServerEvent env.lib req c.inState out.outState (replyOf out)
          (some (req.method, c.normalizedUri))) s.serverDataKeyHistory
    else w
  else out.world

/-- 501 (Not Implemented). -/
def notImplemented : Reply := ⟨501, [], "", 0⟩

/-- What an unprovisioned reception leaves: an event without states, with the
    history enabled always. -/
def registerUnknown : World :=
  if s.serverData then
    loadServerEvent s.world (s.normalizedKey env req)
      (mockServerEvent env.lib req "" "" notImplemented none) true
  else s.world

/-- `MyTrafficHttp2Server::receive`. -/
def receive : Except Fault (Reply × TrafficServer) :=
  match s.process env req with
  | .error e => .error e
  | .ok (.unprovisioned _) =>
      .ok (notImplemented, { s with world := s.registerUnknown env req })
  | .ok (.provisioned c p out) =>
      .ok (replyOf out,
        { s with
          world := s.register env req c p out,
          clientTriggers := s.clientTriggers ++ out.clientProvisionTriggers })

/-- `PUT server-data/configuration`: success, and the server configured.  A missing
    parameter is empty; to keep the history of discarded events is refused. -/
def configure (discard discardKeyHistory disablePurge : String) : Bool × TrafficServer :=
  if discard.isEmpty && discardKeyHistory.isEmpty && disablePurge.isEmpty then (false, s)
  else if !discard.isEmpty && !discardKeyHistory.isEmpty
      && discard == "true" && discardKeyHistory != "true" then (false, s)
  else
    (true,
      { s with
        serverData := if discard.isEmpty then s.serverData else discard != "true",
        serverDataKeyHistory :=
          if discardKeyHistory.isEmpty then s.serverDataKeyHistory
          else discardKeyHistory != "true",
        purgeExecution :=
          if disablePurge.isEmpty then s.purgeExecution else disablePurge != "true" })

end TrafficServer

/-! ## Runs -/

/-- What happens to the server. -/
inductive Act where
  | receive (req : Request)
  | configure (discard discardKeyHistory disablePurge : String)
  | loadMatching (c : Config)
  | loadProvision (p : Provisioned)
  | clearProvisions

/-- A reception, as against an administrative change. -/
def Act.isReceive : Act → Bool
  | .receive _ => true
  | _ => false

/-- One act on a running server. -/
def act (env : Env) (s : TrafficServer) : Act → Except Fault TrafficServer
  | .receive req => (s.receive env req).map Prod.snd
  | .configure discard discardKeyHistory disablePurge =>
      .ok (s.configure discard discardKeyHistory disablePurge).2
  | .loadMatching c => .ok { s with matching := c }
  | .loadProvision p => .ok { s with provisions := s.provisions.add p }
  | .clearProvisions => .ok { s with provisions := ⟨∅, []⟩ }

/-- A step of a run; a fault ends it. -/
def step (env : Env) (s : Except Fault TrafficServer) (a : Act) : Except Fault TrafficServer :=
  match s with
  | .error e => .error e
  | .ok server => act env server a

/-! ## The events of a key -/

/-- The events stored under an aggregated key. -/
def eventsOf (m : MockData MockEvent) (k : String) : List MockEvent :=
  match m.lookup k with
  | none => []
  | some h => h.events

/-- A history after one more event. -/
def loaded (l : List MockEvent) (event : MockEvent) (historyEnabled : Bool) : List MockEvent :=
  if !historyEnabled && l.length != 0 then l.set 0 event else l ++ [event]

/-- The state a search returns for a state found: the unprovisioned one is missing. -/
def shown (state : String) : String := if state.isEmpty then defaultState else state

/-- The state the next search for a key returns. -/
def nextState (m : MockData MockEvent) (dataKey : DataKey) : Option String :=
  (m.findLastRegisteredRequestState dataKey).map (fun found => found.2.1)

theorem events_loadEvent (h : MockEventsHistory MockEvent) (event : MockEvent)
    (historyEnabled : Bool) :
    (h.loadEvent event historyEnabled).events = loaded h.events event historyEnabled := by
  simp only [MockEventsHistory.loadEvent, loaded]
  split
  · rfl
  · rfl

/-- The histories after one more event. -/
theorem lookup_loadServerEvent (w : World) (dataKey : DataKey) (event : MockEvent)
    (historyEnabled : Bool) (k : String) :
    (loadServerEvent w dataKey event historyEnabled).serverEvents.map.lookup k
      = if k = dataKey.getKey then
          some ((w.serverEvents.map.getEvents dataKey).1.loadEvent event historyEnabled)
        else w.serverEvents.map.lookup k := by
  show (AList.insert dataKey.getKey _ w.serverEvents.map).lookup k = _
  by_cases hk : k = dataKey.getKey
  · rw [if_pos hk, hk, AList.lookup_insert]
    rfl
  · rw [if_neg hk, AList.lookup_insert_ne hk]

/-- Those after other variables: the key keeps its events. -/
theorem lookup_chainServerVariables (w : World) (dataKey : DataKey)
    (chainVariables : TextMap String) (k : String) :
    (chainServerVariables w dataKey chainVariables).serverEvents.map.lookup k
      = if k = dataKey.getKey then
          (w.serverEvents.map.lookup k).map (fun h => { h with chainVariables := chainVariables })
        else w.serverEvents.map.lookup k := by
  show (w.serverEvents.map.storeChainVariables dataKey chainVariables).lookup k = _
  unfold MockData.storeChainVariables
  by_cases hk : k = dataKey.getKey
  · rw [if_pos hk, hk]
    cases hl : w.serverEvents.map.lookup dataKey.getKey with
    | none => exact hl
    | some h => exact AList.lookup_insert _
  · rw [if_neg hk]
    cases w.serverEvents.map.lookup dataKey.getKey with
    | none => rfl
    | some h => exact AList.lookup_insert_ne hk

/-- Those after the purge of a key with a method; without a URI it is refused. -/
theorem lookup_clearServerKey (w : World) {method : String} (hm : method ≠ "") (uri k : String) :
    (clearServerKey w (.ofServer method uri)).serverEvents.map.lookup k
      = if k = (DataKey.ofServer method uri).getKey ∧ uri ≠ "" then none
        else w.serverEvents.map.lookup k := by
  show (w.serverEvents.map.clear ⟨.ofServer method uri, ""⟩).2.2.lookup k = _
  -- with a method the selection is not empty, and the URI decides whether it is allowed
  have hme : method.isEmpty = false := by
    rw [Bool.eq_false_iff, Ne, String.isEmpty_iff]
    exact hm
  have hempty : (⟨.ofServer method uri, ""⟩ : EventKey).empty = false := by
    show ((method.isEmpty && uri.isEmpty) && true) = false
    rw [hme]
    rfl
  have hselect : (⟨.ofServer method uri, ""⟩ : EventKey).checkSelection = !uri.isEmpty := by
    show (((!method.isEmpty && !uri.isEmpty) || (method.isEmpty && uri.isEmpty))
      && !(false && method.isEmpty)) = _
    rw [hme]
    cases uri.isEmpty with
    | false => rfl
    | true => rfl
  unfold MockData.clear
  rw [hempty, hselect, if_neg Bool.false_ne_true]
  by_cases hu : uri = ""
  · have hrefused : (!(!uri.isEmpty)) = true := by
      rw [hu]
      rfl
    rw [if_pos hrefused, if_neg (fun h : _ ∧ uri ≠ "" => h.2 hu)]
  · have hallowed : ¬ (!(!uri.isEmpty)) = true := by
      rw [Bool.not_not, String.isEmpty_iff]
      exact hu
    rw [if_neg hallowed]
    by_cases hk : k = (DataKey.ofServer method uri).getKey
    · rw [if_pos ⟨hk, hu⟩, hk]
      cases hl : w.serverEvents.map.lookup (⟨.ofServer method uri, ""⟩ : EventKey).getKey with
      | none => exact hl
      | some h => exact AList.lookup_erase _ _
    · rw [if_neg (fun h : k = _ ∧ uri ≠ "" => hk h.1)]
      cases w.serverEvents.map.lookup (⟨.ofServer method uri, ""⟩ : EventKey).getKey with
      | none => rfl
      | some h => exact AList.lookup_erase_ne hk

theorem eventsOf_loadEvent (w : World) (dataKey : DataKey) (event : MockEvent)
    (historyEnabled : Bool) (k : String) :
    eventsOf (loadServerEvent w dataKey event historyEnabled).serverEvents.map k
      = if k = dataKey.getKey then loaded (eventsOf w.serverEvents.map k) event historyEnabled
        else eventsOf w.serverEvents.map k := by
  unfold eventsOf
  rw [lookup_loadServerEvent]
  by_cases hk : k = dataKey.getKey
  · rw [if_pos hk, if_pos hk, hk]
    simp only [MockData.getEvents, events_loadEvent]
    cases w.serverEvents.map.lookup dataKey.getKey with
    | none => rfl
    | some h => rfl
  · rw [if_neg hk, if_neg hk]

theorem eventsOf_chainVariables (w : World) (dataKey : DataKey)
    (chainVariables : TextMap String) (k : String) :
    eventsOf (chainServerVariables w dataKey chainVariables).serverEvents.map k
      = eventsOf w.serverEvents.map k := by
  unfold eventsOf
  rw [lookup_chainServerVariables]
  by_cases hk : k = dataKey.getKey
  · rw [if_pos hk]
    cases w.serverEvents.map.lookup k with
    | none => rfl
    | some h => rfl
  · rw [if_neg hk]

/-- A search shows the state of the last event. -/
theorem nextState_of_last {m : MockData MockEvent} {dataKey : DataKey} {e : MockEvent}
    (h : (eventsOf m dataKey.getKey).getLast? = some e) :
    nextState m dataKey = some (shown e.state) := by
  simp only [nextState, MockData.findLastRegisteredRequestState]
  simp only [eventsOf] at h
  cases hl : m.lookup dataKey.getKey with
  | none =>
      rw [hl] at h
      cases h
  | some hist =>
      rw [hl] at h
      have hlast : hist.getLastRegisteredRequestState = some e.state := by
        rw [MockEventsHistory.getLastRegisteredRequestState, h]
        rfl
      simp only [hlast]
      by_cases he : e.state.isEmpty = true
      · rw [if_pos he, shown, if_pos he]
        rfl
      · rw [if_neg he, shown, if_neg he]
        rfl

/-- The last event of a history after one more: the new one, unless the history is
    disabled and there was more than one. -/
theorem getLast_loaded (l : List MockEvent) (event : MockEvent) (historyEnabled : Bool) :
    (loaded l event historyEnabled).getLast?
      = if historyEnabled = true ∨ l.length ≤ 1 then some event else l.getLast? := by
  cases historyEnabled with
  | true => simp [loaded]
  | false =>
      match l with
      | [] => rfl
      | [_] => rfl
      | a :: b :: rest => simp [loaded]

theorem length_loaded (l : List MockEvent) (event : MockEvent) :
    (loaded l event false).length ≤ 1 ↔ l.length ≤ 1 := by
  match l with
  | [] => simp [loaded]
  | a :: rest => simp [loaded]

/-- The same after two more. -/
theorem getLast_loaded_loaded (l : List MockEvent) (first event : MockEvent)
    (historyEnabled : Bool) :
    (loaded (loaded l first historyEnabled) event historyEnabled).getLast?
      = if historyEnabled = true ∨ l.length ≤ 1 then some event else l.getLast? := by
  rw [getLast_loaded]
  cases historyEnabled with
  | true => simp
  | false =>
      simp only [length_loaded, getLast_loaded]
      split
      · rfl
      · rfl

/-! ## The state of a key -/

namespace TrafficServer

variable (env : Env) (s : TrafficServer) (req : Request)

/-- The state a provisioned reception stores last under its own key.  A virtual
    event addressed to that very key comes after its own one. -/
def storedState : Processed → Option String
  | .unprovisioned _ => none
  | .provisioned c p out =>
      if s.purgeExecution && out.outState == "purge" then none
      else if !s.serverData then none
      else if out.outStateMethod.isEmpty
          || (foreignKey c out).getKey == (s.normalizedKey env req).getKey then
        some out.outState
      else some p.provision.outState

/-- The events of its key as the transformation leaves them. -/
def eventsBefore : Processed → List MockEvent
  | .unprovisioned _ => []
  | .provisioned _ _ out => eventsOf out.world.serverEvents.map (s.normalizedKey env req).getKey

/-- The last event of the key after a provisioned reception that stores: an event with
    the stored state, or the one that was the last before. -/
theorem register_last {c : Context} {p : Provisioned} {out : ServerState} {state : String}
    (h : s.storedState env req (.provisioned c p out) = some state) :
    ∃ e : MockEvent, e.state = state
      ∧ (eventsOf (s.register env req c p out).serverEvents.map
          (s.normalizedKey env req).getKey).getLast?
        = if s.serverDataKeyHistory = true
            ∨ (s.eventsBefore env req (.provisioned c p out)).length ≤ 1 then some e
          else (s.eventsBefore env req (.provisioned c p out)).getLast? := by
  simp only [storedState] at h
  simp only [register, eventsBefore]
  split at h
  · exact nomatch h
  · rename_i hpurge
    rw [if_neg hpurge]
    cases hdata : s.serverData with
    | false =>
        rw [hdata] at h
        exact nomatch h
    | true =>
        rw [hdata] at h
        simp only [Bool.not_true, Bool.false_eq_true, if_false] at h
        rw [if_pos rfl]
        cases hv : out.outStateMethod.isEmpty with
        | true =>
            rw [hv] at h
            simp only [Bool.true_or, if_true, Option.some.injEq] at h
            simp only [Bool.not_true, Bool.false_eq_true, if_false]
            rw [eventsOf_chainVariables, eventsOf_loadEvent,
              if_pos (DataKey.getKey_setProvisionUri _ _).symm, getLast_loaded]
            exact ⟨_, h, rfl⟩
        | false =>
            rw [hv] at h
            simp only [Bool.false_or, beq_iff_eq] at h
            simp only [Bool.not_false, if_true]
            rw [eventsOf_loadEvent, eventsOf_chainVariables, eventsOf_loadEvent]
            rw [if_pos (DataKey.getKey_setProvisionUri _ _).symm]
            by_cases hkey : (foreignKey c out).getKey = (s.normalizedKey env req).getKey
            · rw [if_pos hkey] at h
              rw [DataKey.getKey_setProvisionUri, if_pos hkey.symm, getLast_loaded_loaded]
              exact ⟨_, Option.some.inj h, rfl⟩
            · rw [if_neg hkey] at h
              rw [DataKey.getKey_setProvisionUri, if_neg (Ne.symm hkey), getLast_loaded]
              exact ⟨_, Option.some.inj h, rfl⟩

/-- Where the reception does not lose the state it stores: the history is enabled, or
    there is one event at most to overwrite, or the event that stays the last one
    shows that state already. -/
def KeepsStored (x : Processed) (state : String) : Prop :=
  s.serverDataKeyHistory = true
    ∨ (s.eventsBefore env req x).length ≤ 1
    ∨ (s.eventsBefore env req x).getLast?.map (fun e => shown e.state) = some (shown state)

/-- After a provisioned reception that stores a state, a search for its key returns
    that state exactly under `KeepsStored`. -/
theorem receive_kept_iff {x : Processed} {state : String} (hx : s.process env req = .ok x)
    (h : s.storedState env req x = some state) :
    ∃ s', act env s (.receive req) = .ok s'
      ∧ (nextState s'.world.serverEvents.map (s.normalizedKey env req) = some (shown state)
        ↔ s.KeepsStored env req x state) := by
  cases x with
  | unprovisioned c => exact nomatch h
  | provisioned c p out =>
      obtain ⟨e, he, hlast⟩ := s.register_last env req h
      refine ⟨_, by simp only [act, receive, hx]; rfl, ?_⟩
      show nextState (s.register env req c p out).serverEvents.map (s.normalizedKey env req)
        = some (shown state) ↔ _
      by_cases hnew : s.serverDataKeyHistory = true
          ∨ (s.eventsBefore env req (.provisioned c p out)).length ≤ 1
      · rw [if_pos hnew] at hlast
        rw [nextState_of_last hlast, he]
        constructor
        · intro _
          rcases hnew with hon | hone
          · exact .inl hon
          · exact .inr (.inl hone)
        · intro _
          rfl
      · rw [if_neg hnew] at hlast
        cases hb : (s.eventsBefore env req (.provisioned c p out)).getLast? with
        | none =>
            have hnil := List.getLast?_eq_none_iff.mp hb
            rw [hnil] at hnew
            exact (hnew (.inr (Nat.zero_le 1))).elim
        | some old =>
            rw [hb] at hlast
            rw [nextState_of_last hlast]
            constructor
            · intro hshown
              refine .inr (.inr ?_)
              rw [hb]
              exact hshown
            · rintro (hon | hone | hsame)
              · exact (hnew (.inl hon)).elim
              · exact (hnew (.inr hone)).elim
              · rw [hb] at hsame
                exact hsame

end TrafficServer

/-! ## Along a run -/

section Runs

variable (env : Env)

/-- An administrative change leaves the stores alone. -/
theorem act_admin (s : TrafficServer) {a : Act} (ha : a.isReceive = false) :
    ∃ s', act env s a = .ok s' ∧ s'.world = s.world := by
  cases a with
  | receive req => exact nomatch ha
  | configure discard discardKeyHistory disablePurge =>
      refine ⟨_, rfl, ?_⟩
      simp only [TrafficServer.configure]
      split
      · rfl
      · split
        · rfl
        · rfl
  | loadMatching c => exact ⟨_, rfl, rfl⟩
  | loadProvision p => exact ⟨_, rfl, rfl⟩
  | clearProvisions => exact ⟨_, rfl, rfl⟩

theorem run_admin (acts : List Act) (s : TrafficServer)
    (h : ∀ a ∈ acts, a.isReceive = false) :
    ∃ s', run (step env) (.ok s) acts = .ok s' ∧ s'.world = s.world := by
  induction acts generalizing s with
  | nil => exact ⟨s, rfl, rfl⟩
  | cons a acts ih =>
      obtain ⟨t, ht, hworld⟩ := act_admin env s (h a (List.mem_cons_self ..))
      obtain ⟨s', hrun, hworld'⟩ := ih t (fun b hb => h b (List.mem_cons_of_mem a hb))
      refine ⟨s', ?_, hworld'.trans hworld⟩
      rw [run_cons, show step env (.ok s) a = .ok t from ht]
      exact hrun

/-- No state is lost: after every reception of the run that stores a state, and any
    administrative changes behind it, a search for its key returns that state. -/
def StatesKept (s : TrafficServer) (acts : List Act) : Prop :=
  ∀ pre req mid post, acts = pre ++ .receive req :: (mid ++ post) →
    (∀ a ∈ mid, a.isReceive = false) →
    ∀ server x state, run (step env) (.ok s) pre = .ok server →
      server.process env req = .ok x → server.storedState env req x = some state →
      ∃ server', run (step env) (.ok s) (pre ++ .receive req :: mid) = .ok server'
        ∧ nextState server'.world.serverEvents.map (server.normalizedKey env req)
          = some (shown state)

/-- The act, taken from a running server, loses no state. -/
def KeepsState (s : Except Fault TrafficServer) : Act → Prop
  | .receive req => ∀ server x state, s = .ok server → server.process env req = .ok x →
      server.storedState env req x = some state → server.KeepsStored env req x state
  | _ => True

/-- **NO STATE IS LOST**, in a run of receptions on any keys, provisioned or not, mixed
    with changes of the configuration, the matching and the provisions, exactly when
    no reception stores with the history disabled behind events that hide it. -/
theorem states_kept_iff (s : TrafficServer) (acts : List Act) :
    StatesKept env s acts ↔ AllSteps (step env) (KeepsState env) (.ok s) acts := by
  constructor
  · intro h
    by_contra hsteps
    obtain ⟨pre, a, post, rfl, ha⟩ := exists_of_not_allSteps hsteps
    cases a with
    | receive req =>
        refine ha fun server x state hrun hx hstored => ?_
        obtain ⟨s', hact, hiff⟩ := server.receive_kept_iff env req hx hstored
        obtain ⟨server', hrun', hnext⟩ :=
          h pre req [] post rfl (fun _ hb => nomatch hb) server x state hrun hx hstored
        rw [run_append, hrun] at hrun'
        have hsame : s' = server' := Except.ok.inj (hact.symm.trans hrun')
        exact hiff.mp (hsame ▸ hnext)
    | configure | loadMatching | loadProvision | clearProvisions => exact ha True.intro
  · rintro h pre req mid post rfl hmid server x state hrun hx hstored
    obtain ⟨_, hreceive, _⟩ := allSteps_append h
    obtain ⟨s', hact, hiff⟩ := server.receive_kept_iff env req hx hstored
    obtain ⟨server', hadmin, hworld⟩ := run_admin env mid s' hmid
    refine ⟨server', ?_, ?_⟩
    · rw [run_append, hrun, run_cons, show step env (.ok server) (.receive req) = .ok s' from hact]
      exact hadmin
    · rw [hworld]
      exact hiff.mpr (hreceive server x state hrun hx hstored)

end Runs

/-- A server that keeps no history. -/
def forgetful : TrafficServer := { serverDataKeyHistory := false, world := World.blank }

/-- A provision on `GET /a` that goes on to the state `next`. -/
def goesOn : Provisioned :=
  { requestMethod := "GET", requestUri := "/a",
    provision := { outState := "next", responseCode := 200 } }

/-- Two requests without provision, and one with it. -/
def lateProvision : List Act :=
  [.receive { method := "GET", uriPath := "/a", receptionId := 1 },
    .receive { method := "GET", uriPath := "/a", receptionId := 2 },
    .loadProvision goesOn,
    .receive { method := "GET", uriPath := "/a", receptionId := 3 }]

/-- Behind two unprovisioned events the state `next` overwrites the first one, and the
    next search finds the second: `initial`. -/
theorem unprovisioned_events_hide_state : ¬ StatesKept idleEnv forgetful lateProvision := by
  intro h
  obtain ⟨server', hrun, hnext⟩ := h (lateProvision.take 3) _ [] [] rfl (fun _ hb => nomatch hb)
    _ _ "next" rfl rfl rfl
  have hfound : (run (step idleEnv) (.ok forgetful) lateProvision).toOption.bind
      (fun s => nextState s.world.serverEvents.map (DataKey.ofServer "GET" "/a"))
      = some "initial" := by decide
  rw [show lateProvision = lateProvision.take 3 ++ [_] from rfl, hrun] at hfound
  exact absurd (hnext.symm.trans hfound) (by decide)

end H2Traffic
