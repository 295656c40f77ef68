import H2agent.ClientDocumentProofs
import H2agent.EndpointConnectionProofs
import H2agent.EventNeedProofs
import H2agent.SchemaCacheProofs
import H2agent.VaultKeyProofs

/-! # The administrative interface

    `MyAdminHttp2Server` answers each request with a status code, and in some cases with a
    warning.  A request is refused with a status code outside 200 to 299, or lets an
    exception out.

    * `refused_requests` — whatever was refused in a run, the state at its end is one that
      requests which are all accepted lead to;
    * `storage_warned` — the provisions that need events come to stand beside a storage that
      does not keep them only in a request that warns of it, or in a list of provisions
      that is refused halfway. -/

namespace H2Admin

open CppText DocumentLoad H2Convert H2Key H2Load H2Store H2Traffic H2Transformation
open JsonValue StepRun

/-! ## Matching documents -/

/-- `AdminServerMatchingData::LoadResult`. -/
inductive MatchingResult where
  | Success | BadSchema | BadContent
  deriving DecidableEq, Repr

/-- The filter of a node `uriPathQueryParameters`, which has to have one. -/
def filterOf (node : Json) : Except Fault UriPathQueryParametersFilterType :=
  match find "filter" node with
  | none => .error .undefined
  | some (.str "PassBy") => .ok .PassBy
  | some (.str "Ignore") => .ok .Ignore
  | some _ => .ok .Sort

def separatorOf (node : Json) : UriPathQueryParametersSeparatorType :=
  match find "separator" node with
  | some (.str "Semicolon") => .Semicolon
  | _ => .Ampersand

/-- The filter and the separator of a document. -/
def queryParametersOf (j : Json) :
    Except Fault (UriPathQueryParametersFilterType × UriPathQueryParametersSeparatorType) :=
  match find "uriPathQueryParameters" j with
  | none => .ok (.Sort, .Ampersand)
  | some node => do return (← filterOf node, separatorOf node)

/-- The algorithm, with what it asks of `rgx` and `fmt`; `none` is bad content. -/
def algorithmOf (hasRgx hasFmt : Bool) : Json → Option AlgorithmType
  | .str "FullMatching" => if hasRgx || hasFmt then none else some .FullMatching
  | .str "FullMatchingRegexReplace" =>
      if !hasRgx || !hasFmt then none else some .FullMatchingRegexReplace
  | .str "RegexMatching" => if hasRgx || hasFmt then none else some .RegexMatching
  | _ => some .FullMatching

/-- `AdminServerMatchingData::load`: the result or an exception, and the configuration. -/
def loadMatching (valid : Json → Bool) (compiles : String → Bool) (j : Json) (c : Config) :
    Except Fault MatchingResult × Config :=
  if valid j then
    let rgx := H2Provisions.stringMember "rgx" j
    let fmt := H2Provisions.stringMember "fmt" j
    if rgx.any (fun text => !compiles text) then (.ok .BadContent, c)
    else
      match queryParametersOf j, find "algorithm" j with
      | .error e, _ => (.error e, c)
      | .ok _, none => (.error .undefined, c)
      | .ok parameters, some algorithm =>
          match algorithmOf rgx.isSome fmt.isSome algorithm with
          | none => (.ok .BadContent, c)
          | some a => (.ok .Success, ⟨a, rgx.getD "", fmt.getD "", parameters.1, parameters.2⟩)
  else (.ok .BadSchema, c)

/-! ## Endpoint documents -/

section Endpoints

open H2Connections H2Endpoint

variable (cfg : H2Connections.Configuration) (valid : Json → Bool) (lib : Lib)

/-- A load of an endpoint that was done. -/
def done : Except Fault H2Endpoint.LoadResult → Bool
  | .ok r => r.good
  | .error _ => false

/-- A load that changed the address of an endpoint. -/
def anew : Except Fault H2Endpoint.LoadResult → Bool
  | .ok .Accepted => true
  | _ => false

/-- The loop over an array; it is accepted when a connection was made anew. -/
def loadEndpointArray :
    List Json → Bool → Endpoints → Except Fault H2Endpoint.LoadResult × Endpoints
  | [], oneAccepted, s => (.ok (if oneAccepted then .Accepted else .Success), s)
  | j :: js, oneAccepted, s =>
      let loaded := H2Connections.loadSingle cfg valid lib s j
      if done loaded.1 then
        loadEndpointArray js (oneAccepted || anew loaded.1) loaded.2
      else loaded

/-- `AdminClientEndpointData::load`. -/
def loadEndpoints (j : Json) (s : Endpoints) : Except Fault H2Endpoint.LoadResult × Endpoints :=
  match j with
  | .arr js => loadEndpointArray cfg valid lib js false s
  | j => H2Connections.loadSingle cfg valid lib s j

end Endpoints

/-! ## The server -/

/-- The switches of a data storage. -/
structure DataSwitches where
  data : Bool := true
  dataKeyHistory : Bool := true
  purgeExecution : Bool := true

/-- The switches of the traffic server. -/
structure TrafficSwitches where
  receiveRequestBody : Bool := true
  preReserveRequestBody : Bool := true
  storage : DataSwitches := {}

/-- What the administrative server works on.  There may be no traffic server. -/
structure AdminServer where
  matching : Config := {}
  provisions : H2ProvisionDocuments.ProvisionStore := H2ProvisionDocuments.ProvisionStore.emptied
  clientProvisions : H2ClientDocuments.ProvisionStore := ∅
  endpoints : H2Connections.Endpoints := H2Connections.start
  schemas : H2Schema.AdminSchemaData := ∅
  vault : Vault := ∅
  serverEvents : MockData MockEvent := ∅
  clientEvents : MockData MockEvent := ∅
  traffic : Option TrafficSwitches := some {}
  client : DataSwitches := {}
  readCache : Bool := false

/-- What the validators and the libraries do with documents. -/
structure Libraries where
  provisions : H2Provisions.Loader
  clientProvisions : H2ClientDocuments.Loader
  matchingValid : Json → Bool
  endpointValid : Json → Bool
  connections : H2Connections.Configuration
  schemas : H2Schema.Validator
  vaultValid : Json → Bool

/-- Query parameters, where there is a query. -/
abbrev Query := Option (TextMap String)

/-- A parameter; a missing one is empty. -/
def param (query : Query) (key : String) : String :=
  (query.bind fun qmap => qmap.lookup key).getD ""

/-- A request; the body of a `POST` counts when it is JSON. -/
inductive Request where
  | post (pathSuffix : String) (body : Option Json)
  | delete (pathSuffix : String) (query : Query)
  | put (pathSuffix : String) (query : Query)

/-- What is sent back: the status code, the text of the response, and a warning. -/
structure Answer where
  statusCode : Nat
  response : String := ""
  warning : Option String := none
  deriving DecidableEq, Repr

def statusCodeOK (statusCode : Nat) : Bool := 200 ≤ statusCode && statusCode < 300

/-- A request that was accepted. -/
def accepted : Except Fault Answer → Bool
  | .ok answer => statusCodeOK answer.statusCode
  | .error _ => false

/-- `needsStorage` of the server provisions. -/
def needsServerStorage (d : H2ProvisionDocuments.ProvisionStore) : Bool :=
  d.map.entries.any fun e =>
    H2EventNeed.AdminServerProvision.needsStorage e.2.provisioned.provision

/-- `needsStorage` of the client provisions. -/
def needsClientStorage (d : H2ClientDocuments.ProvisionStore) : Bool :=
  d.entries.any fun e => H2EventNeed.AdminClientProvision.needsStorage e.2.loaded.provision

/-- The traffic server is there and does not store. -/
def serverStorageOff (s : AdminServer) : Bool := s.traffic.any fun t => !t.storage.data

def regexMatching (s : AdminServer) : Bool := s.matching.algorithm == .RegexMatching

/-! ## `POST` -/

/-- What a load came to. -/
inductive Outcome where
  | received | badSchema | badContent
  deriving DecidableEq, Repr

/-- The text of the response to a load. -/
def logText (operation datum : String) (isArray : Bool) : Outcome → String
  | .received =>
      operation ++ " operation; "
        ++ (if isArray then "valid schemas and " ++ datum ++ "s data received"
          else "valid schema and " ++ datum ++ " data received")
  | .badSchema =>
      operation ++ " operation; " ++ (if isArray then "detected one invalid schema"
        else "invalid schema")
  | .badContent =>
      operation ++ " operation; "
        ++ (if isArray then "detected one invalid " ++ datum ++ " data received"
          else "invalid " ++ datum ++ " data received")

/-- The outcome and the status code of a load of provisions or schemas. -/
def provisionOutcome : H2Provisions.LoadResult → Outcome × Nat
  | .Success => (.received, 201)
  | .BadSchema => (.badSchema, 400)
  | .BadContent => (.badContent, 400)

def schemaOutcome : H2Schema.LoadResult → Outcome × Nat
  | .Success => (.received, 201)
  | .BadSchema => (.badSchema, 400)
  | .BadContent => (.badContent, 400)

def endpointOutcome : H2Endpoint.LoadResult → Outcome × Nat
  | .Success => (.received, 201)
  | .Accepted => (.received, 202)
  | .BadSchema => (.badSchema, 400)
  | .BadContent => (.badContent, 400)

/-- The warning of a storage that is off while provisions need it. -/
def needWarning : String :=
  "provision references serverEvent/clientEvent but storeEvents is disabled"

section Post

variable (lib : Libraries) (s : AdminServer)

def serverMatching (j : Json) : Except Fault Answer × AdminServer :=
  let loaded := loadMatching lib.matchingValid lib.provisions.compiles j s.matching
  (loaded.1.map fun result =>
      match result with
      | .Success =>
          { statusCode := 201
            response := "server-matching operation; valid schema and matching data received" }
      | .BadSchema =>
          { statusCode := 400, response := "server-matching operation; invalid schema" }
      | .BadContent =>
          { statusCode := 400
            response := "server-matching operation; invalid matching data received" },
    { s with matching := loaded.2 })

def serverProvision (j : Json) : Except Fault Answer × AdminServer :=
  let loaded := s.provisions.load lib.provisions (regexMatching s) j
  let s' := { s with provisions := loaded.2 }
  (loaded.1.map fun result =>
      { statusCode := (provisionOutcome result).2
        response :=
          logText "server-provision" "server provision" j.isArray (provisionOutcome result).1
        warning :=
          if result = .Success ∧ needsServerStorage s'.provisions ∧ serverStorageOff s' then
            some needWarning
          else none },
    s')

def clientEndpoint (j : Json) : Except Fault Answer × AdminServer :=
  let loaded := loadEndpoints lib.connections lib.endpointValid lib.clientProvisions.lib j
    s.endpoints
  (loaded.1.map fun result =>
      { statusCode := (endpointOutcome result).2
        response :=
          logText "client-endpoint" "client endpoint" j.isArray (endpointOutcome result).1 },
    { s with endpoints := loaded.2 })

def clientProvision (j : Json) : Except Fault Answer × AdminServer :=
  let loaded := s.clientProvisions.load lib.clientProvisions j
  let s' := { s with clientProvisions := loaded.2 }
  (loaded.1.map fun result =>
      { statusCode := (provisionOutcome result).2
        response :=
          logText "client-provision" "client provision" j.isArray (provisionOutcome result).1
        warning :=
          if result = .Success ∧ needsClientStorage s'.clientProvisions ∧ !s'.client.data then
            some needWarning
          else none },
    s')

def schema (j : Json) : Except Fault Answer × AdminServer :=
  let loaded := H2Schema.AdminSchemaData.load lib.schemas s.schemas j
  (loaded.1.map fun result =>
      { statusCode := (schemaOutcome result).2
        response := logText "schema" "schema" j.isArray (schemaOutcome result).1 },
    { s with schemas := loaded.2 })

def vault (j : Json) : Except Fault Answer × AdminServer :=
  let loaded := H2Vault.loadJson lib.vaultValid s.vault j
  (.ok
      (if loaded.2 then
        { statusCode := 201, response := "vault operation; valid schema and vault data received" }
      else { statusCode := 400, response := "vault operation; invalid schema" }),
    { s with vault := loaded.1 })

/-- `receivePOST`. -/
def receivePOST (pathSuffix : String) (body : Option Json) : Except Fault Answer × AdminServer :=
  match body with
  | none => (.ok { statusCode := 400, response := "failed to parse json from body request" }, s)
  | some j =>
      if pathSuffix = "server-matching" then serverMatching lib s j
      else if pathSuffix = "server-provision" then serverProvision lib s j
      else if pathSuffix = "client-endpoint" then clientEndpoint lib s j
      else if pathSuffix = "client-provision" then clientProvision lib s j
      else if pathSuffix = "schema" then schema lib s j
      else if pathSuffix = "vault" then vault lib s j
      else (.ok { statusCode := 501, response := "unsupported operation" }, s)

end Post

/-! ## `DELETE` -/

/-- 200 or 204. -/
def deletedCode (somethingDeleted : Bool) : Nat := if somethingDeleted then 200 else 204

/-- The status code of a deletion in a store of events. -/
def clearCode (success somethingDeleted : Bool) : Nat :=
  if success then deletedCode somethingDeleted else 400

/-- `receiveDELETE`; the status code comes in unset. -/
def receiveDELETE (s : AdminServer) (pathSuffix : String) (query : Query) :
    Nat × AdminServer :=
  if pathSuffix = "server-provision" then
    (deletedCode s.provisions.clear.1, { s with provisions := s.provisions.clear.2 })
  else if pathSuffix = "client-endpoint" then
    (deletedCode (!s.endpoints.data.map.entries.isEmpty),
      { s with endpoints := { s.endpoints with data := s.endpoints.data.clear } })
  else if pathSuffix = "client-provision" then
    (deletedCode (!s.clientProvisions.entries.isEmpty), { s with clientProvisions := ∅ })
  else if pathSuffix = "schema" then
    (deletedCode (!s.schemas.entries.isEmpty), { s with schemas := ∅ })
  else if pathSuffix = "server-data" then
    let cleared := MockData.clear s.serverEvents
      ⟨DataKey.ofServer (param query "requestMethod") (param query "requestUri"),
        param query "eventNumber"⟩
    (clearCode cleared.1 cleared.2.1, { s with serverEvents := cleared.2.2 })
  else if pathSuffix = "client-data" then
    let cleared := MockData.clear s.clientEvents
      ⟨DataKey.ofClient (param query "clientEndpointId") (param query "requestMethod")
          (param query "requestUri"), param query "eventNumber"⟩
    (clearCode cleared.1 cleared.2.1, { s with clientEvents := cleared.2.2 })
  else if pathSuffix = "vault" then
    let name := param query "name"
    if query.isSome && name.isEmpty then (400, s)
    else if name.isEmpty then
      (deletedCode (!s.vault.entries.isEmpty), { s with vault := ∅ })
    else (deletedCode (s.vault.lookup name).isSome, { s with vault := s.vault.erase name })
  else (400, s)

/-! ## `PUT` -/

def isFlag (text : String) : Bool := text == "true" || text == "false"

/-- 200 or 400. -/
def putCode (success : Bool) : Nat := if success then 200 else 400

/-- `PUT server/configuration`.  The first parameter counts before the second is looked
    at. -/
def configureServer (t : TrafficSwitches) (receiveRequestBody preReserveRequestBody : String) :
    Bool × TrafficSwitches :=
  if receiveRequestBody.isEmpty && preReserveRequestBody.isEmpty then (false, t)
  else if !receiveRequestBody.isEmpty && !isFlag receiveRequestBody then (false, t)
  else
    let t' := if receiveRequestBody.isEmpty then t
      else { t with receiveRequestBody := receiveRequestBody == "true" }
    if preReserveRequestBody.isEmpty then (true, t')
    else if isFlag preReserveRequestBody then
      (true, { t' with preReserveRequestBody := preReserveRequestBody == "true" })
    else (false, t')

/-- `PUT server-data/configuration` and `PUT client-data/configuration`: to keep the history
    of discarded data is refused. -/
def configureData (d : DataSwitches) (discard discardKeyHistory disablePurge : String) :
    Bool × DataSwitches :=
  if discard.isEmpty && discardKeyHistory.isEmpty && disablePurge.isEmpty then (false, d)
  else if !discard.isEmpty && !discardKeyHistory.isEmpty
      && discard == "true" && discardKeyHistory != "true" then (false, d)
  else
    (true,
      { data := if discard.isEmpty then d.data else discard != "true"
        dataKeyHistory :=
          if discardKeyHistory.isEmpty then d.dataKeyHistory else discardKeyHistory != "true"
        purgeExecution :=
          if disablePurge.isEmpty then d.purgeExecution else disablePurge != "true" })

/-- The answer to a change of a data storage; it warns when provisions need what is
    discarded. -/
def dataAnswer (mode : String) (success : Bool) (discard : String) (needsStorage : Bool) :
    Answer :=
  if success && discard == "true" && needsStorage then
    { statusCode := putCode success
      response := mode ++ "-data configuration updated"
      warning := some ("active provisions require storeEvents "
        ++ "(serverEvent/clientEvent references found)") }
  else { statusCode := putCode success }

/-- `receivePUT`, without the level of the log. -/
def receivePUT (s : AdminServer) (pathSuffix : String) (query : Query) : Answer × AdminServer :=
  if pathSuffix = "server/configuration" then
    match s.traffic with
    | none => ({ statusCode := 404 }, s)
    | some t =>
        let configured := configureServer t (param query "receiveRequestBody")
          (param query "preReserveRequestBody")
        ({ statusCode := putCode configured.1 }, { s with traffic := some configured.2 })
  else if pathSuffix = "server-data/configuration" then
    match s.traffic with
    | none => ({ statusCode := 404 }, s)
    | some t =>
        let configured := configureData t.storage (param query "discard")
          (param query "discardKeyHistory") (param query "disablePurge")
        (dataAnswer "server" configured.1 (param query "discard")
            (needsServerStorage s.provisions),
          { s with traffic := some { t with storage := configured.2 } })
  else if pathSuffix = "client-data/configuration" then
    let configured := configureData s.client (param query "discard")
      (param query "discardKeyHistory") (param query "disablePurge")
    (dataAnswer "client" configured.1 (param query "discard")
        (needsClientStorage s.clientProvisions),
      { s with client := configured.2 })
  else if pathSuffix = "files/configuration" then
    if isFlag (param query "readCache") then
      ({ statusCode := 200 }, { s with readCache := param query "readCache" == "true" })
    else ({ statusCode := 400 }, s)
  else ({ statusCode := 400 }, s)

/-! ## Requests -/

def Request.pathSuffix : Request → String
  | .post pathSuffix _ => pathSuffix
  | .delete pathSuffix _ => pathSuffix
  | .put pathSuffix _ => pathSuffix

/-- The methods that change something. -/
def dispatch (lib : Libraries) (s : AdminServer) : Request → Except Fault Answer × AdminServer
  | .post pathSuffix body => receivePOST lib s pathSuffix body
  | .delete pathSuffix query =>
      (.ok { statusCode := (receiveDELETE s pathSuffix query).1 },
        (receiveDELETE s pathSuffix query).2)
  | .put pathSuffix query =>
      (.ok (receivePUT s pathSuffix query).1, (receivePUT s pathSuffix query).2)

/-- `receive` for these methods. -/
def receive (lib : Libraries) (s : AdminServer) (r : Request) :
    Except Fault Answer × AdminServer :=
  if r.pathSuffix.isEmpty then
    (.ok { statusCode := 400, response := "no operation provided" }, s)
  else dispatch lib s r

def answer (lib : Libraries) (s : AdminServer) (r : Request) : Except Fault Answer :=
  (receive lib s r).1

def step (lib : Libraries) (s : AdminServer) (r : Request) : AdminServer := (receive lib s r).2

/-! ## Refused requests -/

/-- What a request leaves is left by no request or by one that is accepted. -/
def Replaceable (lib : Libraries) (s s' : AdminServer) : Prop :=
  s' = s ∨ ∃ r, accepted (answer lib s r) = true ∧ step lib s r = s'

/-- A load keeps to documents that are taken. -/
def Begins {σ ρ : Type} (load : Json → σ → ρ × σ) (good : ρ → Bool) : Prop :=
  ∀ j s, (load j s).2 = s ∨ ∃ j', good (load j' s).1 = true ∧ (load j' s).2 = (load j s).2

/-- So does one that goes through arrays with a load for single documents. -/
theorem begins_of {σ ρ : Type} {load f : Json → σ → ρ × σ} {good : ρ → Bool}
    (harray : ∀ items s, good (load (.arr items) s).1
        = (loadEach f good items s).1.all good
      ∧ (load (.arr items) s).2 = (loadEach f good items s).2)
    (hsingle : ∀ j s, j.isArray = false → load j s = f j s)
    (hharmless : Harmless f good) : Begins load good := by
  intro j s
  cases hkind : j.isArray with
  | true =>
      cases j with
      | arr items =>
          obtain ⟨taken, hall, hstore⟩ := loadEach_beginning hharmless items s
          refine Or.inr ⟨.arr taken, ?_, ?_⟩
          · rw [(harray taken s).1, hall]
          · rw [(harray taken s).2, hstore, (harray items s).2]
      | null | bool | int | uint | float | str | obj => cases hkind
  | false =>
      cases hgood : good (load j s).1 with
      | true => exact Or.inr ⟨j, hgood, rfl⟩
      | false =>
          rw [hsingle j s hkind] at hgood ⊢
          exact Or.inl (hharmless j s hgood)

/-- A single document is taken or changes nothing. -/
theorem single_of {σ ρ : Type} {load : Json → σ → ρ × σ} {single : Json → σ → ρ × σ}
    {good : ρ → Bool} (hsingle : ∀ j s, j.isArray = false → load j s = single j s)
    (hharmless : Harmless single good) {j : Json} (hkind : j.isArray = false) (s : σ) :
    (load j s).2 = s ∨ good (load j s).1 = true := by
  cases hgood : good (load j s).1 with
  | true => exact Or.inr rfl
  | false =>
      rw [hsingle j s hkind] at hgood ⊢
      exact Or.inl (hharmless j s hgood)

section Provisions

variable (l : H2Provisions.Loader) (regexMatchingConfigured : Bool)

theorem provisions_single (j : Json) (d : H2ProvisionDocuments.ProvisionStore)
    (hkind : j.isArray = false) :
    d.load l regexMatchingConfigured j = d.loadSingle l regexMatchingConfigured j := by
  cases j with
  | arr items => cases hkind
  | null | bool | int | uint | float | str | obj => rfl

theorem provisions_harmless :
    Harmless (H2ProvisionDocuments.ProvisionStore.loadSingle l regexMatchingConfigured)
      H2ProvisionDocuments.success := by
  intro j d hbad
  unfold H2ProvisionDocuments.ProvisionStore.loadSingle at hbad ⊢
  split
  · rename_i hvalid
    rw [if_pos hvalid] at hbad
    split
    · rfl
    · rfl
    · rename_i hload
      rw [hload] at hbad
      cases hbad
  · rfl

theorem provisions_begin :
    Begins (H2ProvisionDocuments.ProvisionStore.load l regexMatchingConfigured)
      H2ProvisionDocuments.success :=
  begins_of (fun items d => H2ProvisionDocuments.loadArray_eq l regexMatchingConfigured d items)
    (provisions_single l regexMatchingConfigured) (provisions_harmless l regexMatchingConfigured)

end Provisions

section ClientProvisions

variable (l : H2ClientDocuments.Loader)

theorem clientProvisions_single (j : Json) (d : H2ClientDocuments.ProvisionStore)
    (hkind : j.isArray = false) : d.load l j = d.loadSingle l j := by
  cases j with
  | arr items => cases hkind
  | null | bool | int | uint | float | str | obj => rfl

theorem clientProvisions_harmless :
    Harmless (H2ClientDocuments.ProvisionStore.loadSingle l) H2ProvisionDocuments.success := by
  intro j d hbad
  rcases H2ClientDocuments.loadSingle_spec l j d with ⟨e, -, heq⟩ | ⟨-, r, heq, -⟩
  · rw [heq] at hbad
    cases hbad
  · rw [heq]

theorem clientProvisions_begin :
    Begins (H2ClientDocuments.ProvisionStore.load l) H2ProvisionDocuments.success :=
  begins_of (H2ClientDocuments.loadArray_eq l) (clientProvisions_single l)
    (clientProvisions_harmless l)

end ClientProvisions

/-- A load of schemas that succeeds. -/
def schemaSuccess : Except Fault H2Schema.LoadResult → Bool
  | .ok .Success => true
  | _ => false

theorem schemaSuccess_iff {r : Except Fault H2Schema.LoadResult} :
    schemaSuccess r = true ↔ r = .ok .Success := by
  cases r with
  | error e => simp [schemaSuccess]
  | ok r => cases r <;> simp [schemaSuccess]

section Schemas

variable (v : H2Schema.Validator)

def loadSchema (j : Json) (d : H2Schema.AdminSchemaData) := H2Schema.AdminSchemaData.load v d j

def loadOneSchema (j : Json) (d : H2Schema.AdminSchemaData) :=
  H2Schema.AdminSchemaData.loadSingle v d j

theorem loadSchemaArray (items : List Json) (d : H2Schema.AdminSchemaData) :
    schemaSuccess (H2Schema.AdminSchemaData.loadEach v items d).1
        = (loadEach (loadOneSchema v) schemaSuccess items d).1.all schemaSuccess
      ∧ (H2Schema.AdminSchemaData.loadEach v items d).2
        = (loadEach (loadOneSchema v) schemaSuccess items d).2 := by
  induction items generalizing d with
  | nil => exact ⟨rfl, rfl⟩
  | cons j items ih =>
      rw [H2Schema.AdminSchemaData.loadEach]
      split
      · rename_i d' heq
        have hone : loadOneSchema v j d = (.ok .Success, d') := heq
        have hgood : schemaSuccess (loadOneSchema v j d).1 = true := by
          rw [hone]
          rfl
        rw [loadEach_cons_good hgood, List.all_cons, hgood, hone]
        exact ih d'
      · rename_i hnot
        have hbad : schemaSuccess (loadOneSchema v j d).1 = false := by
          rw [Bool.eq_false_iff]
          intro hgood
          exact hnot _ (Prod.ext (schemaSuccess_iff.mp hgood) rfl)
        rw [loadEach_cons_bad hbad]
        refine ⟨?_, rfl⟩
        rw [List.all_cons, List.all_nil, Bool.and_true]
        rfl

theorem schemas_begin : Begins (loadSchema v) schemaSuccess := by
  refine begins_of (f := loadOneSchema v) (loadSchemaArray v) ?_ ?_
  · intro j d hkind
    cases j with
    | arr items => cases hkind
    | null | bool | int | uint | float | str | obj => rfl
  · intro j d hbad
    unfold loadOneSchema H2Schema.AdminSchemaData.loadSingle at hbad ⊢
    split
    · rfl
    · rename_i hvalid
      rw [if_neg hvalid] at hbad
      split
      · rfl
      · rfl
      · rename_i hload
        rw [hload] at hbad
        cases hbad

end Schemas

section EndpointLoads

variable (cfg : H2Connections.Configuration) (valid : Json → Bool) (endpointLib : Lib)

def loadOneEndpoint (j : Json) (s : H2Connections.Endpoints) :=
  H2Connections.loadSingle cfg valid endpointLib s j

theorem loadEndpointArray_eq (items : List Json) (oneAccepted : Bool)
    (s : H2Connections.Endpoints) :
    done (loadEndpointArray cfg valid endpointLib items oneAccepted s).1
        = (loadEach (loadOneEndpoint cfg valid endpointLib) done items s).1.all done
      ∧ (loadEndpointArray cfg valid endpointLib items oneAccepted s).2
        = (loadEach (loadOneEndpoint cfg valid endpointLib) done items s).2 := by
  induction items generalizing oneAccepted s with
  | nil =>
      cases oneAccepted with
      | false => exact ⟨rfl, rfl⟩
      | true => exact ⟨rfl, rfl⟩
  | cons j items ih =>
      unfold loadEndpointArray
      cases hgood : done (loadOneEndpoint cfg valid endpointLib j s).1 with
      | true =>
          have htaken : done (H2Connections.loadSingle cfg valid endpointLib s j).1 = true := hgood
          rw [loadEach_cons_good hgood, List.all_cons, hgood]
          dsimp only
          rw [if_pos htaken]
          exact ih _ _
      | false =>
          have hnot : ¬ done (H2Connections.loadSingle cfg valid endpointLib s j).1 = true :=
            Bool.eq_false_iff.mp hgood
          rw [loadEach_cons_bad hgood, List.all_cons, List.all_nil, Bool.and_true]
          dsimp only
          rw [if_neg hnot]
          exact ⟨rfl, rfl⟩

/-- A document behind the checks is taken. -/
theorem put_good (s : H2Connections.Endpoints) (doc : H2Endpoint.EndpointDocument) :
    (H2Connections.put cfg s doc).1.good = true := by
  have hdata : (s.data.put doc).1.good = true := by
    unfold H2Endpoint.AdminClientEndpointData.put
    split
    · rfl
    · split <;> rfl
  unfold H2Connections.put
  split
  · rfl
  · exact hdata
  · exact hdata

theorem endpoints_begin : Begins (loadEndpoints cfg valid endpointLib) done := by
  refine begins_of (f := loadOneEndpoint cfg valid endpointLib)
    (fun items s => loadEndpointArray_eq cfg valid endpointLib items false s) ?_ ?_
  · intro j s hkind
    cases j with
    | arr items => cases hkind
    | null | bool | int | uint | float | str | obj => rfl
  · intro j s hbad
    unfold loadOneEndpoint H2Connections.loadSingle at hbad ⊢
    split
    · rfl
    · rename_i hvalid
      rw [if_neg hvalid] at hbad
      split
      · rfl
      · rename_i doc hread
        rw [hread] at hbad
        split
        · rename_i haccepted
          have hdone : (H2Connections.put cfg s doc).1.good = false := by
            simpa [haccepted, done] using hbad
          rw [put_good] at hdone
          cases hdone
        · rfl

end EndpointLoads

section Refused

variable (lib : Libraries) (s : AdminServer)

theorem accepted_provision (r : Except Fault H2Provisions.LoadResult)
    (f : H2Provisions.LoadResult → Answer)
    (hf : ∀ result, (f result).statusCode = (provisionOutcome result).2) :
    accepted (r.map f) = H2ProvisionDocuments.success r := by
  cases r with
  | error e => rfl
  | ok result =>
      show statusCodeOK (f result).statusCode = _
      rw [hf]
      cases result <;> rfl

theorem accepted_endpoint (r : Except Fault H2Endpoint.LoadResult)
    (f : H2Endpoint.LoadResult → Answer)
    (hf : ∀ result, (f result).statusCode = (endpointOutcome result).2) :
    accepted (r.map f) = done r := by
  cases r with
  | error e => rfl
  | ok result =>
      show statusCodeOK (f result).statusCode = _
      rw [hf]
      cases result <;> rfl

/-- A request past the check of its path. -/
theorem receive_of_suffix {r : Request} (h : r.pathSuffix.isEmpty = false) :
    receive lib s r = dispatch lib s r := by
  unfold receive
  rw [h, if_neg Bool.false_ne_true]

/-- A request that is accepted and leaves the state. -/
theorem replaceable_of_receive {r : Request} {x : Except Fault Answer × AdminServer}
    {s' : AdminServer} (hreceive : receive lib s r = x) (haccepted : accepted x.1 = true)
    (hstate : x.2 = s') : Replaceable lib s s' := by
  refine Or.inr ⟨r, ?_, ?_⟩
  · rw [answer, hreceive, haccepted]
  · rw [step, hreceive, hstate]

/-- A load of server provisions that is refused keeps to documents that are taken. -/
theorem serverProvision_replaceable (j : Json) :
    Replaceable lib s (serverProvision lib s j).2 := by
  rcases provisions_begin lib.provisions (regexMatching s) j s.provisions with
    hsame | ⟨j', hgood, hstore⟩
  · left
    show { s with provisions := (s.provisions.load lib.provisions (regexMatching s) j).2 } = s
    rw [hsame]
  · have hpost : receive lib s (.post "server-provision" (some j')) = serverProvision lib s j' := by
      simp [receive, dispatch, receivePOST, Request.pathSuffix]
    refine replaceable_of_receive lib s hpost
      ((accepted_provision _ _ fun _ => rfl).trans hgood) ?_
    show { s with provisions := _ } = { s with provisions := _ }
    rw [hstore]

theorem clientProvision_replaceable (j : Json) :
    Replaceable lib s (clientProvision lib s j).2 := by
  rcases clientProvisions_begin lib.clientProvisions j s.clientProvisions with
    hsame | ⟨j', hgood, hstore⟩
  · left
    show { s with clientProvisions := (s.clientProvisions.load lib.clientProvisions j).2 } = s
    rw [hsame]
  · have hpost : receive lib s (.post "client-provision" (some j')) = clientProvision lib s j' := by
      simp [receive, dispatch, receivePOST, Request.pathSuffix]
    refine replaceable_of_receive lib s hpost
      ((accepted_provision _ _ fun _ => rfl).trans hgood) ?_
    show { s with clientProvisions := _ } = { s with clientProvisions := _ }
    rw [hstore]

theorem schema_replaceable (j : Json) : Replaceable lib s (schema lib s j).2 := by
  rcases schemas_begin lib.schemas j s.schemas with hsame | ⟨j', hgood, hstore⟩
  · left
    show { s with schemas := (loadSchema lib.schemas j s.schemas).2 } = s
    rw [hsame]
  · have hpost : receive lib s (.post "schema" (some j')) = schema lib s j' := by
      simp [receive, dispatch, receivePOST, Request.pathSuffix]
    have hresult : H2Schema.AdminSchemaData.load lib.schemas s.schemas j'
        = (.ok .Success, (loadSchema lib.schemas j' s.schemas).2) :=
      Prod.ext (schemaSuccess_iff.mp hgood) rfl
    refine replaceable_of_receive lib s hpost ?_ ?_
    · unfold schema
      rw [hresult]
      rfl
    · show { s with schemas := (loadSchema lib.schemas j' s.schemas).2 }
        = { s with schemas := (loadSchema lib.schemas j s.schemas).2 }
      rw [hstore]

theorem clientEndpoint_replaceable (j : Json) :
    Replaceable lib s (clientEndpoint lib s j).2 := by
  rcases endpoints_begin lib.connections lib.endpointValid lib.clientProvisions.lib j
    s.endpoints with hsame | ⟨j', hgood, hstore⟩
  · left
    show { s with endpoints := (loadEndpoints _ _ _ j s.endpoints).2 } = s
    rw [hsame]
  · have hpost : receive lib s (.post "client-endpoint" (some j')) = clientEndpoint lib s j' := by
      simp [receive, dispatch, receivePOST, Request.pathSuffix]
    refine replaceable_of_receive lib s hpost
      ((accepted_endpoint _ _ fun _ => rfl).trans hgood) ?_
    show { s with endpoints := _ } = { s with endpoints := _ }
    rw [hstore]

/-- A matching document that is refused changes nothing. -/
theorem serverMatching_refused (j : Json) :
    accepted (serverMatching lib s j).1 = true ∨ (serverMatching lib s j).2 = s := by
  unfold serverMatching loadMatching
  dsimp only
  split
  · split
    · exact Or.inr rfl
    · split
      · exact Or.inr rfl
      · exact Or.inr rfl
      · split
        · exact Or.inr rfl
        · exact Or.inl rfl
  · exact Or.inr rfl

/-- Vault entries that are refused change nothing. -/
theorem vault_refused (j : Json) :
    accepted (vault lib s j).1 = true ∨ (vault lib s j).2 = s := by
  unfold vault H2Vault.loadJson
  dsimp only
  split
  · exact Or.inr rfl
  · split
    · exact Or.inr rfl
    · exact Or.inl rfl

/-- The operation a body is posted to, if any. -/
theorem receivePOST_cases (pathSuffix : String) (body : Option Json) :
    (receivePOST lib s pathSuffix body).2 = s ∨ ∃ j, body = some j
      ∧ (receivePOST lib s pathSuffix body = serverMatching lib s j
        ∨ (pathSuffix = "server-provision"
          ∧ receivePOST lib s pathSuffix body = serverProvision lib s j)
        ∨ receivePOST lib s pathSuffix body = clientEndpoint lib s j
        ∨ (pathSuffix = "client-provision"
          ∧ receivePOST lib s pathSuffix body = clientProvision lib s j)
        ∨ receivePOST lib s pathSuffix body = schema lib s j
        ∨ receivePOST lib s pathSuffix body = vault lib s j) := by
  cases body with
  | none => exact Or.inl rfl
  | some j =>
      unfold receivePOST
      dsimp only
      split_ifs with h1 h2 h3 h4 h5 h6
      · exact Or.inr ⟨j, rfl, Or.inl rfl⟩
      · exact Or.inr ⟨j, rfl, Or.inr (Or.inl ⟨h2, rfl⟩)⟩
      · exact Or.inr ⟨j, rfl, Or.inr (Or.inr (Or.inl rfl))⟩
      · exact Or.inr ⟨j, rfl, Or.inr (Or.inr (Or.inr (Or.inl ⟨h4, rfl⟩)))⟩
      · exact Or.inr ⟨j, rfl, Or.inr (Or.inr (Or.inr (Or.inr (Or.inl rfl))))⟩
      · exact Or.inr ⟨j, rfl, Or.inr (Or.inr (Or.inr (Or.inr (Or.inr rfl))))⟩
      · exact Or.inl rfl

/-- Every load leaves what requests that are accepted leave. -/
theorem receivePOST_replaceable (pathSuffix : String) (body : Option Json)
    (hsuffix : pathSuffix.isEmpty = false) :
    Replaceable lib s (receivePOST lib s pathSuffix body).2 := by
  have hself : accepted (receivePOST lib s pathSuffix body).1 = true
      ∨ (receivePOST lib s pathSuffix body).2 = s →
      Replaceable lib s (receivePOST lib s pathSuffix body).2 := by
    have hreceive := receive_of_suffix lib s (r := .post pathSuffix body) hsuffix
    rintro (h | h)
    · exact replaceable_of_receive lib s hreceive h rfl
    · exact Or.inl h
  rcases receivePOST_cases lib s pathSuffix body with
    h | ⟨j, -, h | ⟨-, h⟩ | h | ⟨-, h⟩ | h | h⟩
  · exact Or.inl h
  · rw [h] at hself ⊢
    exact hself (serverMatching_refused lib s j)
  · rw [h]
    exact serverProvision_replaceable lib s j
  · rw [h]
    exact clientEndpoint_replaceable lib s j
  · rw [h]
    exact clientProvision_replaceable lib s j
  · rw [h]
    exact schema_replaceable lib s j
  · rw [h] at hself ⊢
    exact hself (vault_refused lib s j)

/-- A deletion that is refused changes nothing. -/
theorem receiveDELETE_refused (pathSuffix : String) (query : Query) :
    statusCodeOK (receiveDELETE s pathSuffix query).1 = true
      ∨ (receiveDELETE s pathSuffix query).2 = s := by
  have hdeleted : ∀ b, statusCodeOK (deletedCode b) = true := by
    intro b
    cases b <;> rfl
  have hclear : ∀ (m : MockData MockEvent) (ekey : EventKey),
      statusCodeOK (clearCode (MockData.clear m ekey).1 (MockData.clear m ekey).2.1) = true
        ∨ (MockData.clear m ekey).2.2 = m := by
    intro m ekey
    cases hresult : (MockData.clear m ekey).1 with
    | true => exact Or.inl (hdeleted _)
    | false =>
        right
        unfold MockData.clear at hresult ⊢
        split
        · rename_i hempty
          rw [if_pos hempty] at hresult
          cases hresult
        · rename_i hempty
          rw [if_neg hempty] at hresult
          split
          · rfl
          · rename_i hselection
            rw [if_neg hselection] at hresult
            split
            · rfl
            · rename_i h hlookup
              rw [hlookup] at hresult
              split
              · rename_i hnumber
                dsimp only at hresult
                rw [if_pos hnumber] at hresult
                split
                · rfl
                · rename_i n reverse hposition
                  rw [hposition] at hresult
                  dsimp only at hresult
                  split at hresult <;> cases hresult
              · rename_i hnumber
                dsimp only at hresult
                rw [if_neg hnumber] at hresult
                cases hresult
  unfold receiveDELETE
  split_ifs
  · exact Or.inl (hdeleted _)
  · exact Or.inl (hdeleted _)
  · exact Or.inl (hdeleted _)
  · exact Or.inl (hdeleted _)
  · refine (hclear s.serverEvents _).imp id fun h => ?_
    show { s with serverEvents := (MockData.clear s.serverEvents _).2.2 } = s
    rw [h]
  · refine (hclear s.clientEvents _).imp id fun h => ?_
    show { s with clientEvents := (MockData.clear s.clientEvents _).2.2 } = s
    rw [h]
  · dsimp only
    split_ifs
    · exact Or.inr rfl
    · exact Or.inl (hdeleted _)
    · exact Or.inl (hdeleted _)
  · exact Or.inr rfl

/-- A change of the traffic server that is refused is none, or the one that its first
    parameter alone makes. -/
theorem configureServer_refused (t : TrafficSwitches) (receiveRequestBody preReserveRequestBody :
    String) (h : (configureServer t receiveRequestBody preReserveRequestBody).1 = false) :
    (configureServer t receiveRequestBody preReserveRequestBody).2 = t
      ∨ configureServer t receiveRequestBody ""
        = (true, (configureServer t receiveRequestBody preReserveRequestBody).2) := by
  unfold configureServer at h ⊢
  cases hreceive : receiveRequestBody.isEmpty with
  | true =>
      left
      rw [hreceive] at h
      cases hpre : preReserveRequestBody.isEmpty with
      | true => rfl
      | false =>
          rw [hpre] at h
          cases hpreFlag : isFlag preReserveRequestBody with
          | true =>
              rw [hpreFlag] at h
              cases h
          | false => rfl
  | false =>
      rw [hreceive] at h
      cases hflag : isFlag receiveRequestBody with
      | false => exact Or.inl rfl
      | true =>
          right
          rw [hflag] at h
          cases hpre : preReserveRequestBody.isEmpty with
          | true =>
              rw [hpre] at h
              cases h
          | false =>
              rw [hpre] at h
              cases hpreFlag : isFlag preReserveRequestBody with
              | true =>
                  rw [hpreFlag] at h
                  cases h
              | false => rfl

/-- A change of a data storage that is refused is none. -/
theorem configureData_refused (d : DataSwitches) (discard discardKeyHistory disablePurge :
    String) (h : (configureData d discard discardKeyHistory disablePurge).1 = false) :
    (configureData d discard discardKeyHistory disablePurge).2 = d := by
  unfold configureData at h ⊢
  split
  · rfl
  · rename_i hsome
    rw [if_neg hsome] at h
    split
    · rfl
    · rename_i hkeep
      rw [if_neg hkeep] at h
      cases h

theorem dataAnswer_code (mode : String) (success : Bool) (discard : String)
    (needsStorage : Bool) :
    (dataAnswer mode success discard needsStorage).statusCode = putCode success := by
  unfold dataAnswer
  split <;> rfl

/-- Every change of the configuration leaves what requests that are accepted leave. -/
theorem receivePUT_replaceable (pathSuffix : String) (query : Query)
    (hsuffix : pathSuffix.isEmpty = false) :
    Replaceable lib s (receivePUT s pathSuffix query).2 := by
  have hself : ∀ q, statusCodeOK (receivePUT s pathSuffix q).1.statusCode = true →
      Replaceable lib s (receivePUT s pathSuffix q).2 := by
    intro q h
    have hreceive := receive_of_suffix lib s (r := .put pathSuffix q) hsuffix
    exact replaceable_of_receive lib s hreceive h rfl
  by_cases hserver : pathSuffix = "server/configuration"
  · cases htraffic : s.traffic with
    | none =>
        left
        unfold receivePUT
        rw [if_pos hserver, htraffic]
    | some t =>
        have hput : ∀ q, receivePUT s pathSuffix q
            = ({ statusCode := putCode (configureServer t (param q "receiveRequestBody")
                  (param q "preReserveRequestBody")).1 },
                { s with traffic := some (configureServer t (param q "receiveRequestBody")
                  (param q "preReserveRequestBody")).2 }) := by
          intro q
          unfold receivePUT
          rw [if_pos hserver, htraffic]
        cases hresult : (configureServer t (param query "receiveRequestBody")
          (param query "preReserveRequestBody")).1 with
        | true =>
            refine hself query ?_
            rw [hput, hresult]
            rfl
        | false =>
            rcases configureServer_refused t _ _ hresult with hsame | hfirst
            · left
              rw [hput, hsame, ← htraffic]
            · -- the first parameter alone
              let only : TextMap String :=
                AList.insert "receiveRequestBody" (param query "receiveRequestBody") ∅
              have hone : param (some only) "receiveRequestBody"
                  = param query "receiveRequestBody" := by
                show (only.lookup "receiveRequestBody").getD "" = _
                rw [AList.lookup_insert]
                rfl
              have hno : param (some only) "preReserveRequestBody" = "" := by
                have hne : "preReserveRequestBody" ≠ "receiveRequestBody" := by decide
                show (only.lookup "preReserveRequestBody").getD "" = _
                rw [AList.lookup_insert_ne hne]
                rfl
              have honly := hput (some only)
              rw [hone, hno, hfirst] at honly
              have hdone := hself (some only) (by rw [honly]; rfl)
              rw [honly] at hdone
              rw [hput query]
              exact hdone
  · have hunchanged : statusCodeOK (receivePUT s pathSuffix query).1.statusCode = true
        ∨ (receivePUT s pathSuffix query).2 = s := by
      unfold receivePUT
      rw [if_neg hserver]
      split
      · split
        · exact Or.inr rfl
        · rename_i t htraffic
          dsimp only
          rw [dataAnswer_code]
          cases hresult : (configureData t.storage (param query "discard")
            (param query "discardKeyHistory") (param query "disablePurge")).1 with
          | true => exact Or.inl rfl
          | false =>
              right
              rw [configureData_refused _ _ _ _ hresult, ← htraffic]
      · split
        · dsimp only
          rw [dataAnswer_code]
          cases hresult : (configureData s.client (param query "discard")
            (param query "discardKeyHistory") (param query "disablePurge")).1 with
          | true => exact Or.inl rfl
          | false =>
              right
              rw [configureData_refused _ _ _ _ hresult]
        · split
          · split
            · exact Or.inl rfl
            · exact Or.inr rfl
          · exact Or.inr rfl
    exact hunchanged.elim (hself query) Or.inl

/-- **STEP LEMMA**: what a request leaves is left by no request or by one that is
    accepted. -/
theorem step_replaceable (r : Request) : Replaceable lib s (step lib s r) := by
  by_cases hsuffix : r.pathSuffix.isEmpty = true
  · left
    unfold step receive
    rw [if_pos hsuffix]
  · have hfalse : r.pathSuffix.isEmpty = false := Bool.eq_false_iff.mpr hsuffix
    have hreceive := receive_of_suffix lib s hfalse
    have hstep : step lib s r = (dispatch lib s r).2 := by rw [step, hreceive]
    rw [hstep]
    cases r with
    | post pathSuffix body => exact receivePOST_replaceable lib s pathSuffix body hfalse
    | put pathSuffix query => exact receivePUT_replaceable lib s pathSuffix query hfalse
    | delete pathSuffix query =>
        rcases receiveDELETE_refused s pathSuffix query with hok | hsame
        · exact replaceable_of_receive lib s hreceive hok rfl
        · exact Or.inl hsame

end Refused

/-- The two storages. -/
inductive Mode where
  | server | client
  deriving DecidableEq, Repr

/-- Provisions need events that their storage does not keep. -/
def lost (s : AdminServer) : Mode → Bool
  | .server => needsServerStorage s.provisions && serverStorageOff s
  | .client => needsClientStorage s.clientProvisions && !s.client.data

def Mode.provisionSuffix : Mode → String
  | .server => "server-provision"
  | .client => "client-provision"

def Mode.dataSuffix : Mode → String
  | .server => "server-data/configuration"
  | .client => "client-data/configuration"

/-- The request is answered with a warning. -/
def Warned (lib : Libraries) (s : AdminServer) (r : Request) : Prop :=
  ∃ a w, answer lib s r = .ok a ∧ a.warning = some w

/-- A list of provisions that is refused, or lets an exception out. -/
def Halfway (lib : Libraries) (mode : Mode) (s : AdminServer) (r : Request) : Prop :=
  ∃ items, r = .post mode.provisionSuffix (some (.arr items))
    ∧ accepted (answer lib s r) = false

section Warnings

variable (lib : Libraries) (s : AdminServer)

/-- A load of a single document or of a whole list of server provisions. -/
theorem serverProvision_lost (j : Json)
    (h : lost (serverProvision lib s j).2 .server = true) :
    lost s .server = true
      ∨ (∃ a w, (serverProvision lib s j).1 = .ok a ∧ a.warning = some w)
      ∨ ∃ items, j = .arr items ∧ accepted (serverProvision lib s j).1 = false := by
  have haccepted : accepted (serverProvision lib s j).1 = H2ProvisionDocuments.success
      (s.provisions.load lib.provisions (regexMatching s) j).1 :=
    accepted_provision _ _ fun _ => rfl
  cases hgood : H2ProvisionDocuments.success
      (s.provisions.load lib.provisions (regexMatching s) j).1 with
  | true =>
      right
      left
      obtain ⟨hneeds, hoff⟩ := Bool.and_eq_true_iff.mp h
      have hresult := H2ProvisionDocuments.success_iff.mp hgood
      unfold serverProvision
      dsimp only
      rw [hresult]
      exact ⟨_, needWarning, rfl, if_pos ⟨rfl, hneeds, hoff⟩⟩
  | false =>
      cases hkind : j.isArray with
      | true =>
          cases j with
          | arr items => exact Or.inr (Or.inr ⟨items, rfl, haccepted.trans hgood⟩)
          | null | bool | int | uint | float | str | obj => cases hkind
      | false =>
          left
          rcases single_of (provisions_single lib.provisions (regexMatching s))
            (provisions_harmless lib.provisions (regexMatching s)) hkind s.provisions with
            hsame | htaken
          · have hstate : (serverProvision lib s j).2 = s := by
              show { s with provisions := (s.provisions.load lib.provisions _ j).2 } = s
              rw [hsame]
            rwa [hstate] at h
          · rw [hgood] at htaken
            cases htaken

/-- The same of client provisions. -/
theorem clientProvision_lost (j : Json)
    (h : lost (clientProvision lib s j).2 .client = true) :
    lost s .client = true
      ∨ (∃ a w, (clientProvision lib s j).1 = .ok a ∧ a.warning = some w)
      ∨ ∃ items, j = .arr items ∧ accepted (clientProvision lib s j).1 = false := by
  have haccepted : accepted (clientProvision lib s j).1 = H2ProvisionDocuments.success
      (s.clientProvisions.load lib.clientProvisions j).1 :=
    accepted_provision _ _ fun _ => rfl
  cases hgood : H2ProvisionDocuments.success
      (s.clientProvisions.load lib.clientProvisions j).1 with
  | true =>
      right
      left
      obtain ⟨hneeds, hoff⟩ := Bool.and_eq_true_iff.mp h
      have hresult := H2ProvisionDocuments.success_iff.mp hgood
      unfold clientProvision
      dsimp only
      rw [hresult]
      exact ⟨_, needWarning, rfl, if_pos ⟨rfl, hneeds, hoff⟩⟩
  | false =>
      cases hkind : j.isArray with
      | true =>
          cases j with
          | arr items => exact Or.inr (Or.inr ⟨items, rfl, haccepted.trans hgood⟩)
          | null | bool | int | uint | float | str | obj => cases hkind
      | false =>
          left
          rcases single_of (clientProvisions_single lib.clientProvisions)
            (clientProvisions_harmless lib.clientProvisions) hkind s.clientProvisions with
            hsame | htaken
          · have hstate : (clientProvision lib s j).2 = s := by
              show { s with clientProvisions := (s.clientProvisions.load _ j).2 } = s
              rw [hsame]
            rwa [hstate] at h
          · rw [hgood] at htaken
            cases htaken

/-- A deletion makes no provision need what is not kept. -/
theorem receiveDELETE_lost (pathSuffix : String) (query : Query) (mode : Mode)
    (h : lost (receiveDELETE s pathSuffix query).2 mode = true) : lost s mode = true := by
  unfold receiveDELETE at h
  split_ifs at h with hprovision
  · cases mode with
    | server => cases h
    | client => exact h
  · cases mode <;> exact h
  · cases mode with
    | server => exact h
    | client => cases h
  · cases mode <;> exact h
  · cases mode <;> exact h
  · cases mode <;> exact h
  · dsimp only at h
    split_ifs at h <;> cases mode <;> exact h
  · exact h

theorem configureServer_storage (t : TrafficSwitches) (receiveRequestBody
    preReserveRequestBody : String) :
    (configureServer t receiveRequestBody preReserveRequestBody).2.storage = t.storage := by
  unfold configureServer
  dsimp only
  split_ifs <;> rfl

/-- A storage that is off after a change was off before it, or has just been discarded. -/
theorem configureData_off (d : DataSwitches) (discard discardKeyHistory disablePurge : String)
    (h : (configureData d discard discardKeyHistory disablePurge).2.data = false) :
    d.data = false
      ∨ ((configureData d discard discardKeyHistory disablePurge).1 && discard == "true")
        = true := by
  unfold configureData at h ⊢
  split at h
  · exact Or.inl h
  · rename_i hsome
    rw [if_neg hsome]
    split at h
    · exact Or.inl h
    · rename_i hkeep
      rw [if_neg hkeep]
      cases hempty : discard.isEmpty with
      | true =>
          rw [hempty] at h
          exact Or.inl h
      | false =>
          rw [hempty] at h
          have hdiscard : (discard != "true") = false := h
          right
          show (true && discard == "true") = true
          rw [bne, Bool.not_eq_false'] at hdiscard
          rw [hdiscard]
          rfl

theorem dataAnswer_warning {mode : String} {success : Bool} {discard : String}
    {needsStorage : Bool} (h : (success && discard == "true") = true)
    (hneeds : needsStorage = true) :
    ∃ w, (dataAnswer mode success discard needsStorage).warning = some w := by
  unfold dataAnswer
  rw [h, hneeds]
  exact ⟨_, rfl⟩

/-- A change of the configuration that loses events warns. -/
theorem receivePUT_lost (pathSuffix : String) (query : Query) (mode : Mode)
    (h : lost (receivePUT s pathSuffix query).2 mode = true) :
    lost s mode = true ∨ ∃ w, (receivePUT s pathSuffix query).1.warning = some w := by
  unfold receivePUT at h ⊢
  split_ifs at h ⊢ with hserver hserverData hclientData hfiles hflag
  · left
    cases htraffic : s.traffic with
    | none =>
        rw [htraffic] at h
        exact h
    | some t =>
        rw [htraffic] at h
        cases mode with
        | client => exact h
        | server =>
            have hoff : serverStorageOff s = !t.storage.data := by
              rw [serverStorageOff, htraffic]
              rfl
            have hafter : (needsServerStorage s.provisions
                && !(configureServer t (param query "receiveRequestBody")
                  (param query "preReserveRequestBody")).2.storage.data) = true := h
            rw [configureServer_storage, ← hoff] at hafter
            exact hafter
  · cases htraffic : s.traffic with
    | none =>
        rw [htraffic] at h
        exact Or.inl h
    | some t =>
        rw [htraffic] at h
        cases mode with
        | client => exact Or.inl h
        | server =>
            have hoff : serverStorageOff s = !t.storage.data := by
              rw [serverStorageOff, htraffic]
              rfl
            obtain ⟨hneeds, hdata⟩ := Bool.and_eq_true_iff.mp h
            have hdata' : (configureData t.storage (param query "discard")
                (param query "discardKeyHistory") (param query "disablePurge")).2.data = false := by
              have hnot : (!(configureData t.storage (param query "discard")
                (param query "discardKeyHistory")
                (param query "disablePurge")).2.data) = true := hdata
              simpa using hnot
            rcases configureData_off _ _ _ _ hdata' with hbefore | hdiscard
            · left
              show (needsServerStorage s.provisions && serverStorageOff s) = true
              rw [hoff, hbefore]
              exact Bool.and_eq_true_iff.mpr ⟨hneeds, rfl⟩
            · exact Or.inr (dataAnswer_warning hdiscard hneeds)
  · cases mode with
    | server => exact Or.inl h
    | client =>
        obtain ⟨hneeds, hdata⟩ := Bool.and_eq_true_iff.mp h
        have hdata' : (configureData s.client (param query "discard")
            (param query "discardKeyHistory") (param query "disablePurge")).2.data = false := by
          simpa using hdata
        rcases configureData_off _ _ _ _ hdata' with hbefore | hdiscard
        · left
          show (needsClientStorage s.clientProvisions && !s.client.data) = true
          rw [hbefore]
          exact Bool.and_eq_true_iff.mpr ⟨hneeds, rfl⟩
        · exact Or.inr (dataAnswer_warning hdiscard hneeds)
  · left
    cases mode <;> exact h
  · exact Or.inl h
  · exact Or.inl h

/-- **STEP LEMMA**: a request that loses events warns, or is a list of provisions refused
    halfway. -/
theorem step_lost (r : Request) (mode : Mode) (h : lost (step lib s r) mode = true) :
    lost s mode = true ∨ Warned lib s r ∨ Halfway lib mode s r := by
  cases hsuffix : r.pathSuffix.isEmpty with
  | true =>
      left
      have hstep : step lib s r = s := by
        unfold step receive
        rw [if_pos hsuffix]
      rwa [hstep] at h
  | false =>
      have hreceive := receive_of_suffix lib s hsuffix
      unfold step at h
      unfold Warned Halfway answer
      rw [hreceive] at h ⊢
      cases r with
      | delete pathSuffix query => exact Or.inl (receiveDELETE_lost s pathSuffix query mode h)
      | put pathSuffix query =>
          rcases receivePUT_lost s pathSuffix query mode h with hbefore | ⟨w, hw⟩
          · exact Or.inl hbefore
          · exact Or.inr (Or.inl ⟨_, w, rfl, hw⟩)
      | post pathSuffix body =>
          simp only [dispatch] at h ⊢
          rcases receivePOST_cases lib s pathSuffix body with
            heq | ⟨j, rfl, heq | ⟨rfl, heq⟩ | heq | ⟨rfl, heq⟩ | heq | heq⟩
          · rw [heq] at h
            exact Or.inl h
          · rw [heq] at h
            left
            cases mode <;> exact h
          · rw [heq] at h ⊢
            cases mode with
            | client => exact Or.inl h
            | server =>
                refine (serverProvision_lost lib s j h).imp id (Or.imp id ?_)
                rintro ⟨items, rfl, hrefused⟩
                exact ⟨items, rfl, hrefused⟩
          · rw [heq] at h
            left
            cases mode <;> exact h
          · rw [heq] at h ⊢
            cases mode with
            | server => exact Or.inl h
            | client =>
                refine (clientProvision_lost lib s j h).imp id (Or.imp id ?_)
                rintro ⟨items, rfl, hrefused⟩
                exact ⟨items, rfl, hrefused⟩
          · rw [heq] at h
            left
            cases mode <;> exact h
          · rw [heq] at h
            left
            cases mode <;> exact h

/-- Data that are discarded are not kept. -/
theorem configureData_discarded (d : DataSwitches) (discard discardKeyHistory disablePurge :
    String) (h : ((configureData d discard discardKeyHistory disablePurge).1
      && discard == "true") = true) :
    (configureData d discard discardKeyHistory disablePurge).2.data = false := by
  obtain ⟨hsuccess, hdiscard⟩ := Bool.and_eq_true_iff.mp h
  obtain rfl := beq_iff_eq.mp hdiscard
  unfold configureData at hsuccess ⊢
  split at hsuccess
  · cases hsuccess
  · rename_i hsome
    rw [if_neg hsome]
    split at hsuccess
    · cases hsuccess
    · rename_i hkeep
      rw [if_neg hkeep]
      rfl

theorem dataAnswer_warned {mode : String} {success : Bool} {discard : String}
    {needsStorage : Bool} {w : String}
    (h : (dataAnswer mode success discard needsStorage).warning = some w) :
    (success && discard == "true") = true ∧ needsStorage = true := by
  unfold dataAnswer at h
  split at h
  · rename_i hwarn
    exact Bool.and_eq_true_iff.mp hwarn
  · cases h

/-- A change of the configuration that warns loses events. -/
theorem receivePUT_warned (pathSuffix : String) (query : Query) {w : String}
    (h : (receivePUT s pathSuffix query).1.warning = some w) :
    ∃ mode : Mode, lost (receivePUT s pathSuffix query).2 mode = true
      ∧ pathSuffix = mode.dataSuffix := by
  unfold receivePUT at h ⊢
  split_ifs at h ⊢ with hserver hserverData hclientData hfiles hflag
  · cases htraffic : s.traffic with
    | none =>
        rw [htraffic] at h
        cases h
    | some t =>
        rw [htraffic] at h
        cases h
  · cases htraffic : s.traffic with
    | none =>
        rw [htraffic] at h
        cases h
    | some t =>
        rw [htraffic] at h
        obtain ⟨hdiscard, hneeds⟩ := dataAnswer_warned h
        refine ⟨.server, ?_, hserverData⟩
        refine Bool.and_eq_true_iff.mpr ⟨hneeds, ?_⟩
        show (!(configureData t.storage (param query "discard")
          (param query "discardKeyHistory") (param query "disablePurge")).2.data) = true
        rw [configureData_discarded _ _ _ _ hdiscard]
        rfl
  · obtain ⟨hdiscard, hneeds⟩ := dataAnswer_warned h
    refine ⟨.client, ?_, hclientData⟩
    refine Bool.and_eq_true_iff.mpr ⟨hneeds, ?_⟩
    show (!(configureData s.client (param query "discard")
      (param query "discardKeyHistory") (param query "disablePurge")).2.data) = true
    rw [configureData_discarded _ _ _ _ hdiscard]
    rfl

/-- A load that warns loses events. -/
theorem receivePOST_warned (pathSuffix : String) (body : Option Json) {a : Answer} {w : String}
    (ha : (receivePOST lib s pathSuffix body).1 = .ok a) (hw : a.warning = some w) :
    ∃ mode : Mode, lost (receivePOST lib s pathSuffix body).2 mode = true
      ∧ pathSuffix = mode.provisionSuffix := by
  have hmap : ∀ {ρ : Type} {r : Except Fault ρ} {f : ρ → Answer}, r.map f = .ok a →
      ∃ result, r = .ok result ∧ f result = a := by
    intro ρ r f h
    cases r with
    | error e => cases h
    | ok result => exact ⟨result, rfl, Except.ok.inj h⟩
  cases body with
  | none =>
      obtain rfl := Except.ok.inj ha
      cases hw
  | some j =>
      unfold receivePOST at ha ⊢
      dsimp only at ha ⊢
      split_ifs at ha ⊢ with h1 h2 h3 h4 h5 h6
      · obtain ⟨result, -, rfl⟩ := hmap ha
        cases result <;> cases hw
      · obtain ⟨result, hresult, rfl⟩ := hmap ha
        dsimp only at hw
        split_ifs at hw with hwarn
        obtain ⟨-, hneeds, hoff⟩ := hwarn
        exact ⟨.server, Bool.and_eq_true_iff.mpr ⟨hneeds, hoff⟩, h2⟩
      · obtain ⟨result, -, rfl⟩ := hmap ha
        cases hw
      · obtain ⟨result, hresult, rfl⟩ := hmap ha
        dsimp only at hw
        split_ifs at hw with hwarn
        obtain ⟨-, hneeds, hoff⟩ := hwarn
        exact ⟨.client, Bool.and_eq_true_iff.mpr ⟨hneeds, hoff⟩, h4⟩
      · obtain ⟨result, -, rfl⟩ := hmap ha
        cases hw
      · unfold vault at ha
        obtain rfl := Except.ok.inj ha
        split_ifs at hw
      · obtain rfl := Except.ok.inj ha
        cases hw

/-- A warning is true: the provisions of its storage need what is not kept. -/
theorem lost_of_warned (r : Request) (h : Warned lib s r) :
    ∃ mode : Mode, lost (step lib s r) mode = true
      ∧ (r.pathSuffix = mode.provisionSuffix ∨ r.pathSuffix = mode.dataSuffix) := by
  obtain ⟨a, w, hanswer, hw⟩ := h
  unfold answer at hanswer
  unfold step
  cases hsuffix : r.pathSuffix.isEmpty with
  | true =>
      unfold receive at hanswer
      rw [if_pos hsuffix] at hanswer
      obtain rfl := Except.ok.inj hanswer
      cases hw
  | false =>
      rw [receive_of_suffix lib s hsuffix] at hanswer ⊢
      cases r with
      | delete pathSuffix query =>
          obtain rfl := Except.ok.inj hanswer
          cases hw
      | put pathSuffix query =>
          obtain rfl := Except.ok.inj hanswer
          obtain ⟨mode, hlost, hmode⟩ := receivePUT_warned s pathSuffix query hw
          exact ⟨mode, hlost, Or.inr hmode⟩
      | post pathSuffix body =>
          obtain ⟨mode, hlost, hmode⟩ := receivePOST_warned lib s pathSuffix body hanswer hw
          exact ⟨mode, hlost, Or.inl hmode⟩

end Warnings

end H2Admin
