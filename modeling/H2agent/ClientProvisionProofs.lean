import H2agent.FilterProofs
import H2agent.SourceProofs
import H2agent.TargetProofs

/-! # Client provisions

    `AdminClientProvision::transform`, which builds a request, and
    `AdminClientProvision::transformResponse`, which runs a second list of items
    on the response.  Both have the loops of a server provision
    (`executeOnFilterFail` included).

    While a request is built, its items read the uri, the headers and the body
    they are building.  On a response they read those of the request that was
    sent, and what they write of a request goes into dummies that are fresh for
    every item of the outermost list. -/

namespace H2ClientProvision

open FallbackList H2Convert H2Filter H2Key H2Source H2Store H2Target H2Transformation JsonValue

/-! ## One item -/

/-- The state of the item loop: what is built, and the holder. -/
structure ClientRun where
  state : ClientState
  sourceVault : TypeConverter

/-- `breakCondition`. -/
def ClientRun.stop (s : ClientRun) : Bool := s.state.world.breakCondition

/-- The request an item reads. -/
structure SeenRequest where
  requestUri : String
  requestHeaders : HeaderMap
  requestBodyJson : Json

/-- The last stage of an item. -/
def targetStage (env : Env) (t : Transformation) (state : ClientState) (groups : List String)
    (v : TypeConverter) : Outcome ClientRun Fault :=
  match AdminClientProvision.processTargets env t ⟨v, t.sourceType == .Eraser, groups⟩ state with
  | .error e => .fault e
  | .ok (flag, state) => .done flag ⟨state, v⟩

/-- An item: source, filter and target, as all loops process it. -/
def processItem (env : Env) (req : ClientRequest) (seen : ClientState → SeenRequest)
    (t : Transformation) (s : ClientRun) : Outcome ClientRun Fault :=
  let request := seen s.state
  match AdminClientProvision.sourceValue env req request.requestUri request.requestHeaders
      request.requestBodyJson t s.state.world with
  | .error e => .fault e
  | .ok found =>
      let (ok, v) := found.value.assign s.sourceVault
      let state := { s.state with world := { s.state.world with vars := found.vars } }
      if !ok then .skip ⟨state, v⟩
      else if t.hasFilter then
        if t.sourceType == .Eraser then .turnedDown ⟨state, v⟩
        else
          match AdminClientProvision.processFilters env state.world.vars state.world.vault t v with
          | .error e => .fault e
          | .ok f =>
              if f.passed then targetStage env t state f.groups f.holder
              else .turnedDown ⟨state, f.holder⟩
      else targetStage env t state [] v

/-- The world the target of an item starts from, when the item gets to it: its source is
    found and its filter passes. -/
def targetWorld (env : Env) (req : ClientRequest) (seen : ClientState → SeenRequest)
    (t : Transformation) (s : ClientRun) : Option World :=
  match AdminClientProvision.sourceValue env req (seen s.state).requestUri
      (seen s.state).requestHeaders (seen s.state).requestBodyJson t s.state.world with
  | .error _ => none
  | .ok found =>
      let (ok, v) := found.value.assign s.sourceVault
      let w := { s.state.world with vars := found.vars }
      if !ok then none
      else if t.hasFilter then
        if t.sourceType == .Eraser then none
        else
          match AdminClientProvision.processFilters env w.vars w.vault t v with
          | .error _ => none
          | .ok f => if f.passed then some w else none
      else some w

/-- What an item can do: its source may leave other variables, and where it gets to its
    target, that is the rest. -/
theorem processItem_cases {env : Env} {req : ClientRequest} {seen : ClientState → SeenRequest}
    {t : Transformation} {s u : ClientRun} (h : (processItem env req seen t s).state = some u) :
    ∃ found, AdminClientProvision.sourceValue env req (seen s.state).requestUri
        (seen s.state).requestHeaders (seen s.state).requestBodyJson t s.state.world = .ok found ∧
      (u.state = { s.state with world := { s.state.world with vars := found.vars } } ∨
        targetWorld env req seen t s = some { s.state.world with vars := found.vars } ∧
          ∃ groups v, (targetStage env t
            { s.state with world := { s.state.world with vars := found.vars } } groups v).state
              = some u) := by
  cases hsource : AdminClientProvision.sourceValue env req (seen s.state).requestUri
      (seen s.state).requestHeaders (seen s.state).requestBodyJson t s.state.world with
  | error e =>
      simp only [processItem, hsource] at h
      cases h
  | ok found =>
      refine ⟨found, rfl, ?_⟩
      simp only [processItem, hsource] at h
      simp only [targetWorld, hsource]
      split at h
      · cases h
        exact .inl rfl
      · next hok =>
          rw [if_neg hok]
          split at h
          · next hfilter =>
              rw [if_pos hfilter]
              split at h
              · cases h
                exact .inl rfl
              · next heraser =>
                  rw [if_neg heraser]
                  split at h
                  · cases h
                  · next f hf =>
                      split at h
                      · next hpassed =>
                          rw [if_pos hpassed]
                          exact .inr ⟨rfl, _, _, h⟩
                      · cases h
                        exact .inl rfl
          · next hfilter =>
              rw [if_neg hfilter]
              exact .inr ⟨rfl, _, _, h⟩

/-- A target stage that ends is a target on an expanded text. -/
theorem targetStage_cases {env : Env} {t : Transformation} {state : ClientState}
    {groups : List String} {v : TypeConverter} {u : ClientRun}
    (h : (targetStage env t state groups v).state = some u) :
    ∃ target, expand env state.world t.target t.targetPatterns = .ok target ∧
      u.state = (clientTarget env t target ⟨v, t.sourceType == .Eraser, groups⟩ state).2 := by
  simp only [targetStage, AdminClientProvision.processTargets] at h
  cases htarget : expand env state.world t.target t.targetPatterns with
  | error e =>
      simp only [htarget] at h
      cases h
  | ok target =>
      simp only [htarget] at h
      cases h
      exact ⟨target, rfl, rfl⟩

/-! ## The provision -/

/-- What `load` keeps of a provision, with the sequence it is at and the schemas
    its identifiers refer to. -/
structure AdminClientProvision where
  inState : String := defaultState
  outState : String
  requestMethod : String
  requestUri : String
  requestHeaders : HeaderMap := []
  requestBody : Json := .null
  requestBodyAsString : String := ""
  requestDelayMs : Nat := 0
  requestTimeoutMs : Nat := 0
  expectedResponseStatusCode : Nat := 0
  seq : Int := 0
  requestSchema : Option Json := none
  responseSchema : Option Json := none
  transformations : Transformations := .nil
  onResponseTransformations : Transformations := .nil

/-- The targets that build the request body as JSON. -/
def isJsonTarget : TargetType → Bool
  | .RequestBodyJson_String | .RequestBodyJson_Integer | .RequestBodyJson_Unsigned
  | .RequestBodyJson_Float | .RequestBodyJson_Boolean | .RequestBodyJson_Object
  | .RequestBodyJson_JsonString => true
  | _ => false

namespace AdminClientProvision

/-- `usesRequestBodyAsTransformationJsonTarget`: a scan of the outermost list. -/
def usesJson (p : AdminClientProvision) : Bool :=
  p.transformations.outer.any (fun t => isJsonTarget t.targetType)

/-- The reserved variable `sequence`. -/
def withSequence (p : AdminClientProvision) (seq : Int) (w : World) : World :=
  { w with
    vars := w.vars.insert "sequence" (toString (if seq ≥ 0 then seq else p.seq))
    breakCondition := false }

/-- What items know while a request is built; there is no send sequence yet. -/
def request (p : AdminClientProvision) : ClientRequest where
  sendSeq := 0
  inState := p.inState
  requestBodyAsString := p.requestBodyAsString
  usesJson := p.usesJson
  received := none

/-- The values without transformations; the caller's body text is empty. -/
def start (p : AdminClientProvision) (seq : Int) (w : World) : ClientRun where
  state := {
    world := p.withSequence seq w
    requestMethod := p.requestMethod
    requestUri := p.requestUri
    requestBody := if p.usesJson then ⟨p.requestBody, ""⟩ else ⟨.null, p.requestBodyAsString⟩
    requestHeaders := p.requestHeaders
    requestDelayMs := p.requestDelayMs
    requestTimeoutMs := p.requestTimeoutMs
    outState := p.outState }
  sourceVault := TypeConverter.fresh

/-- The request being built is the one that is read. -/
def seenBuilding (s : ClientState) : SeenRequest :=
  ⟨s.requestUri, s.requestHeaders, s.requestBody.json⟩

/-- The item loop of `transform`. -/
def runItems (env : Env) (p : AdminClientProvision) (seq : Int) (w : World) :
    Except Fault ClientRun :=
  runMain ClientRun.stop id (processItem env p.request seenBuilding) p.transformations
    (p.start seq w)

/-- `AdminClientProvision::transform`: the request, and the error of its schema. -/
def transform (env : Env) (p : AdminClientProvision) (seq : Int) (w : World) :
    Except Fault (ClientState × Option String) :=
  match p.runItems env seq w with
  | .error e => .error e
  | .ok s =>
      let b := s.state.requestBody
      let error := p.requestSchema.bind
        (fun schema => env.lib.validate schema (if p.usesJson then b.json else p.requestBody))
      -- an invalid request is left without its final text
      if error.isNone && p.usesJson && !b.json.empty then
        .ok ({ s.state with requestBody :=
          { b with text := (env.lib.dump b.json).getD b.text } }, error)
      else .ok (s.state, error)

/-- The final text of a request is no part of its world. -/
theorem transform_world {env : Env} {p : AdminClientProvision} {seq : Int} {w : World}
    {out : ClientState} {error : Option String} (h : p.transform env seq w = .ok (out, error)) :
    ∃ s, p.runItems env seq w = .ok s ∧ out.world = s.state.world := by
  simp only [transform] at h
  split at h
  · cases h
  · next s hs =>
      refine ⟨s, hs, ?_⟩
      by_cases hfinal : ((p.requestSchema.bind fun schema => env.lib.validate schema
          (if p.usesJson then s.state.requestBody.json else p.requestBody)).isNone && p.usesJson
            && !s.state.requestBody.json.empty) = true
      · rw [if_pos hfinal] at h
        injection h with h
        exact (congrArg (fun o => o.1.world) h).symm
      · rw [if_neg hfinal] at h
        injection h with h
        exact (congrArg (fun o => o.1.world) h).symm

/-! ### On a response -/

/-- What items know on a response. -/
def responseRequest (p : AdminClientProvision) (received : ReceivedResponse) (sendSeq : Nat) :
    ClientRequest where
  sendSeq := sendSeq
  inState := p.inState
  requestBodyAsString := p.requestBodyAsString
  usesJson := false
  received := some received

/-- Fresh dummies for the parts of a request. -/
def freshDummies (s : ClientRun) : ClientRun :=
  { s with
    state := { s.state with
      requestMethod := "", requestUri := "", requestBody := ⟨.null, ""⟩
      requestHeaders := [], requestDelayMs := 0, requestTimeoutMs := 0 } }

/-- The request that was sent is the one that is read. -/
def seenSent (requestUri : String) (requestHeaders : HeaderMap) (_ : ClientState) : SeenRequest :=
  ⟨requestUri, requestHeaders, .null⟩

/-- Where the items on a response start from. -/
def startResponse (p : AdminClientProvision) (outState : String) (seq : Int) (w : World) :
    ClientRun :=
  freshDummies ⟨⟨p.withSequence seq w, "", "", ⟨.null, ""⟩, [], 0, 0, outState⟩,
    TypeConverter.fresh⟩

/-- The item loop of `transformResponse`. -/
def runResponseItems (env : Env) (p : AdminClientProvision) (requestUri : String)
    (requestHeaders : HeaderMap) (received : ReceivedResponse) (sendSeq : Nat)
    (outState : String) (seq : Int) (w : World) : Except Fault ClientRun :=
  runMain ClientRun.stop freshDummies
    (processItem env (p.responseRequest received sendSeq) (seenSent requestUri requestHeaders))
    p.onResponseTransformations (p.startResponse outState seq w)

/-- The expected status code, and the response schema on a body that is JSON. -/
def validates (env : Env) (p : AdminClientProvision) (received : ReceivedResponse) : Bool :=
  !(p.expectedResponseStatusCode != 0
      && received.statusCode != (p.expectedResponseStatusCode : Int))
    && match p.responseSchema, env.lib.parse received.body with
      | some schema, some j => (env.lib.validate schema j).isNone
      | _, _ => true

/-- `AdminClientProvision::transformResponse`: the result, and the state and
    variables left. -/
def transformResponse (env : Env) (p : AdminClientProvision) (requestUri : String)
    (requestHeaders : HeaderMap) (received : ReceivedResponse) (sendSeq : Nat)
    (outState : String) (seq : Int) (w : World) : Except Fault (Bool × String × World) :=
  if p.onResponseTransformations.isNil then .ok (p.validates env received, outState, w)
  else
    match p.runResponseItems env requestUri requestHeaders received sendSeq outState seq w with
    | .error e => .error e
    | .ok s => .ok (p.validates env received, s.state.outState, s.state.world)

end AdminClientProvision

end H2ClientProvision
