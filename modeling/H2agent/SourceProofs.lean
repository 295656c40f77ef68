import H2agent.TransformationProofs

/-! # The sources of server and client provisions

    `processSources` of `AdminServerProvision` and `AdminClientProvision`.  Each
    kind of source finds a value and calls one setter of the holder, so the value
    it finds (`SourceValue`) is told apart from the setter (`assign`).  A value
    is found without a look at the holder: what the holder showed before can only
    survive a source that calls no setter, or one that fails. -/

namespace H2Source

open CppText H2Convert H2Key H2Store H2Transformation JsonValue

/-- What a source finds: nothing (the item is skipped), no value of its own (the
    holder stays as it is), or the argument of a setter. -/
inductive SourceValue where
  | missing
  | keep
  | string (s : String)
  | integer (i : Int)
  | unsigned (u : Nat)
  | float (f : Float)
  | object (j : Json) (path : String)

/-- The success of the source and the holder it leaves. -/
def SourceValue.assign : SourceValue → TypeConverter → Bool × TypeConverter
  | .missing, v => (false, v)
  | .keep, v => (true, v)
  | .string s, v => (true, v.setString s)
  | .integer i, v => (true, v.setInteger i)
  | .unsigned u, v => (true, v.setUnsigned u)
  | .float f, v => (true, v.setFloat f)
  | .object j path, v => v.setObject j path

/-- A value with the variables left; only a command changes them. -/
structure Sourced where
  value : SourceValue
  vars : TextMap String

/-! ## The kinds of source both provisions have -/

/-- An integer when the result is one of type `int`, else a float. -/
def mathValue (lib : Lib) (expression : String) : SourceValue :=
  let result := lib.math expression
  let i := lib.floatToI64 result
  if -2147483648 ≤ i ∧ i < 2147483648 ∧ Float.ofInt i == result then .integer i else .float result

/-- The units of `Timestamp`; with any other one no setter is called. -/
def timestampValue (unit : String) (nanoseconds : Int) : SourceValue :=
  if unit == "s" then .integer (nanoseconds.tdiv 1000000000)
  else if unit == "ms" then .integer (nanoseconds.tdiv 1000000)
  else if unit == "us" then .integer (nanoseconds.tdiv 1000)
  else if unit == "ns" then .integer nanoseconds
  else .keep

/-- A header of a message. -/
def headerValue (name : String) (headers : HeaderMap) : SourceValue :=
  match headers.find name with
  | some value => .string value
  | none => .missing

/-- A token of the source with its variables replaced. -/
def sourceToken (env : Env) (w : World) (t : Transformation) (i : Nat) :
    Except Fault String :=
  expand env w (t.sourceTokenized.getD i "") t.sourcePatterns

/-- The node of an event, when there is one. -/
def eventValue (event : Option MockEvent) (path : String) : SourceValue :=
  match event with
  | some e => .object e.json path
  | none => .missing

/-- `ServerEvent`: method, uri, number, path and receive sequence. -/
def serverEventValue (env : Env) (t : Transformation) (w : World) :
    Except Fault SourceValue := do
  let eventMethod ← sourceToken env w t 0
  let eventUri ← sourceToken env w t 1
  let eventNumber ← sourceToken env w t 2
  let eventPath ← sourceToken env w t 3
  let eventRecvseq ← sourceToken env w t 4
  let dkey := DataKey.ofServer eventMethod eventUri
  let event :=
    if !eventRecvseq.isEmpty then
      -- a text that is no number throws, which ends in the same failure
      (stoull eventRecvseq).bind (fun seq => w.serverEvents.map.getEventBySeq dkey seq)
    else w.serverEvents.map.getEvent ⟨dkey, eventNumber⟩
  return eventValue event eventPath

/-- `ClientEvent`: endpoint, method, uri, number, path and send sequence. -/
def clientEventValue (env : Env) (t : Transformation) (w : World) :
    Except Fault SourceValue := do
  let eventEndpoint ← sourceToken env w t 0
  let eventMethod ← sourceToken env w t 1
  let eventUri ← sourceToken env w t 2
  let eventNumber ← sourceToken env w t 3
  let eventPath ← sourceToken env w t 4
  let eventSendseq ← sourceToken env w t 5
  let dkey := DataKey.ofClient eventEndpoint eventMethod eventUri
  let event :=
    if !eventSendseq.isEmpty then
      (stoull eventSendseq).bind (fun seq => MockData.getEventBySeq w.clientEvents dkey seq)
    else MockData.getEvent w.clientEvents ⟨dkey, eventNumber⟩
  return eventValue event eventPath

/-- `SGVar`: a vault entry, or a node of it. -/
def vaultValue (env : Env) (t : Transformation) (w : World) : Except Fault SourceValue := do
  let varname ← expand env w t.source t.sourcePatterns
  match w.vault.lookup varname with
  | none => return .missing
  | some value =>
      let path ← expandNonEmpty env w t.source2 t.sourcePatterns
      return .object value path

/-- `Random`, in the arithmetic of `int`: an overflow is undefined, and so is the
    remainder of a division by zero. -/
def randomValue (env : Env) (t : Transformation) : Except Fault SourceValue :=
  let difference := t.sourceI2 - t.sourceI1
  let range := difference + 1
  if !fitsI32 difference || !fitsI32 range then .error .undefined
  else if range = 0 then .error .arithmetic
  else
    let value := t.sourceI1 + (env.rand t.uid : Int).tmod range
    if fitsI32 value then .ok (.integer value) else .error .undefined

/-- It is a number. -/
theorem randomValue_integer {env : Env} {t : Transformation} {value : SourceValue}
    (h : randomValue env t = .ok value) : ∃ i, value = .integer i := by
  simp only [randomValue] at h
  split at h
  · cases h
  · split at h
    · cases h
    · split at h
      · cases h
        exact ⟨_, rfl⟩
      · cases h

/-- `Command`: its output, and its exit status in the variable `rc`. -/
def commandSourced (env : Env) (t : Transformation) (w : World) (command : String) : Sourced :=
  match env.popen t.uid command with
  | none => ⟨.string "", w.vars.insert "rc" "-1"⟩
  | some (output, status) => ⟨.string output, w.vars.insert "rc" (toString status)⟩

/-- The kinds of source that are the same in both provisions. -/
def sharedSource (env : Env) (inState : String) (requestUri : String)
    (requestHeaders : HeaderMap) (t : Transformation) (w : World) : Except Fault Sourced :=
  let found (value : SourceValue) : Except Fault Sourced := .ok ⟨value, w.vars⟩
  match t.sourceType with
  | .RequestUri => found (.string requestUri)
  | .RequestHeader => found (headerValue t.source requestHeaders)
  | .RequestHeaders => found (.object requestHeaders.toJson "")
  | .Math => do
      let expression ← expand env w t.source t.sourcePatterns
      found (mathValue env.lib expression)
  | .Random => do found (← randomValue env t)
  | .RandomSet => do
      let token := t.sourceTokenized.getD (env.rand t.uid % t.sourceTokenized.length) ""
      found (.string (← expand env w token t.sourcePatterns))
  | .Timestamp => found (timestampValue t.source (env.clock t.uid))
  | .Strftime => do
      found (.string (← expand env w (env.localTime t.uid t.source) t.sourcePatterns))
  | .SVar => do
      let varname ← expand env w t.source t.sourcePatterns
      match w.vars.lookup varname with
      | some value => found (.string value)
      | none => found .missing
  | .SGVar => do found (← vaultValue env t w)
  | .Value => do found (.string (← expand env w t.source t.sourcePatterns))
  | .ServerEvent => do found (← serverEventValue env t w)
  | .ClientEvent => do found (← clientEventValue env t w)
  | .InState => found (.string inState)
  | .STxtFile => do
      let path ← expand env w t.source t.sourcePatterns
      found (.string (env.readFile w.files path true))
  | .SBinFile => do
      let path ← expand env w t.source t.sourcePatterns
      found (.string (env.readFile w.files path false))
  | .Command => do
      let command ← expand env w t.source t.sourcePatterns
      .ok (commandSourced env t w command)
  -- each provision has its own, or none
  | .RequestUriPath | .RequestUriParam | .RequestBody | .ResponseBody | .Eraser | .Recvseq
  | .Sendseq | .ResponseHeader | .ResponseHeaders | .ResponseStatusCode => found .missing

/-! ## The server -/

/-- What a server provision knows of the request while it transforms: the request
    itself, its own `inState` and response body, and whether the response body is
    built as JSON. -/
structure ServerRequest where
  requestUri : String
  requestUriPath : String
  queryParameters : TextMap String
  bodyDataPart : DataPart
  headers : HeaderMap
  recvSeq : Nat
  inState : String
  responseBody : Json
  usesJson : Bool

/-- The value a source of a server provision finds. -/
def AdminServerProvision.sourceValue (env : Env) (req : ServerRequest) (responseBodyJson : Json)
    (t : Transformation) (w : World) : Except Fault Sourced :=
  let found (value : SourceValue) : Except Fault Sourced := .ok ⟨value, w.vars⟩
  match t.sourceType with
  | .RequestUriPath => found (.string req.requestUriPath)
  | .RequestUriParam =>
      match req.queryParameters.lookup t.source with
      | some value => found (.string value)
      | none => found .missing
  | .RequestBody =>
      if req.bodyDataPart.isJson then do
        let path ← expand env w t.source t.sourcePatterns
        found (.object req.bodyDataPart.json path)
      else found (.string req.bodyDataPart.str)
  | .ResponseBody => do
      let path ← expand env w t.source t.sourcePatterns
      found (.object (if req.usesJson then responseBodyJson else req.responseBody) path)
  -- only the flag is raised: no setter is called
  | .Eraser => found .keep
  | .Recvseq => found (.unsigned req.recvSeq)
  | .ResponseHeaders | .Sendseq | .ResponseHeader | .ResponseStatusCode => found .missing
  | _ => sharedSource env req.inState req.requestUri req.headers t w

/-! ## The client -/

/-- `Http2Client::response`. -/
structure ReceivedResponse where
  body : String
  headers : HeaderMap
  statusCode : Int

/-- What a client provision knows while it transforms. -/
structure ClientRequest where
  sendSeq : Nat
  inState : String
  requestBodyAsString : String
  usesJson : Bool
  received : Option ReceivedResponse

/-- The value a source of a client provision finds. -/
def AdminClientProvision.sourceValue (env : Env) (req : ClientRequest) (requestUri : String)
    (requestHeaders : HeaderMap) (requestBodyJson : Json) (t : Transformation) (w : World) :
    Except Fault Sourced :=
  let found (value : SourceValue) : Except Fault Sourced := .ok ⟨value, w.vars⟩
  match t.sourceType with
  | .RequestBody => do
      let path ← expand env w t.source t.sourcePatterns
      if req.usesJson then found (.object requestBodyJson path)
      else found (.string req.requestBodyAsString)
  | .ResponseBody =>
      match req.received with
      | none => found .missing
      | some response => do
          let path ← expand env w t.source t.sourcePatterns
          match env.lib.parse response.body with
          | none => found (.string response.body)
          | some j => found (.object j path)
  | .ResponseHeader =>
      match req.received with
      | none => found .missing
      | some response => found (headerValue t.source response.headers)
  | .ResponseStatusCode =>
      match req.received with
      | none => found .missing
      | some response => found (.integer response.statusCode)
  | .ResponseHeaders =>
      match req.received with
      | none => found .missing
      | some response => found (.object response.headers.toJson "")
  | .Eraser => found (.string "")
  | .Sendseq => found (.unsigned req.sendSeq)
  | .RequestUriPath | .RequestUriParam | .Recvseq => found .missing
  | _ => sharedSource env req.inState requestUri requestHeaders t w

/-! ## What a source leaves of the holder -/

/-- **A SETTER HIDES THE PAST**: where a setter is called the holder shows the same
    afterwards whatever it showed before, and the source succeeds or not whatever it
    showed. -/
theorem assign_sameView {value : SourceValue} (hkeep : value ≠ .keep)
    (hmissing : value ≠ .missing) (v w : TypeConverter) :
    (value.assign v).1 = (value.assign w).1
      ∧ SameView (value.assign v).2 (value.assign w).2 := by
  cases value with
  | missing => exact (hmissing rfl).elim
  | keep => exact (hkeep rfl).elim
  | string s => exact ⟨rfl, sameView_setString v w s⟩
  | integer i => exact ⟨rfl, sameView_setInteger v w i⟩
  | unsigned u => exact ⟨rfl, sameView_setUnsigned v w u⟩
  | float f => exact ⟨rfl, sameView_setFloat v w f⟩
  | object j path => exact setObject_sameView v w j path

/-- All a setter keeps of the past is the kind of the JSON member. -/
theorem assign_sameKind {value : SourceValue} (hkeep : value ≠ .keep)
    (hmissing : value ≠ .missing) {v w : TypeConverter} (h : v.json.clear = w.json.clear) :
    value.assign v = value.assign w := by
  have hclear : v.clear = w.clear := by
    simp only [TypeConverter.clear, h]
  cases value with
  | missing => exact (hmissing rfl).elim
  | keep => exact (hkeep rfl).elim
  | string s => simp only [SourceValue.assign, TypeConverter.setString, hclear]
  | integer i => simp only [SourceValue.assign, TypeConverter.setInteger, hclear]
  | unsigned u => simp only [SourceValue.assign, TypeConverter.setUnsigned, hclear]
  | float f => simp only [SourceValue.assign, TypeConverter.setFloat, hclear]
  | object j path => simp only [SourceValue.assign, TypeConverter.setObject, hclear]

/-- The JSON member a found document leaves is that of the document. -/
theorem setObject_json {v : TypeConverter} {j : Json} {path : String}
    (hok : (v.setObject j path).1 = true) (w : TypeConverter) :
    (w.setObject j path).2.json = (v.setObject j path).2.json := by
  simp only [TypeConverter.setObject] at hok ⊢
  by_cases hpath : path.isEmpty = true
  · rw [if_pos hpath, if_pos hpath]
  · rw [if_neg hpath] at hok
    rw [if_neg hpath, if_neg hpath]
    cases hget : (Json.parsePointer path).bind (fun tokens => j.getAt tokens) with
    | none =>
        rw [hget] at hok
        cases hok
    | some k => rfl

/-! ## What each kind of source finds -/

/-- Nothing, or a document. -/
def SourceValue.Whole (value : SourceValue) : Prop :=
  value = .missing ∨ ∃ j path, value = .object j path

theorem eventValue_whole (event : Option MockEvent) (path : String) :
    (eventValue event path).Whole := by
  cases event with
  | none => exact .inl rfl
  | some e => exact .inr ⟨e.json, path, rfl⟩

theorem serverEventValue_whole (env : Env) (t : Transformation) (w : World) :
    Yields SourceValue.Whole (serverEventValue env t w) :=
  yields_bind fun _ _ => yields_bind fun _ _ => yields_bind fun _ _ => yields_bind fun _ _ =>
    yields_bind fun _ _ => yields_ok (eventValue_whole _ _)

theorem clientEventValue_whole (env : Env) (t : Transformation) (w : World) :
    Yields SourceValue.Whole (clientEventValue env t w) :=
  yields_bind fun _ _ => yields_bind fun _ _ => yields_bind fun _ _ => yields_bind fun _ _ =>
    yields_bind fun _ _ => yields_bind fun _ _ => yields_ok (eventValue_whole _ _)

theorem vaultValue_whole (env : Env) (t : Transformation) (w : World) :
    Yields SourceValue.Whole (vaultValue env t w) := by
  refine yields_bind fun varname _ => ?_
  cases w.vault.lookup varname with
  | none => exact yields_ok (.inl rfl)
  | some value => exact yields_bind fun path _ => yields_ok (.inr ⟨value, path, rfl⟩)

/-- The units `Timestamp` knows. -/
def knownUnit (unit : String) : Bool :=
  unit == "s" || unit == "ms" || unit == "us" || unit == "ns"

theorem timestampValue_ne_keep {unit : String} (h : knownUnit unit = true) (ns : Int) :
    timestampValue unit ns ≠ .keep := by
  simp only [timestampValue]
  split
  · exact (nomatch ·)
  · split
    · exact (nomatch ·)
    · split
      · exact (nomatch ·)
      · split
        · exact (nomatch ·)
        · simp_all [knownUnit]

/-- The sources of a server that find a document, or nothing. -/
def findsDocument (req : ServerRequest) (t : Transformation) : Bool :=
  match t.sourceType with
  | .RequestBody => req.bodyDataPart.isJson
  | .ResponseBody | .RequestHeaders | .SGVar | .ServerEvent | .ClientEvent
  | .ResponseHeaders | .Sendseq | .ResponseHeader | .ResponseStatusCode => true
  | _ => false

/-- What is known of the value a server source finds from its kind alone. -/
structure SourceSpec (req : ServerRequest) (t : Transformation) (w : World) (r : Sourced) :
    Prop where
  vars : t.sourceType ≠ .Command → r.vars = w.vars
  keep : r.value = .keep →
    t.sourceType = .Eraser ∨ (t.sourceType = .Timestamp ∧ knownUnit t.source = false)
  whole : findsDocument req t = true → r.value.Whole

/-- A value that is no document leaves the empty value of the kind that was there
    as the JSON member. -/
theorem assign_json {value : SourceValue} {v : TypeConverter} (hkeep : value ≠ .keep)
    (hok : (value.assign v).1 = true) (hwhole : ¬ value.Whole) :
    (value.assign v).2.json = v.json.clear := by
  cases value with
  | missing => exact nomatch hok
  | keep => exact (hkeep rfl).elim
  | string s => rfl
  | integer i => rfl
  | unsigned u => rfl
  | float f => rfl
  | object j path => exact (hwhole (.inr ⟨j, path, rfl⟩)).elim

/-- **SOURCE BY SOURCE**: only a command changes variables, only an eraser or an
    unknown unit of time calls no setter, and documents come from bodies, headers,
    the vault and events. -/
theorem sourceValue_spec (env : Env) (req : ServerRequest) (responseBodyJson : Json)
    (t : Transformation) (w : World) :
    Yields (SourceSpec req t w)
      (AdminServerProvision.sourceValue env req responseBodyJson t w) := by
  -- a plain value, or nothing
  have hplain : findsDocument req t = false → ∀ value : SourceValue, value ≠ .keep →
      SourceSpec req t w ⟨value, w.vars⟩ :=
    fun hd value hk => ⟨fun _ => rfl, fun h => (hk h).elim, fun h => by
      rw [hd] at h
      exact nomatch h⟩
  have hwhole : ∀ value : SourceValue, value.Whole → SourceSpec req t w ⟨value, w.vars⟩ := by
    intro value hv
    refine ⟨fun _ => rfl, fun hk => ?_, fun _ => hv⟩
    rcases hv with rfl | ⟨j, path, rfl⟩
    · exact nomatch hk
    · exact nomatch hk
  have hnot : findsDocument req t = false → ∀ (x : Except Fault String)
      (f : String → SourceValue), (∀ a, f a ≠ .keep) →
      Yields (SourceSpec req t w) (x >>= fun a => .ok ⟨f a, w.vars⟩) :=
    fun hd x f hf => yields_bind fun a _ => yields_ok (hplain hd (f a) (hf a))
  simp only [AdminServerProvision.sourceValue, sharedSource]
  cases ht : t.sourceType with
  | RequestUri | RequestUriPath | InState | Recvseq =>
      exact yields_ok (hplain (by rw [findsDocument, ht]) _ (nomatch ·))
  | RequestUriParam =>
      dsimp only
      split
      · exact yields_ok (hplain (by rw [findsDocument, ht]) _ (nomatch ·))
      · exact yields_ok (hplain (by rw [findsDocument, ht]) _ (nomatch ·))
  | RequestBody =>
      dsimp only
      split
      · exact yields_bind fun path _ => yields_ok (hwhole _ (.inr ⟨_, path, rfl⟩))
      · rename_i hj
        refine yields_ok (hplain ?_ _ (nomatch ·))
        rw [findsDocument, ht]
        exact Bool.not_eq_true _ ▸ hj
  | ResponseBody => exact yields_bind fun path _ => yields_ok (hwhole _ (.inr ⟨_, path, rfl⟩))
  | RequestHeader =>
      refine yields_ok (hplain (by rw [findsDocument, ht]) _ ?_)
      simp only [headerValue]
      split
      · exact (nomatch ·)
      · exact (nomatch ·)
  | RequestHeaders => exact yields_ok (hwhole _ (.inr ⟨_, _, rfl⟩))
  | ResponseHeaders | Sendseq | ResponseHeader | ResponseStatusCode =>
      exact yields_ok (hwhole _ (.inl rfl))
  | Eraser =>
      exact yields_ok ⟨fun _ => rfl, fun _ => .inl ht,
        fun h => by rw [findsDocument, ht] at h; exact nomatch h⟩
  | Math =>
      refine hnot (by rw [findsDocument, ht]) _ _ (fun e => ?_)
      simp only [mathValue]
      split
      · exact (nomatch ·)
      · exact (nomatch ·)
  | Random =>
      refine yields_bind fun value hv => ?_
      refine yields_ok (hplain (by rw [findsDocument, ht]) _ ?_)
      obtain ⟨i, rfl⟩ := randomValue_integer hv
      exact (nomatch ·)
  | RandomSet | Strftime | Value | STxtFile | SBinFile =>
      exact hnot (by rw [findsDocument, ht]) _ _ (fun _ => (nomatch ·))
  | Timestamp =>
      refine yields_ok ⟨fun _ => rfl, fun hk => .inr ⟨ht, ?_⟩,
        fun h => by rw [findsDocument, ht] at h; exact nomatch h⟩
      cases hu : knownUnit t.source with
      | false => rfl
      | true => exact (timestampValue_ne_keep hu _ hk).elim
  | SVar =>
      refine yields_bind fun varname _ => ?_
      split
      · exact yields_ok (hplain (by rw [findsDocument, ht]) _ (nomatch ·))
      · exact yields_ok (hplain (by rw [findsDocument, ht]) _ (nomatch ·))
  | SGVar =>
      exact yields_bind fun value hv => yields_ok (hwhole value (vaultValue_whole env t w value hv))
  | ServerEvent =>
      exact yields_bind fun value hv =>
        yields_ok (hwhole value (serverEventValue_whole env t w value hv))
  | ClientEvent =>
      exact yields_bind fun value hv =>
        yields_ok (hwhole value (clientEventValue_whole env t w value hv))
  | Command =>
      refine yields_bind fun command _ => yields_ok ?_
      refine ⟨fun h => (h ht).elim, fun hk => ?_,
        fun h => by rw [findsDocument, ht] at h; exact nomatch h⟩
      simp only [commandSourced] at hk
      split at hk
      · exact nomatch hk
      · exact nomatch hk

end H2Source
