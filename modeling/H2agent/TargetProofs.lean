import H2agent.TransformationProofs

/-! # The targets of server and client provisions

    `processTargets` of `AdminServerProvision` and `AdminClientProvision`.  The
    targets on a message body (`bodyTarget`) and on the shared world
    (`worldTarget`) are the same in both.  A JSON exception is caught inside and
    counts as success, so every target answers with a flag and the state left;
    only the client replaces the variables of the target text outside the
    protected block.

    The value goes in as the holder and is read through its getters alone:
    holders that show the same have the same effect. -/

namespace H2Target

open CppText H2Convert H2Key H2Store H2Transformation JsonValue

/-- What of the source and the filter a target looks at. -/
structure Incoming where
  holder : TypeConverter
  eraser : Bool
  groups : List String

/-! ## Targets on a body -/

/-- The kinds of target on a body. -/
inductive BodyTarget where
  | string | hexString | json_String | json_Integer | json_Unsigned | json_Float
  | json_Boolean | json_Object | json_JsonString
  deriving DecidableEq

/-- A body being built: as JSON and as text. -/
structure Body where
  json : Json
  text : String

/-- `body[pointer] = value`; an exception leaves what was created on the way. -/
def Body.setAt (b : Body) (target : String) (value : Json) : Body :=
  match Json.parsePointer target with
  | none => b
  | some tokens => { b with json := (b.json.setAt tokens value).1 }

/-- A document merged at the root, or assigned to a node. -/
def Body.putDocument (b : Body) (target : String) (tokens : List String) (j : Json) : Body :=
  if target.isEmpty then { b with json := b.json.mergePatch j }
  else { b with json := (b.json.setAt tokens j).1 }

/-- The parts of a path before and after its last slash. -/
def cutLastSlash (target : String) : String × String :=
  let back := target.toList.reverse
  match back.dropWhile (· ≠ '/') with
  -- no slash: both parts are the whole text
  | [] => (target, target)
  | _ :: parent =>
      (String.ofList parent.reverse, String.ofList (back.takeWhile (· ≠ '/')).reverse)

/-- The eraser on a body node: the flag is `false` unless an exception is caught. -/
def Body.erase (b : Body) (target : String) : Bool × Body :=
  if target.isEmpty then
    let (j, ok) := b.json.eraseAll
    (!ok, { b with json := j })
  else
    let (parentPath, childKey) := cutLastSlash target
    match Json.parsePointer parentPath with
    | none => (true, b)
    | some tokens =>
        let (j, ok) := b.json.modifyAt (Json.eraseKey childKey) tokens
        (!ok, { b with json := j })

/-- The JSON value of a holder, by its native type. -/
def nativeJson (v : TypeConverter) : Json :=
  match v.native with
  | .object => v.json
  | .string s => .str s
  | .integer i => .int i
  | .unsigned u => .uint u
  | .float f => .float f
  | .boolean b => .bool b

/-- The value of the native type into a body node; only an object is merged. -/
def Body.putNative (b : Body) (target : String) (v : TypeConverter) : Body :=
  match Json.parsePointer target with
  | none => b
  | some tokens =>
      match v.native with
      | .object => b.putDocument target tokens v.json
      | _ => { b with json := (b.json.setAt tokens (nativeJson v)).1 }

/-- A target on a body. -/
def bodyTarget (lib : Lib) (kind : BodyTarget) (target : String) (inc : Incoming) (b : Body) :
    Bool × Body :=
  let v := inc.holder
  match kind with
  | .string =>
      match v.getString lib with
      | .error _ => (true, b)
      | .ok s => (true, { b with text := s })
  | .hexString =>
      match v.getString lib with
      | .error _ => (true, b)
      | .ok s =>
          let (ok, text) := fromHexString s b.text
          (ok, { b with text := text })
  | .json_String =>
      match v.getString lib with
      | .error _ => (true, b)
      | .ok s => (true, b.setAt target (.str s))
  | .json_Integer =>
      match v.getInteger lib with
      | none => (false, b)
      | some i => (true, b.setAt target (.int i))
  | .json_Unsigned =>
      match v.getUnsigned lib with
      | none => (false, b)
      | some u => (true, b.setAt target (.uint u))
  | .json_Float =>
      match v.getFloat lib with
      | none => (false, b)
      | some f => (true, b.setAt target (.float f))
  | .json_Boolean =>
      match v.getBoolean with
      | none => (false, b)
      | some x => (true, b.setAt target (.bool x))
  | .json_Object =>
      if inc.eraser then b.erase target else (true, b.putNative target v)
  | .json_JsonString =>
      match Json.parsePointer target with
      | none => (true, b)
      | some tokens =>
          match v.getString lib with
          | .error _ => (true, b)
          | .ok s =>
              match lib.parse s with
              | none => (false, b)
              | some j => (true, b.putDocument target tokens j)

/-! ## Targets on the world -/

/-- The matches of a regex from index `i` on, as numbered variables. -/
def storeGroups (target : String) : Nat → List String → TextMap String → TextMap String
  | _, [], vars => vars
  | i, g :: gs, vars =>
      storeGroups target (i + 1) gs (vars.insert (target ++ "." ++ toString i) g)

/-- The matches of a regex as a JSON object. -/
def groupsObject : Nat → List String → List (String × Json) → List (String × Json)
  | _, [], fields => fields
  | i, g :: gs, fields => groupsObject (i + 1) gs (Json.setField (toString i) (.str g) fields)

/-- A value into a vault entry, or into a node of it; `false` when it throws. -/
def storeEntry (vault : Vault) (name path : String) (value : Json) : Vault × Bool :=
  if path.isEmpty then (Vault.load vault name value, true)
  else Vault.loadAtPath vault name path value

/-- Whether the item has a filter of a kind. -/
def filteredBy (t : Transformation) (kind : FilterType) : Bool :=
  t.hasFilter && t.filterType == kind

/-- `TVar`. -/
def varTarget (lib : Lib) (t : Transformation) (target : String) (inc : Incoming)
    (w : World) : Bool × World :=
  if filteredBy t .RegexCapture then
    match inc.groups with
    | [] => (true, w)
    | whole :: groups =>
        (true, { w with vars := storeGroups target 1 groups (w.vars.insert target whole) })
  else
    match inc.holder.getString lib with
    | .error _ => (true, w)
    | .ok s =>
        if filteredBy t .RegexKey then
          (true, { w with vars := storeGroups target 0 inc.groups (w.vars.insert target s) })
        else if (filteredBy t .JsonConstraint || filteredBy t .SchemaId) && s != "1" then
          -- the text is a fail report
          (true, { w with vars := (w.vars.insert (target ++ ".fail") s).insert target "" })
        else (true, { w with vars := w.vars.insert target s })

/-- The value for a vault entry: an object, or the text as a string. -/
def entryValue (lib : Lib) (v : TypeConverter) : Except Fault Json :=
  match v.checkedObject with
  | some j => .ok j
  | none => (v.getString lib).map Json.str

/-- `TGVar`. -/
def vaultTarget (lib : Lib) (t : Transformation) (target path : String) (inc : Incoming)
    (w : World) : Bool × World :=
  if inc.eraser then (true, { w with vault := w.vault.erase target })
  else if filteredBy t .RegexCapture then
    match inc.groups with
    | [] => (true, w)
    | groups =>
        let (vault, _) := storeEntry w.vault target path (.obj (groupsObject 0 groups []))
        (true, { w with vault := vault })
  else
    match entryValue lib inc.holder with
    | .error _ => (true, w)
    | .ok value =>
        let (vault, stored) := storeEntry w.vault target path value
        if filteredBy t .RegexKey && stored then
          (true, { w with vault := vault, vars := storeGroups target 0 inc.groups w.vars })
        else (true, { w with vault := vault })

/-- `TTxtFile` and `TBinFile`: a path with variables is a short term one. -/
def fileTarget (env : Env) (t : Transformation) (target : String) (inc : Incoming)
    (text : Bool) (w : World) : Bool × World :=
  match inc.holder.getString env.lib with
  | .error _ => (true, w)
  | .ok s =>
      if inc.eraser then (true, { w with files := w.files ++ [.empty target] })
      else
        let delay := if t.targetPatterns.isEmpty then env.longTermFilesCloseDelayUsecs
          else env.shortTermFilesCloseDelayUsecs
        (true, { w with files := w.files ++ [.write target s text delay] })

/-- The path of a socket and the text of its delay, which is the whole target
    when it has no bar. -/
def cutLastBar (target : String) : String × String :=
  let back := target.toList.reverse
  match back.dropWhile (· ≠ '|') with
  | [] => (target, target)
  | _ :: path => (String.ofList path.reverse, String.ofList (back.takeWhile (· ≠ '|')).reverse)

/-- `UDPSocket`; the delay is an `unsigned int`. -/
def socketTarget (lib : Lib) (target : String) (inc : Incoming) (w : World) : Bool × World :=
  match inc.holder.getString lib with
  | .error _ => (true, w)
  | .ok s =>
      let (path, delayText) := cutLastBar target
      let delayMs := toU64 (atoi delayText) % 4294967296
      (true, { w with datagrams := w.datagrams ++ [⟨path, s, wrapU32 (delayMs * 1000)⟩] })

/-- `Break`. -/
def breakTarget (lib : Lib) (inc : Incoming) (w : World) : Bool × World :=
  match inc.holder.getString lib with
  | .error _ => (true, w)
  | .ok s => if s.isEmpty then (false, w) else (false, { w with breakCondition := true })

/-- The targets on the world, which are the same in both provisions. -/
def worldTarget (env : Env) (t : Transformation) (target : String) (inc : Incoming)
    (w : World) : Bool × World :=
  -- the path into a vault entry is expanded first, inside the protected block
  let withPath (next : String → Bool × World) : Bool × World :=
    match expandNonEmpty env w t.target2 t.target2Patterns with
    | .error _ => (true, w)
    | .ok path => next path
  match t.targetType with
  | .TVar => varTarget env.lib t target inc w
  | .TGVar => withPath fun path => vaultTarget env.lib t target path inc w
  | .TGVarJson_Object => withPath fun path =>
      match inc.holder.checkedObject with
      | none => (false, w)
      | some j => (true, { w with vault := (storeEntry w.vault target path j).1 })
  | .TGVarJson_JsonString => withPath fun path =>
      match inc.holder.getString env.lib with
      | .error _ => (true, w)
      | .ok s =>
          match env.lib.parse s with
          | none => (false, w)
          | some j => (true, { w with vault := (storeEntry w.vault target path j).1 })
  | .TTxtFile => fileTarget env t target inc true w
  | .TBinFile => fileTarget env t target inc false w
  | .UDPSocket => socketTarget env.lib target inc w
  | .Break => breakTarget env.lib inc w
  -- kinds of the other provision
  | _ => (true, w)

/-! ## The server -/

/-- What a server provision builds and changes while it transforms. -/
structure ServerState where
  world : World
  responseStatusCode : Nat
  responseBody : Body
  responseHeaders : HeaderMap
  responseDelayMs : Nat
  outState : String
  outStateMethod : String
  outStateUri : String
  clientProvisionTriggers : List (String × String)

/-- The targets on the response body. -/
def responseBodyTarget : TargetType → Option BodyTarget
  | .ResponseBodyString => some .string
  | .ResponseBodyHexString => some .hexString
  | .ResponseBodyJson_String => some .json_String
  | .ResponseBodyJson_Integer => some .json_Integer
  | .ResponseBodyJson_Unsigned => some .json_Unsigned
  | .ResponseBodyJson_Float => some .json_Float
  | .ResponseBodyJson_Boolean => some .json_Boolean
  | .ResponseBodyJson_Object => some .json_Object
  | .ResponseBodyJson_JsonString => some .json_JsonString
  | _ => none

/-- A token of the target with its variables replaced. -/
def targetToken (env : Env) (w : World) (t : Transformation) (i : Nat) : Except Fault String :=
  expand env w (t.targetTokenized.getD i "") t.targetPatterns

/-- `ServerEventToPurge`: method, uri, number and receive sequence. -/
def purgeServerEvent (env : Env) (t : Transformation) (w : World) :
    Except Fault (Bool × World) := do
  let eventMethod ← targetToken env w t 0
  let eventUri ← targetToken env w t 1
  let eventNumber ← targetToken env w t 2
  let eventRecvseq ← targetToken env w t 3
  let dkey := DataKey.ofServer eventMethod eventUri
  if !eventRecvseq.isEmpty then
    match stoull eventRecvseq with
    | none => return (true, w)
    | some seq => return (true, { w with
        serverEvents := (w.serverEvents.removeEventByRecvSeq dkey seq).2 })
  else
    let (success, _, m) := w.serverEvents.map.clear ⟨dkey, eventNumber⟩
    return (success, { w with serverEvents := { w.serverEvents with map := m } })

/-- `ClientProvision_t`: the triggers to add.  The value is a gate, closed by the
    empty text. -/
def clientTriggers (env : Env) (t : Transformation) (target : String) (inc : Incoming)
    (w : World) : Except Fault (List (String × String)) :=
  match (if inc.eraser then .ok "" else inc.holder.getString env.lib) with
  | .error e => .error e
  | .ok gate =>
      if gate.isEmpty then .ok []
      else
        (expand env w t.target2 t.target2Patterns).map (fun inState => [(target, inState)])

/-- An exception caught: success, and the state as it was. -/
def caught {σ : Type} (s : σ) : Except Fault (Bool × σ) → Bool × σ
  | .error _ => (true, s)
  | .ok r => r

/-- The targets of the server once its two texts are expanded. -/
def serverTarget (env : Env) (t : Transformation) (target target2 : String) (inc : Incoming)
    (s : ServerState) : Bool × ServerState :=
  match responseBodyTarget t.targetType with
  | some kind =>
      let (flag, b) := bodyTarget env.lib kind target inc s.responseBody
      (flag, { s with responseBody := b })
  | none =>
      match t.targetType with
      | .ResponseHeader_t =>
          match inc.holder.getString env.lib with
          | .error _ => (true, s)
          | .ok value =>
              (true, { s with responseHeaders := HeaderMap.emplace target value s.responseHeaders })
      | .ResponseStatusCode_t =>
          match inc.holder.getUnsigned env.lib with
          | none => (false, s)
          | some u => (true, { s with responseStatusCode := wrapU32 u })
      | .ResponseDelayMs =>
          match inc.holder.getUnsigned env.lib with
          | none => (false, s)
          | some u => (true, { s with responseDelayMs := wrapU32 u })
      | .OutState =>
          match inc.holder.getString env.lib with
          | .error _ => (true, s)
          | .ok value =>
              (true, { s with
                outState := value, outStateMethod := target, outStateUri := target2 })
      | .ServerEventToPurge =>
          if !inc.eraser then (false, s)
          else
            let (flag, w) := caught s.world (purgeServerEvent env t s.world)
            (flag, { s with world := w })
      | .ClientProvision_t =>
          match clientTriggers env t target inc s.world with
          | .error _ => (true, s)
          | .ok triggers =>
              (true, { s with
                clientProvisionTriggers := s.clientProvisionTriggers ++ triggers })
      | _ =>
          let (flag, w) := worldTarget env t target inc s.world
          (flag, { s with world := w })

/-- `AdminServerProvision::processTargets`. -/
def AdminServerProvision.processTargets (env : Env) (t : Transformation) (inc : Incoming)
    (s : ServerState) : Bool × ServerState :=
  match expand env s.world t.target t.targetPatterns with
  | .error _ => (true, s)
  | .ok target =>
      match expandNonEmpty env s.world t.target2 t.target2Patterns with
      | .error _ => (true, s)
      | .ok target2 => serverTarget env t target target2 inc s

/-! ## The client -/

/-- What a client provision builds and changes while it transforms. -/
structure ClientState where
  world : World
  requestMethod : String
  requestUri : String
  requestBody : Body
  requestHeaders : HeaderMap
  requestDelayMs : Nat
  requestTimeoutMs : Nat
  outState : String

/-- The targets on the request body. -/
def requestBodyTarget : TargetType → Option BodyTarget
  | .RequestBodyString => some .string
  | .RequestBodyHexString => some .hexString
  | .RequestBodyJson_String => some .json_String
  | .RequestBodyJson_Integer => some .json_Integer
  | .RequestBodyJson_Unsigned => some .json_Unsigned
  | .RequestBodyJson_Float => some .json_Float
  | .RequestBodyJson_Boolean => some .json_Boolean
  | .RequestBodyJson_Object => some .json_Object
  | .RequestBodyJson_JsonString => some .json_JsonString
  | _ => none

/-- `ClientEventToPurge`: endpoint, method, uri, number and send sequence. -/
def purgeClientEvent (env : Env) (t : Transformation) (w : World) :
    Except Fault (Bool × World) := do
  let eventEndpoint ← targetToken env w t 0
  let eventMethod ← targetToken env w t 1
  let eventUri ← targetToken env w t 2
  let eventNumber ← targetToken env w t 3
  let eventSendseq ← targetToken env w t 4
  let dkey := DataKey.ofClient eventEndpoint eventMethod eventUri
  if !eventSendseq.isEmpty then
    match stoull eventSendseq with
    | none => return (true, w)
    | some seq => return (true, { w with
        clientEvents := (MockClientData.removeEventBySendSeq w.clientEvents dkey seq).2 })
  else
    let (_, _, m) := MockData.clear w.clientEvents ⟨dkey, eventNumber⟩
    return (true, { w with clientEvents := m })

/-- The targets of the client once its text is expanded. -/
def clientTarget (env : Env) (t : Transformation) (target : String) (inc : Incoming)
    (s : ClientState) : Bool × ClientState :=
  match requestBodyTarget t.targetType with
  | some kind =>
      let (flag, b) := bodyTarget env.lib kind target inc s.requestBody
      (flag, { s with requestBody := b })
  | none =>
      -- the targets that take the text of the value as it is
      let withText (next : String → ClientState) : Bool × ClientState :=
        match inc.holder.getString env.lib with
        | .error _ => (true, s)
        | .ok value => (true, next value)
      match t.targetType with
      | .RequestHeader_t => withText fun value =>
          { s with requestHeaders := HeaderMap.emplace target value s.requestHeaders }
      | .RequestDelayMs =>
          match inc.holder.getUnsigned env.lib with
          | none => (false, s)
          | some u => (true, { s with requestDelayMs := wrapU32 u })
      | .RequestTimeoutMs =>
          match inc.holder.getUnsigned env.lib with
          | none => (false, s)
          | some u => (true, { s with requestTimeoutMs := wrapU32 u })
      | .RequestUri_t => withText fun value => { s with requestUri := value }
      | .RequestMethod_t => withText fun value => { s with requestMethod := value }
      | .OutState => withText fun value => { s with outState := value }
      | .ClientEventToPurge =>
          if !inc.eraser then (false, s)
          else
            let (flag, w) := caught s.world (purgeClientEvent env t s.world)
            (flag, { s with world := w })
      | _ =>
          let (flag, w) := worldTarget env t target inc s.world
          (flag, { s with world := w })

/-- `AdminClientProvision::processTargets`. -/
def AdminClientProvision.processTargets (env : Env) (t : Transformation) (inc : Incoming)
    (s : ClientState) : Except Fault (Bool × ClientState) :=
  match expand env s.world t.target t.targetPatterns with
  | .error e => .error e
  | .ok target => .ok (clientTarget env t target inc s)

/-! ## What raises the break condition -/

section Break

variable (env : Env) (t : Transformation)

/-- A break target with a text that is not empty. -/
def breaksOn (t : Transformation) (text : Except Fault String) : Bool :=
  t.targetType == .Break
    && match text with
      | .ok s => !s.isEmpty
      | .error _ => false

/-- Whether the last stage of a server item raises the condition. -/
def serverBreaks (v : TypeConverter) (w : World) : Bool :=
  (expand env w t.target t.targetPatterns).isOk
    && (expandNonEmpty env w t.target2 t.target2Patterns).isOk
    && breaksOn t (v.getString env.lib)

/-- Whether the last stage of a client item raises the condition. -/
def clientBreaks (v : TypeConverter) (w : World) : Bool :=
  (expand env w t.target t.targetPatterns).isOk && breaksOn t (v.getString env.lib)

theorem breaksOn_false {t : Transformation} (ht : t.targetType ≠ .Break)
    (text : Except Fault String) : breaksOn t text = false := by
  simp only [breaksOn, beq_eq_false_iff_ne.mpr ht, Bool.false_and]

section World

variable (target : String) (inc : Incoming) (w : World)

/-- What a target on the world can change: for each kind one part of it, and variables for the
    matches that go into the vault. -/
inductive Touched (env : Env) (t : Transformation) (target : String) (inc : Incoming) (w : World) :
    World → Prop where
  | nothing : Touched env t target inc w w
  | vars (ht : t.targetType = .TVar) :
      Touched env t target inc w { w with vars := (varTarget env.lib t target inc w).2.vars }
  | vault (ht : t.targetType ∈ [.TGVar, .TGVarJson_Object, .TGVarJson_JsonString]) (vault : Vault) :
      Touched env t target inc w { w with vault := vault }
  | groups (ht : t.targetType = .TGVar) (vault : Vault) :
      Touched env t target inc w
        { w with vault := vault, vars := storeGroups target 0 inc.groups w.vars }
  | files (ht : t.targetType ∈ [.TTxtFile, .TBinFile]) (files : List FileOp) :
      Touched env t target inc w { w with files := files }
  | datagrams (ht : t.targetType = .UDPSocket) (datagrams : List Datagram) :
      Touched env t target inc w { w with datagrams := datagrams }
  | condition (ht : t.targetType = .Break) :
      Touched env t target inc w { w with breakCondition := true }

theorem varTarget_touched (ht : t.targetType = .TVar) :
    Touched env t target inc w (varTarget env.lib t target inc w).2 := by
  have hvars : (varTarget env.lib t target inc w).2
      = { w with vars := (varTarget env.lib t target inc w).2.vars } := by
    simp only [varTarget]
    split
    · split
      · rfl
      · rfl
    · split
      · rfl
      · split
        · rfl
        · split
          · rfl
          · rfl
  rw [hvars]
  exact .vars ht

theorem vaultTarget_touched (ht : t.targetType = .TGVar) (path : String) :
    Touched env t target inc w (vaultTarget env.lib t target path inc w).2 := by
  have hvault : t.targetType ∈ [.TGVar, .TGVarJson_Object, .TGVarJson_JsonString] := by
    rw [ht]
    exact List.mem_cons_self
  simp only [vaultTarget]
  split
  · exact .vault hvault _
  · split
    · split
      · exact .nothing
      · exact .vault hvault _
    · split
      · exact .nothing
      · split
        · exact .groups ht _
        · exact .vault hvault _

theorem fileTarget_touched (ht : t.targetType ∈ [.TTxtFile, .TBinFile]) (text : Bool) :
    Touched env t target inc w (fileTarget env t target inc text w).2 := by
  simp only [fileTarget]
  split
  · exact .nothing
  · split
    · exact .files ht _
    · exact .files ht _

theorem socketTarget_touched (ht : t.targetType = .UDPSocket) :
    Touched env t target inc w (socketTarget env.lib target inc w).2 := by
  simp only [socketTarget]
  split
  · exact .nothing
  · exact .datagrams ht _

theorem breakTarget_touched (ht : t.targetType = .Break) :
    Touched env t target inc w (breakTarget env.lib inc w).2 := by
  simp only [breakTarget]
  split
  · exact .nothing
  · split
    · exact .nothing
    · exact .condition ht

/-- **WHAT A TARGET ON THE WORLD CAN DO.** -/
theorem worldTarget_touched :
    Touched env t target inc w (worldTarget env t target inc w).2 := by
  simp only [worldTarget]
  split
  · next ht => exact varTarget_touched env t target inc w ht
  · next ht =>
    split
    · exact .nothing
    · exact vaultTarget_touched env t target inc w ht _
  · next ht =>
    split
    · exact .nothing
    · split
      · exact .nothing
      · exact .vault (by simp [ht]) _
  · next ht =>
    split
    · exact .nothing
    · split
      · exact .nothing
      · split
        · exact .nothing
        · exact .vault (by simp [ht]) _
  · next ht => exact fileTarget_touched env t target inc w (by simp [ht]) true
  · next ht => exact fileTarget_touched env t target inc w (by simp [ht]) false
  · next ht => exact socketTarget_touched env t target inc w ht
  · next ht => exact breakTarget_touched env t target inc w ht
  · exact .nothing

variable {env t target inc w} in
/-- No target on the world touches the stored events. -/
theorem Touched.stores {w' : World} (h : Touched env t target inc w w') :
    w'.serverEvents = w.serverEvents ∧ w'.clientEvents = w.clientEvents := by
  cases h <;> exact ⟨rfl, rfl⟩

variable {env t target inc w} in
theorem Touched.breakCondition {w' : World} (h : Touched env t target inc w w')
    (ht : t.targetType ≠ .Break) : w'.breakCondition = w.breakCondition := by
  cases h with
  | condition hb => exact absurd hb ht
  | nothing | vars | vault | groups | files | datagrams => rfl

theorem worldTarget_stores :
    (worldTarget env t target inc w).2.serverEvents = w.serverEvents
      ∧ (worldTarget env t target inc w).2.clientEvents = w.clientEvents :=
  (worldTarget_touched env t target inc w).stores

theorem breakTarget_break (ht : t.targetType = .Break) :
    (breakTarget env.lib inc w).2.breakCondition
      = (w.breakCondition || breaksOn t (inc.holder.getString env.lib)) := by
  simp only [breakTarget, breaksOn, ht]
  cases inc.holder.getString env.lib with
  | error e => simp
  | ok s => cases hs : s.isEmpty <;> simp [hs]

/-- Of the targets on the world only the break touches the condition. -/
theorem worldTarget_break :
    (worldTarget env t target inc w).2.breakCondition
      = (w.breakCondition || breaksOn t (inc.holder.getString env.lib)) := by
  by_cases ht : t.targetType = .Break
  · have hw : worldTarget env t target inc w = breakTarget env.lib inc w := by
      simp only [worldTarget, ht]
    rw [hw]
    exact breakTarget_break env t inc w ht
  · rw [breaksOn_false ht, Bool.or_false]
    exact (worldTarget_touched env t target inc w).breakCondition ht

end World

/-- What a protected block keeps when it ends well, it keeps when it throws. -/
theorem caught_keeps {σ α : Type} {f : σ → α} {s : σ} {x : Except Fault (Bool × σ)}
    (h : Yields (fun r => f r.2 = f s) x) : f (caught s x).2 = f s := by
  cases x with
  | error e => rfl
  | ok r => exact h r rfl

/-- A purge touches nothing but the stored events of the server. -/
theorem purgeServerEvent_keeps {α : Type} {f : World → α}
    (hf : ∀ w events, f { w with serverEvents := events } = f w) (w : World) :
    Yields (fun r => f r.2 = f w) (purgeServerEvent env t w) := by
  refine yields_bind fun _ _ => yields_bind fun _ _ => yields_bind fun _ _ =>
    yields_bind fun recvseq _ => ?_
  split
  · split
    · exact yields_ok rfl
    · exact yields_ok (hf _ _)
  · exact yields_ok (hf _ _)

/-- A purge touches nothing but the stored events of the client. -/
theorem purgeClientEvent_keeps {α : Type} {f : World → α}
    (hf : ∀ w events, f { w with clientEvents := events } = f w) (w : World) :
    Yields (fun r => f r.2 = f w) (purgeClientEvent env t w) := by
  refine yields_bind fun _ _ => yields_bind fun _ _ => yields_bind fun _ _ =>
    yields_bind fun _ _ => yields_bind fun sendseq _ => ?_
  split
  · split
    · exact yields_ok rfl
    · exact yields_ok (hf _ _)
  · exact yields_ok (hf _ _)

/-- The world after a target of a server: left alone, purged of events, or changed by a target
    on the world. -/
theorem serverTarget_world (target target2 : String) (inc : Incoming) (s : ServerState) :
    (serverTarget env t target target2 inc s).2.world = s.world
      ∨ (t.targetType = .ServerEventToPurge
        ∧ (serverTarget env t target target2 inc s).2.world
          = (caught s.world (purgeServerEvent env t s.world)).2)
      ∨ (serverTarget env t target target2 inc s).2.world
        = (worldTarget env t target inc s.world).2 := by
  simp only [serverTarget]
  split
  · exact .inl rfl
  · split
    · split <;> exact .inl rfl
    · split <;> exact .inl rfl
    · split <;> exact .inl rfl
    · split <;> exact .inl rfl
    · next hpurge =>
      split
      · exact .inl rfl
      · exact .inr (.inl ⟨hpurge, rfl⟩)
    · split <;> exact .inl rfl
    · exact .inr (.inr rfl)

/-- The world after a target of a client. -/
theorem clientTarget_world (target : String) (inc : Incoming) (s : ClientState) :
    (clientTarget env t target inc s).2.world = s.world
      ∨ (t.targetType = .ClientEventToPurge
        ∧ (clientTarget env t target inc s).2.world
          = (caught s.world (purgeClientEvent env t s.world)).2)
      ∨ (clientTarget env t target inc s).2.world
        = (worldTarget env t target inc s.world).2 := by
  simp only [clientTarget]
  split
  · exact .inl rfl
  · split
    · split <;> exact .inl rfl
    · split <;> exact .inl rfl
    · split <;> exact .inl rfl
    · split <;> exact .inl rfl
    · split <;> exact .inl rfl
    · split <;> exact .inl rfl
    · next hpurge =>
      split
      · exact .inl rfl
      · exact .inr (.inl ⟨hpurge, rfl⟩)
    · exact .inr (.inr rfl)

/-- Of the targets of a server only the break touches the condition. -/
theorem serverTarget_break (target target2 : String) (inc : Incoming) (s : ServerState) :
    (serverTarget env t target target2 inc s).2.world.breakCondition
      = (s.world.breakCondition || breaksOn t (inc.holder.getString env.lib)) := by
  by_cases ht : t.targetType = .Break
  · simp only [serverTarget, ht, responseBodyTarget]
    exact worldTarget_break env t target inc s.world
  · rw [breaksOn_false ht, Bool.or_false]
    rcases serverTarget_world env t target target2 inc s with hworld | ⟨-, hworld⟩ | hworld
    · rw [hworld]
    · rw [hworld]
      exact caught_keeps (purgeServerEvent_keeps env t (fun _ _ => rfl) s.world)
    · rw [hworld]
      exact (worldTarget_touched env t target inc s.world).breakCondition ht

/-- **WHAT BREAKS** on a server: the last stage raises the condition exactly under
    `serverBreaks`, and never lowers it. -/
theorem processTargets_break (inc : Incoming) (s : ServerState) :
    (AdminServerProvision.processTargets env t inc s).2.world.breakCondition
      = (s.world.breakCondition || serverBreaks env t inc.holder s.world) := by
  simp only [AdminServerProvision.processTargets, serverBreaks]
  cases expand env s.world t.target t.targetPatterns with
  | error e => simp [Except.isOk, Except.toBool]
  | ok target =>
      cases expandNonEmpty env s.world t.target2 t.target2Patterns with
      | error e => simp [Except.isOk, Except.toBool]
      | ok target2 =>
          simpa [Except.isOk, Except.toBool] using serverTarget_break env t target target2 inc s

/-- Of the targets of a client only the break touches the condition. -/
theorem clientTarget_break (target : String) (inc : Incoming) (s : ClientState) :
    (clientTarget env t target inc s).2.world.breakCondition
      = (s.world.breakCondition || breaksOn t (inc.holder.getString env.lib)) := by
  by_cases ht : t.targetType = .Break
  · simp only [clientTarget, ht, requestBodyTarget]
    exact worldTarget_break env t target inc s.world
  · rw [breaksOn_false ht, Bool.or_false]
    rcases clientTarget_world env t target inc s with hworld | ⟨-, hworld⟩ | hworld
    · rw [hworld]
    · rw [hworld]
      exact caught_keeps (purgeClientEvent_keeps env t (fun _ _ => rfl) s.world)
    · rw [hworld]
      exact (worldTarget_touched env t target inc s.world).breakCondition ht

/-- **WHAT BREAKS** on a client. -/
theorem clientTargets_break (inc : Incoming) (s : ClientState) :
    match AdminClientProvision.processTargets env t inc s with
    | .ok (_, s') =>
        s'.world.breakCondition = (s.world.breakCondition || clientBreaks env t inc.holder s.world)
    | .error _ => clientBreaks env t inc.holder s.world = false := by
  simp only [AdminClientProvision.processTargets, clientBreaks]
  cases expand env s.world t.target t.targetPatterns with
  | error e => simp [Except.isOk, Except.toBool]
  | ok target => simpa [Except.isOk, Except.toBool] using clientTarget_break env t target inc s

end Break

/-! ## Holders that show the same have the same effect -/

section Congruence

variable {env : Env} {t : Transformation} {v w : TypeConverter} {eraser : Bool}
  {groups : List String}

theorem nativeJson_congr (h : SameView v w) : nativeJson v = nativeJson w := by
  simp only [nativeJson, ← h.native_eq]
  cases hn : v.native with
  | object => exact h.json_eq hn
  | string s => rfl
  | integer i => rfl
  | unsigned u => rfl
  | float f => rfl
  | boolean b => rfl

theorem putNative_congr (h : SameView v w) (target : String) (b : Body) :
    b.putNative target v = b.putNative target w := by
  simp only [Body.putNative, ← h.native_eq, nativeJson_congr h]
  cases Json.parsePointer target with
  | none => rfl
  | some tokens =>
      cases hn : v.native with
      | object => simp only [h.json_eq hn]
      | string s => rfl
      | integer i => rfl
      | unsigned u => rfl
      | float f => rfl
      | boolean x => rfl

theorem bodyTarget_congr (h : SameView v w) (kind : BodyTarget) (target : String) (b : Body) :
    bodyTarget env.lib kind target ⟨v, eraser, groups⟩ b
      = bodyTarget env.lib kind target ⟨w, eraser, groups⟩ b := by
  simp only [bodyTarget, getString_congr env.lib h, getInteger_congr env.lib h,
    getUnsigned_congr env.lib h, getFloat_congr env.lib h, getBoolean_congr h,
    putNative_congr h]

theorem entryValue_congr (h : SameView v w) : entryValue env.lib v = entryValue env.lib w := by
  simp only [entryValue, checkedObject_congr h, getString_congr env.lib h]

theorem worldTarget_congr (h : SameView v w) (target : String) (x : World) :
    worldTarget env t target ⟨v, eraser, groups⟩ x
      = worldTarget env t target ⟨w, eraser, groups⟩ x := by
  simp only [worldTarget, varTarget, vaultTarget, fileTarget, socketTarget, breakTarget,
    checkedObject_congr h, getString_congr env.lib h, entryValue_congr h]

theorem clientTriggers_congr (h : SameView v w) (target : String) (x : World) :
    clientTriggers env t target ⟨v, eraser, groups⟩ x
      = clientTriggers env t target ⟨w, eraser, groups⟩ x := by
  simp only [clientTriggers, getString_congr env.lib h]

/-- **WHAT A SERVER TARGET SEES**: holders that show the same leave the same flag
    and the same state. -/
theorem processTargets_congr (h : SameView v w) (s : ServerState) :
    AdminServerProvision.processTargets env t ⟨v, eraser, groups⟩ s
      = AdminServerProvision.processTargets env t ⟨w, eraser, groups⟩ s := by
  simp only [AdminServerProvision.processTargets, serverTarget, bodyTarget_congr h,
    worldTarget_congr h, clientTriggers_congr h, getString_congr env.lib h,
    getUnsigned_congr env.lib h]

/-- The targets an eraser acts on without the value of the holder: a node of the
    response body, a vault entry, an event, a trigger, a file as long as the value
    can be rendered, and the kinds a server does not have. -/
def ErasesUnseen (env : Env) (t : Transformation) : Prop :=
  match t.targetType with
  | .TTxtFile | .TBinFile => ∀ j, (env.lib.dump j).isSome = true
  | .ResponseBodyJson_Object | .TGVar | .ServerEventToPurge | .ClientProvision_t
  | .RequestBodyString | .RequestBodyHexString | .RequestBodyJson_String
  | .RequestBodyJson_Integer | .RequestBodyJson_Unsigned | .RequestBodyJson_Float
  | .RequestBodyJson_Boolean | .RequestBodyJson_Object | .RequestBodyJson_JsonString
  | .RequestHeader_t | .RequestDelayMs | .RequestTimeoutMs | .ClientEventToPurge
  | .RequestUri_t | .RequestMethod_t => True
  | _ => False

/-- Where every JSON value can be rendered, so can every holder. -/
theorem getString_isOk {lib : Lib} (hdump : ∀ j, (lib.dump j).isSome = true)
    (v : TypeConverter) : ∃ s, v.getString lib = .ok s := by
  simp only [TypeConverter.getString]
  cases v.native with
  | object =>
      obtain ⟨text, htext⟩ := Option.isSome_iff_exists.mp (hdump v.json)
      exact ⟨text, by simp only [htext]⟩
  | string s => exact ⟨_, rfl⟩
  | integer i => exact ⟨_, rfl⟩
  | unsigned u => exact ⟨_, rfl⟩
  | float f => exact ⟨_, rfl⟩
  | boolean b => exact ⟨_, rfl⟩

theorem fileTarget_eraser (hdump : ∀ j, (env.lib.dump j).isSome = true) (target : String)
    (text : Bool) (x : World) :
    fileTarget env t target ⟨v, true, groups⟩ text x
      = fileTarget env t target ⟨w, true, groups⟩ text x := by
  obtain ⟨s, hs⟩ := getString_isOk hdump v
  obtain ⟨s', hs'⟩ := getString_isOk hdump w
  simp only [fileTarget, hs, hs', if_true]

/-- Under an eraser those targets do the same whatever the holder shows. -/
theorem processTargets_eraser (ht : ErasesUnseen env t) (s : ServerState) :
    AdminServerProvision.processTargets env t ⟨v, true, groups⟩ s
      = AdminServerProvision.processTargets env t ⟨w, true, groups⟩ s := by
  simp only [AdminServerProvision.processTargets]
  cases expand env s.world t.target t.targetPatterns with
  | error e => rfl
  | ok target =>
      cases expandNonEmpty env s.world t.target2 t.target2Patterns with
      | error e => rfl
      | ok target2 =>
          show serverTarget _ _ _ _ _ _ = serverTarget _ _ _ _ _ _
          simp only [ErasesUnseen] at ht
          cases hk : t.targetType with
          | TTxtFile =>
              simp only [hk] at ht
              simp only [serverTarget, responseBodyTarget, worldTarget, hk]
              rw [fileTarget_eraser (v := v) (w := w) ht]
          | TBinFile =>
              simp only [hk] at ht
              simp only [serverTarget, responseBodyTarget, worldTarget, hk]
              rw [fileTarget_eraser (v := v) (w := w) ht]
          | TGVar => simp only [serverTarget, responseBodyTarget, worldTarget, vaultTarget, hk,
              if_true]
          | ResponseBodyJson_Object =>
              simp only [serverTarget, responseBodyTarget, bodyTarget, hk, if_true]
          | ClientProvision_t =>
              simp only [serverTarget, responseBodyTarget, clientTriggers, hk, if_true]
          | ServerEventToPurge => simp only [serverTarget, responseBodyTarget, hk]
          | RequestBodyString | RequestBodyHexString | RequestBodyJson_String
          | RequestBodyJson_Integer | RequestBodyJson_Unsigned | RequestBodyJson_Float
          | RequestBodyJson_Boolean | RequestBodyJson_Object | RequestBodyJson_JsonString
          | RequestHeader_t | RequestDelayMs | RequestTimeoutMs | ClientEventToPurge
          | RequestUri_t | RequestMethod_t =>
              simp only [serverTarget, responseBodyTarget, worldTarget, hk]
          | ResponseBodyString | ResponseBodyHexString | ResponseBodyJson_String
          | ResponseBodyJson_Integer | ResponseBodyJson_Unsigned | ResponseBodyJson_Float
          | ResponseBodyJson_Boolean | ResponseBodyJson_JsonString | ResponseHeader_t
          | ResponseStatusCode_t | ResponseDelayMs | TVar | TGVarJson_Object
          | TGVarJson_JsonString | OutState | UDPSocket | Break =>
              simp only [hk] at ht

end Congruence

end H2Target
