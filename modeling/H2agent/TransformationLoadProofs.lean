import H2agent.RegexProofs
import H2agent.TransformationProofs

/-! # Loading transformation items

    `Transformation::load`: the filter of an item, its source and its target,
    each told from its text by an ordered cascade of equalities and regular
    expressions, the variable patterns of the texts kept, and the items of
    `onFilterFail`, loaded by the same function.  `loadTransformation` keeps
    the items that load and drops the others.

    `.ok none` is the answer `false`; an exception that leaves the function is a
    `Fault`.  In the expressions a dot that is not escaped stands for any
    character but a line terminator, as `Re.dotted` has it. -/

namespace H2Load

open CppText FallbackList H2Convert H2Key H2Transformation JsonValue Regex

/-! ## Reading members of a document -/

/-- `find`: only an object has members. -/
def find (key : String) : Json → Option Json
  | .obj fields => Json.field key fields
  | _ => none

/-- The member `find` is dereferenced for without a look at `end()`. -/
def deref (key : String) (j : Json) : Except Fault Json :=
  match find key j with
  | some v => .ok v
  | none => .error .undefined

def getString : Json → Except Fault String
  | .str s => .ok s
  | _ => .error .json

def getBool : Json → Except Fault Bool
  | .bool b => .ok b
  | _ => .error .json

/-- `get<std::int64_t>`. -/
def getInt64 (lib : Lib) : Json → Except Fault Int
  | .int i => .ok i
  | .uint u => .ok (toI64 u)
  | .float f => .ok (lib.floatToI64 f)
  | _ => .error .json

/-- `get<std::uint64_t>`. -/
def getUInt64 (lib : Lib) : Json → Except Fault Nat
  | .int i => .ok (toU64 i)
  | .uint u => .ok u
  | .float f => .ok (lib.floatToU64 f)
  | _ => .error .json

/-- A member read with `get`, or the value taken when it is missing. -/
def getOr {α : Type} (get : Json → Except Fault α) (key : String) (default : α) (j : Json) :
    Except Fault α :=
  match find key j with
  | some v => get v
  | none => .ok default

/-- `std::stoi`. -/
def stoi (s : String) : Except Fault Int :=
  match signedDigits 10 s with
  | none => .error .outOfRange
  | some (negative, n) =>
      let v : Int := if negative then -(n : Int) else n
      if -2147483648 ≤ v ∧ v < 2147483648 then .ok v else .error .outOfRange

/-! ## Variable patterns -/

/-- A character allowed between the braces of a variable. -/
def inName (c : Char) : Bool := c != '\x7b' && c != '\x7d'

/-- The name of the variable whose pattern starts the text. -/
def tokenAt : List Char → Option (List Char)
  | '@' :: '\x7b' :: cs =>
      match cs.dropWhile inName with
      | '\x7d' :: _ => some (cs.takeWhile inName)
      | _ => none
  | _ => none

/-- The pattern of a variable. -/
def pattern (name : List Char) : List Char := '@' :: '\x7b' :: name ++ ['\x7d']

/-- The loop of `collectVariablePatterns`; `skip` characters belong to a match
    that was already found. -/
def collectLoop : Nat → List Char → List (String × String) → List (String × String)
  | _, [], patterns => patterns
  | skip + 1, _ :: cs, patterns => collectLoop skip cs patterns
  | 0, c :: cs, patterns =>
      match tokenAt (c :: cs) with
      | some name =>
          collectLoop (name.length + 2) cs
            (emplaceSorted (String.ofList (pattern name)) (String.ofList name) patterns)
      | none => collectLoop 0 cs patterns

/-- `collectVariablePatterns`: the patterns of a text, in key order, with the
    names between their braces. -/
def collectVariablePatterns (str : String) : List (String × String) :=
  collectLoop 0 str.toList []

/-! ## The filter -/

/-- What `load` reads of a filter. -/
structure FilterPart where
  filterType : FilterType
  filter : String := ""
  filterObject : Json := .null
  filterRegex : String := ""
  filterNumberType : Nat := 0
  filterI : Int := 0
  filterU : Nat := 0
  filterF : Float := 0
  filterFiller : String := ""
  collectFilterPatterns : Bool := false

/-- The amount of `Sum` and `Multiply`; the kind of the JSON number chooses the
    arithmetic, unsigned first. -/
def loadAmount (filterType : FilterType) : Json → FilterPart
  | .uint u => { filterType, filterU := u, filterNumberType := 1 }
  | .int i => { filterType, filterI := i, filterNumberType := 0 }
  | .float f => { filterType, filterF := f, filterNumberType := 2 }
  | _ => { filterType }

/-- A filter of one text. -/
def loadText (filterType : FilterType) (collect : Bool) (v : Json) :
    Except Fault (Option FilterPart) := do
  let filter ← getString v
  return some { filterType, filter, collectFilterPatterns := collect }

/-- A filter of one text that is a regular expression. -/
def loadRegex (compiles : String → Bool) (filterType : FilterType) (v : Json) :
    Except Fault (Option FilterPart) := do
  let filter ← getString v
  return if compiles filter then some { filterType, filter, filterRegex := filter } else none

def loadRegexReplace (compiles : String → Bool) (v : Json) :
    Except Fault (Option FilterPart) := do
  let rgx ← (deref "rgx" v).bind getString
  if compiles rgx then
    let filter ← (deref "fmt" v).bind getString
    return some { filterType := .RegexReplace, filter, filterRegex := rgx }
  else return none

def loadSplit (lib : Lib) (v : Json) : Except Fault (Option FilterPart) := do
  let filterI ← getOr (getInt64 lib) "size" 2 v
  let filterU ← getOr (getUInt64 lib) "count" 4 v
  let filter ← getOr getString "sep" "." v
  let filterFiller ← getOr getString "filler" "0" v
  let numeric ← getOr getBool "numeric" false v
  return some { filterType := .Split, filterI, filterU, filter, filterFiller,
                filterNumberType := if numeric then 1 else 0 }

def loadBaseConvert (lib : Lib) (v : Json) : Except Fault (Option FilterPart) := do
  let filterI ← (deref "in" v).bind (getInt64 lib)
  let filterU ← (deref "out" v).bind (getUInt64 lib)
  let capital ← getOr getBool "capital" false v
  return some { filterType := .BaseConvert, filterI, filterU,
                filterNumberType := if capital then 1 else 0 }

/-- The position of a time unit: seconds, and the three fractions. -/
def unitNumber (unit : String) : Nat :=
  if unit = "ms" then 1 else if unit = "us" then 2 else if unit = "ns" then 3 else 0

/-- `Strptime` and `Strftime`. -/
def loadTime (filterType : FilterType) (v : Json) : Except Fault (Option FilterPart) := do
  let filter ← (deref "fmt" v).bind getString
  let unit ← getOr getString "unit" "s" v
  return some { filterType, filter, filterNumberType := unitNumber unit }

/-- The filters in the order their keys are looked up. -/
def filterLoaders (lib : Lib) (compiles : String → Bool) :
    List (String × (Json → Except Fault (Option FilterPart))) :=
  [("RegexCapture", loadRegex compiles .RegexCapture),
   ("RegexReplace", loadRegexReplace compiles),
   ("Append", loadText .Append true),
   ("Prepend", loadText .Prepend true),
   ("Sum", fun v => .ok (some (loadAmount .Sum v))),
   ("Multiply", fun v => .ok (some (loadAmount .Multiply v))),
   ("ConditionVar", loadText .ConditionVar false),
   ("EqualTo", loadText .EqualTo true),
   ("DifferentFrom", loadText .DifferentFrom true),
   ("JsonConstraint", fun v => .ok (some { filterType := .JsonConstraint, filterObject := v })),
   ("SchemaId", loadText .SchemaId false),
   ("Split", loadSplit lib),
   ("BaseConvert", loadBaseConvert lib),
   ("Strptime", loadTime .FStrptime),
   ("Strftime", loadTime .FStrftime),
   ("RegexKey", loadRegex compiles .RegexKey)]

/-- The first key that is there decides; without any the type stays as it was
    constructed. -/
def firstFilter (j : Json) :
    List (String × (Json → Except Fault (Option FilterPart))) → Except Fault (Option FilterPart)
  | [] => .ok (some { filterType := .RegexCapture })
  | (key, loader) :: rest =>
      match find key j with
      | some v => loader v
      | none => firstFilter j rest

/-- The filter of an item. -/
def loadFilter (lib : Lib) (compiles : String → Bool) : Json → Except Fault (Option FilterPart)
  | .str "Size" => .ok (some { filterType := .Size })
  | j => firstFilter j (filterLoaders lib compiles)

/-! ## The source -/

/-- What `load` reads of a source. -/
structure SourcePart where
  sourceType : SourceType
  source : String := ""
  source2 : String := ""
  sourceTokenized : List String := []
  sourceI1 : Int := 0
  sourceI2 : Int := 0

/-- The text of a captured group. -/
def str (g : List (List Char)) (i : Nat) : String := String.ofList (g.getD i [])

/-- `==` with a literal: the type alone is taken. -/
def isText {β : Type} (text : String) (b : β) : Rule Fault β :=
  { pattern := Re.lit text.toList, action := fun _ => .ok (some b) }

/-- `^prefix(.*)`, the dots of the prefix not escaped. -/
def freeText (start : String) : Re :=
  .seq (Re.dotted start.toList) (.group (.many Re.dot))

/-- A source that keeps the text after its prefix. -/
def keepsText (start : String) (sourceType : SourceType) : Rule Fault SourcePart :=
  { pattern := freeText start
    action := fun g => .ok (some { sourceType, source := str g 0 }) }

def isDigit (c : Char) : Bool := '0' ≤ c && c ≤ '9'

/-- `[-+]{0,1}[0-9]+`. -/
def signedNumber : Re :=
  .seq (Re.opt (.one (fun c => c == '-' || c == '+'))) (Re.some isDigit)

/-- `^random\.([-+]{0,1}[0-9]+)\.([-+]{0,1}[0-9]+)$`. -/
def random : Rule Fault SourcePart :=
  { pattern := .seq (Re.lit "random.".toList) (.seq (.group signedNumber)
      (.seq (Re.lit ".".toList) (.seq (.group signedNumber) .atEnd)))
    action := fun g => do
      let sourceI1 ← stoi (str g 0)
      let sourceI2 ← stoi (str g 1)
      return some { sourceType := .Random, sourceI1, sourceI2 } }

/-- The values between the pipes of a random set. -/
def randomSet : Rule Fault SourcePart :=
  { pattern := freeText "randomset."
    action := fun g =>
      .ok (some { sourceType := .RandomSet, source := str g 0,
                  sourceTokenized := (pieces '|' (g.getD 0 [])).map String.ofList }) }

def notDot (c : Char) : Bool := c != '.'

/-- `(?:\.(/.+))?$`: an optional JSON path that ends the text. -/
def pathToEnd : Re :=
  .seq (Re.opt (.seq (Re.lit ".".toList) (.group (.seq (Re.lit "/".toList) (Re.some Re.dot)))))
    .atEnd

/-- `^vault\.([^.]+)` with what stands between the name and the path. -/
def vaultText (middle : String) : Re :=
  .seq (Re.lit "vault.".toList)
    (.seq (.group (Re.some notDot)) (.seq (Re.lit middle.toList) pathToEnd))

/-- The values of query parameters, in the order given; a missing one is empty. -/
def tokenized (lib : Lib) (names : List String) (text : String) : List String :=
  let qmap := (extractQueryParameters lib.urlDecode text '&').1
  names.map (fun qp => (qmap.lookup qp).getD "")

/-- A source that addresses an event with query parameters. -/
def eventSource (lib : Lib) (start : String) (sourceType : SourceType) (names : List String) :
    Rule Fault SourcePart :=
  { pattern := freeText start
    action := fun g =>
      .ok (some { sourceType, source := str g 0,
                  sourceTokenized := tokenized lib names (str g 0) }) }

/-- The tests of the source, in their order. -/
def sourceRules (lib : Lib) : List (Rule Fault SourcePart) :=
  [isText "request.uri" { sourceType := .RequestUri },
   isText "request.uri.path" { sourceType := .RequestUriPath },
   keepsText "request.uri.param." .RequestUriParam,
   isText "request.body" { sourceType := .RequestBody },
   keepsText "request.body." .RequestBody,
   isText "response.body" { sourceType := .ResponseBody },
   keepsText "response.body." .ResponseBody,
   isText "request.headers" { sourceType := .RequestHeaders },
   isText "response.headers" { sourceType := .ResponseHeaders },
   keepsText "request.header." .RequestHeader,
   isText "eraser" { sourceType := .Eraser },
   keepsText "math." .Math,
   random,
   randomSet,
   keepsText "timestamp." .Timestamp,
   keepsText "strftime." .Strftime,
   isText "recvseq" { sourceType := .Recvseq },
   isText "sendseq" { sourceType := .Sendseq },
   keepsText "var." .SVar,
   { pattern := vaultText ""
     action := fun g =>
       .ok (some { sourceType := .SGVar, source := str g 0, source2 := str g 1 }) },
   { pattern := .seq (Re.dotted "value.".toList) (.group (.many (fun _ => true)))
     action := fun g => .ok (some { sourceType := .Value, source := str g 0 }) },
   eventSource lib "serverEvent." .ServerEvent
     ["requestMethod", "requestUri", "eventNumber", "eventPath", "recvseq"],
   eventSource lib "clientEvent." .ClientEvent
     ["clientEndpointId", "requestMethod", "requestUri", "eventNumber", "eventPath", "sendseq"],
   isText "response.statusCode" { sourceType := .ResponseStatusCode },
   keepsText "response.header." .ResponseHeader,
   isText "inState" { sourceType := .InState },
   keepsText "txtFile." .STxtFile,
   keepsText "binFile." .SBinFile,
   keepsText "command." .Command]

/-- The source of an item. -/
def loadSource (lib : Lib) (sourceSpec : String) : Except Fault (Option SourcePart) :=
  cascade (sourceRules lib) sourceSpec.toList

/-! ## The target -/

/-- What `load` reads of a target. -/
structure TargetPart where
  targetType : TargetType
  target : String := ""
  target2 : String := ""
  targetTokenized : List String := []

/-- A target that keeps the text after its prefix. -/
def storesText (start : String) (targetType : TargetType) : Rule Fault TargetPart :=
  { pattern := freeText start
    action := fun g => .ok (some { targetType, target := str g 0 }) }

/-- A target in a JSON body: the whole document, or a node of it. -/
def bodyTarget (start : String) (targetType : TargetType) : List (Rule Fault TargetPart) :=
  [isText start { targetType }, storesText (start ++ ".") targetType]

/-- A target in the vault. -/
def vaultTarget (middle : String) (targetType : TargetType) : Rule Fault TargetPart :=
  { pattern := vaultText middle
    action := fun g => .ok (some { targetType, target := str g 0, target2 := str g 1 }) }

/-- A target that addresses the events to purge with query parameters. -/
def eventTarget (lib : Lib) (start : String) (targetType : TargetType) (names : List String) :
    Rule Fault TargetPart :=
  { pattern := freeText start
    action := fun g =>
      .ok (some { targetType, target := str g 0,
                  targetTokenized := tokenized lib names (str g 0) }) }

/-- `(POST|GET|PUT|DELETE|HEAD)`. -/
def methodName : Re :=
  .alt (Re.lit "POST".toList) (.alt (Re.lit "GET".toList) (.alt (Re.lit "PUT".toList)
    (.alt (Re.lit "DELETE".toList) (Re.lit "HEAD".toList))))

/-- `^outState.(POST|GET|PUT|DELETE|HEAD)(\..+)?`; the dot before the URI goes. -/
def outStateMethodUri : Rule Fault TargetPart :=
  { pattern := .seq (Re.dotted "outState.".toList) (.seq (.group methodName)
      (Re.opt (.group (.seq (Re.lit ".".toList) (Re.some Re.dot)))))
    action := fun g =>
      .ok (some { targetType := .OutState, target := str g 0,
                  target2 := String.ofList ((g.getD 1 []).drop 1) }) }

/-- `^clientProvision\.([^.]+)(?:\.(.+))?$`; the state may not be missing. -/
def clientProvision : Rule Fault TargetPart :=
  { pattern := .seq (Re.lit "clientProvision.".toList) (.seq (.group (Re.some notDot))
      (.seq (Re.opt (.seq (Re.lit ".".toList) (.group (Re.some Re.dot)))) .atEnd))
    action := fun g =>
      if (str g 1).isEmpty then .ok none
      else .ok (some { targetType := .ClientProvision_t, target := str g 0,
                       target2 := str g 1 }) }

/-- The tests of the target, in their order. -/
def targetRules (lib : Lib) : List (Rule Fault TargetPart) :=
  [isText "response.body.string" { targetType := .ResponseBodyString },
   isText "response.body.hexstring" { targetType := .ResponseBodyHexString }]
  ++ bodyTarget "response.body.json.string" .ResponseBodyJson_String
  ++ bodyTarget "response.body.json.integer" .ResponseBodyJson_Integer
  ++ bodyTarget "response.body.json.unsigned" .ResponseBodyJson_Unsigned
  ++ bodyTarget "response.body.json.float" .ResponseBodyJson_Float
  ++ bodyTarget "response.body.json.boolean" .ResponseBodyJson_Boolean
  ++ bodyTarget "response.body.json.object" .ResponseBodyJson_Object
  ++ bodyTarget "response.body.json.jsonstring" .ResponseBodyJson_JsonString
  ++ [isText "request.body.string" { targetType := .RequestBodyString },
      isText "request.body.hexstring" { targetType := .RequestBodyHexString }]
  ++ bodyTarget "request.body.json.string" .RequestBodyJson_String
  ++ bodyTarget "request.body.json.integer" .RequestBodyJson_Integer
  ++ bodyTarget "request.body.json.unsigned" .RequestBodyJson_Unsigned
  ++ bodyTarget "request.body.json.float" .RequestBodyJson_Float
  ++ bodyTarget "request.body.json.boolean" .RequestBodyJson_Boolean
  ++ bodyTarget "request.body.json.object" .RequestBodyJson_Object
  ++ bodyTarget "request.body.json.jsonstring" .RequestBodyJson_JsonString
  ++ [storesText "request.header." .RequestHeader_t,
      isText "request.delayMs" { targetType := .RequestDelayMs },
      isText "request.timeoutMs" { targetType := .RequestTimeoutMs },
      isText "request.uri" { targetType := .RequestUri_t },
      isText "request.method" { targetType := .RequestMethod_t },
      storesText "response.header." .ResponseHeader_t,
      isText "response.statusCode" { targetType := .ResponseStatusCode_t },
      isText "response.delayMs" { targetType := .ResponseDelayMs },
      storesText "var." .TVar,
      vaultTarget ".json.object" .TGVarJson_Object,
      vaultTarget ".json.jsonstring" .TGVarJson_JsonString,
      vaultTarget "" .TGVar,
      isText "outState" { targetType := .OutState },
      outStateMethodUri,
      storesText "txtFile." .TTxtFile,
      storesText "binFile." .TBinFile,
      storesText "udpSocket." .UDPSocket,
      eventTarget lib "serverEvent." .ServerEventToPurge
        ["requestMethod", "requestUri", "eventNumber", "recvseq"],
      eventTarget lib "clientEvent." .ClientEventToPurge
        ["clientEndpointId", "requestMethod", "requestUri", "eventNumber", "sendseq"],
      isText "break" { targetType := .Break },
      clientProvision]

/-- The target of an item. -/
def loadTarget (lib : Lib) (targetSpec : String) : Except Fault (Option TargetPart) :=
  cascade (targetRules lib) targetSpec.toList

/-! ## Items and lists of items -/

/-- The item the three parts make, with the patterns of its texts. -/
def assemble (filter : Option FilterPart) (s : SourcePart) (t : TargetPart) : Transformation :=
  let f := filter.getD { filterType := .RegexCapture }
  { sourceType := s.sourceType, source := s.source, source2 := s.source2,
    sourceTokenized := s.sourceTokenized, sourceI1 := s.sourceI1, sourceI2 := s.sourceI2,
    sourcePatterns := collectVariablePatterns s.source,
    targetType := t.targetType, target := t.target, target2 := t.target2,
    targetTokenized := t.targetTokenized,
    targetPatterns := collectVariablePatterns t.target,
    target2Patterns := collectVariablePatterns t.target2,
    hasFilter := filter.isSome, filterType := f.filterType, filter := f.filter,
    filterObject := f.filterObject, filterRegex := f.filterRegex,
    filterNumberType := f.filterNumberType, filterI := f.filterI, filterU := f.filterU,
    filterF := f.filterF, filterFiller := f.filterFiller,
    filterPatterns := if f.collectFilterPatterns then collectVariablePatterns f.filter else [] }

/-- The filter of a document, if it has one. -/
def filterOf (lib : Lib) (compiles : String → Bool) (j : Json) :
    Except Fault (Option (Option FilterPart)) :=
  match find "filter" j with
  | none => .ok (some none)
  | some f => (loadFilter lib compiles f).map (Option.map some)

/-- `load` up to the fallback list. -/
def loadHead (lib : Lib) (compiles : String → Bool) (j : Json) :
    Except Fault (Option Transformation) := do
  let sourceSpec ← (deref "source" j).bind getString
  let targetSpec ← (deref "target" j).bind getString
  match ← filterOf lib compiles j with
  | none => return none
  | some filter =>
      match ← loadSource lib sourceSpec with
      | none => return none
      | some source =>
          match ← loadTarget lib targetSpec with
          | none => return none
          | some target => return some (assemble filter source target)

mutual

/-- `Transformation::load`: the item and its fallback list. -/
def load (lib : Lib) (compiles : String → Bool) :
    Json → Except Fault (Option (Transformation × Transformations))
  | .obj fields =>
      match loadHead lib compiles (.obj fields) with
      | .error e => .error e
      | .ok none => .ok none
      | .ok (some t) =>
          match loadOnFilterFail lib compiles fields with
          | .error e => .error e
          | .ok none => .ok none
          | .ok (some items) => .ok (some (t, items))
  | _ => .error .undefined

/-- The member `onFilterFail`, looked at only when it is an array. -/
def loadOnFilterFail (lib : Lib) (compiles : String → Bool) :
    List (String × Json) → Except Fault (Option Transformations)
  | [] => .ok (some .nil)
  | (key, v) :: rest =>
      if key = "onFilterFail" then
        match v with
        | .arr l => loadFallbacks lib compiles l
        | _ => .ok (some .nil)
      else loadOnFilterFail lib compiles rest

/-- The items of a fallback list; the first that does not load ends the load of
    the item that holds the list. -/
def loadFallbacks (lib : Lib) (compiles : String → Bool) :
    List Json → Except Fault (Option Transformations)
  | [] => .ok (some .nil)
  | j :: rest =>
      match load lib compiles j with
      | .error e => .error e
      | .ok none => .ok none
      | .ok (some (t, onFail)) =>
          match loadFallbacks lib compiles rest with
          | .error e => .error e
          | .ok none => .ok none
          | .ok (some items) => .ok (some (.cons t onFail items))

end

/-- `loadTransformation` over the list of a provision: items that do not load
    are dropped. -/
def loadTransformations (lib : Lib) (compiles : String → Bool) :
    List Json → Except Fault Transformations
  | [] => .ok .nil
  | j :: rest => do
      match ← load lib compiles j with
      | none => loadTransformations lib compiles rest
      | some (t, onFail) => return .cons t onFail (← loadTransformations lib compiles rest)

/-! ## What a successful load went through -/

variable {lib : Lib} {compiles : String → Bool}

/-- A computation that did not throw gave its continuation a value. -/
theorem bind_ok {α β : Type} {x : Except Fault α} {f : α → Except Fault β} {b : β}
    (h : x >>= f = .ok b) : ∃ a, x = .ok a ∧ f a = .ok b := by
  cases x with
  | error e => cases h
  | ok a => exact ⟨a, rfl, h⟩

/-- The continuation of a computation that did not throw. -/
theorem ok_bind {α β : Type} (a : α) (f : α → Except Fault β) :
    (Except.ok a : Except Fault α) >>= f = f a := rfl

/-- A member read as a text is one. -/
theorem deref_getString {key s : String} {j : Json} (h : (deref key j).bind getString = .ok s) :
    find key j = some (.str s) := by
  rw [deref] at h
  cases hf : find key j with
  | none =>
      rw [hf] at h
      cases h
  | some v =>
      rw [hf] at h
      cases v with
      | str s' =>
          obtain rfl := Except.ok.inj h
          rfl
      | _ => cases h

/-- The parts of an item whose head loaded. -/
theorem loadHead_parts {j : Json} {t : Transformation}
    (h : loadHead lib compiles j = .ok (some t)) :
    ∃ sourceSpec targetSpec filter source target,
      (deref "source" j).bind getString = .ok sourceSpec
        ∧ (deref "target" j).bind getString = .ok targetSpec
        ∧ filterOf lib compiles j = .ok (some filter)
        ∧ loadSource lib sourceSpec = .ok (some source)
        ∧ loadTarget lib targetSpec = .ok (some target)
        ∧ t = assemble filter source target := by
  obtain ⟨sourceSpec, hs, h⟩ := bind_ok h
  obtain ⟨targetSpec, ht, h⟩ := bind_ok h
  obtain ⟨filter, hf, h⟩ := bind_ok h
  cases filter with
  | none => cases h
  | some filter =>
      obtain ⟨source, hsource, h⟩ := bind_ok h
      cases source with
      | none => cases h
      | some source =>
          obtain ⟨target, htarget, h⟩ := bind_ok h
          cases target with
          | none => cases h
          | some target =>
              have hit := Option.some.inj (Except.ok.inj h)
              exact ⟨sourceSpec, targetSpec, filter, source, target, hs, ht, hf, hsource,
                htarget, hit.symm⟩

/-- An item loads once its parts do. -/
theorem load_of_parts {fields : List (String × Json)} {sourceSpec targetSpec : String}
    {filter : Option FilterPart} {s : SourcePart} {t : TargetPart} {items : Transformations}
    (hsource : (deref "source" (.obj fields)).bind getString = .ok sourceSpec)
    (htarget : (deref "target" (.obj fields)).bind getString = .ok targetSpec)
    (hfilter : filterOf lib compiles (.obj fields) = .ok (some filter))
    (hs : loadSource lib sourceSpec = .ok (some s)) (ht : loadTarget lib targetSpec = .ok (some t))
    (hitems : loadOnFilterFail lib compiles fields = .ok (some items)) :
    load lib compiles (.obj fields) = .ok (some (assemble filter s t, items)) := by
  have hhead : loadHead lib compiles (.obj fields) = .ok (some (assemble filter s t)) := by
    simp only [loadHead, hsource, htarget, hfilter, hs, ht, ok_bind]
    rfl
  rw [load, hhead]
  simp only [hitems]

/-- An item that loads is an object whose head and fallback list load. -/
theorem load_parts {j : Json} {t : Transformation} {onFail : Transformations}
    (h : load lib compiles j = .ok (some (t, onFail))) :
    ∃ fields, j = .obj fields ∧ loadHead lib compiles j = .ok (some t)
      ∧ loadOnFilterFail lib compiles fields = .ok (some onFail) := by
  cases j with
  | obj fields =>
      rw [load] at h
      refine ⟨fields, rfl, ?_⟩
      cases hh : loadHead lib compiles (.obj fields) with
      | error e => rw [hh] at h; cases h
      | ok head =>
          cases head with
          | none => rw [hh] at h; cases h
          | some t' =>
              cases hf : loadOnFilterFail lib compiles fields with
              | error e => rw [hh, hf] at h; cases h
              | ok items =>
                  cases items with
                  | none => rw [hh, hf] at h; cases h
                  | some items =>
                      rw [hh, hf] at h
                      obtain ⟨rfl, rfl⟩ := Prod.mk.inj (Option.some.inj (Except.ok.inj h))
                      exact ⟨rfl, rfl⟩
  | null => simp [load] at h
  | bool b => simp [load] at h
  | int i => simp [load] at h
  | uint n => simp [load] at h
  | float f => simp [load] at h
  | str s => simp [load] at h
  | arr l => simp [load] at h

end H2Load
