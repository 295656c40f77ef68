import H2agent.FallbackListProofs
import H2agent.MockStoreProofs
import H2agent.TypeConverterProofs

/-! # Transformation items and what they work on

    `Transformation.hpp`: the kinds of sources, targets and filters, and the
    parameters of an item.  The fallback list `onFilterFail` of an item holds
    items again, so a list of items is `FallbackList.Items Transformation`.

    Items work on the `World` a provision shares with others (variables, vault,
    event stores, files, datagrams) and on the holder of the source value, which
    is kept apart from it.
    What only the outside knows, random numbers, clocks, commands and file
    contents, is the record `Env`: an answer per item, so that an item gets the
    same answer wherever it stands in a list. -/

namespace H2Transformation

open CppText FallbackList H2Convert H2Key H2Store JsonValue

/-- `Transformation::SourceType`. -/
inductive SourceType where
  | RequestUri | RequestUriPath | RequestUriParam | RequestBody | ResponseBody
  | RequestHeader | RequestHeaders | Eraser | Math | Random | RandomSet | Timestamp
  | Strftime | Recvseq | SVar | SGVar | Value | ServerEvent | InState | STxtFile
  | SBinFile | Command | Sendseq | ClientEvent | ResponseHeader | ResponseHeaders
  | ResponseStatusCode
  deriving DecidableEq, Repr

/-- `Transformation::TargetType`. -/
inductive TargetType where
  | ResponseBodyString | ResponseBodyHexString | ResponseBodyJson_String
  | ResponseBodyJson_Integer | ResponseBodyJson_Unsigned | ResponseBodyJson_Float
  | ResponseBodyJson_Boolean | ResponseBodyJson_Object | ResponseBodyJson_JsonString
  | ResponseHeader_t | ResponseStatusCode_t | ResponseDelayMs | TVar | TGVar
  | TGVarJson_Object | TGVarJson_JsonString | OutState | TTxtFile | TBinFile | UDPSocket
  | ServerEventToPurge | Break | RequestBodyString | RequestBodyHexString
  | RequestBodyJson_String | RequestBodyJson_Integer | RequestBodyJson_Unsigned
  | RequestBodyJson_Float | RequestBodyJson_Boolean | RequestBodyJson_Object
  | RequestBodyJson_JsonString | RequestHeader_t | RequestDelayMs | RequestTimeoutMs
  | ClientEventToPurge | RequestUri_t | RequestMethod_t | ClientProvision_t
  deriving DecidableEq, Repr

/-- `Transformation::FilterType`. -/
inductive FilterType where
  | RegexCapture | RegexReplace | Append | Prepend | Sum | Multiply | ConditionVar
  | EqualTo | DifferentFrom | JsonConstraint | SchemaId | Split | BaseConvert
  | FStrptime | FStrftime | RegexKey | Size
  deriving DecidableEq, Repr

/-- `Transformation`, less its fallback list.  `uid` tells items apart; patterns
    are kept in key order, as the map that holds them. -/
structure Transformation where
  uid : Nat := 0
  sourceType : SourceType
  source : String := ""
  source2 : String := ""
  sourceTokenized : List String := []
  sourceI1 : Int := 0
  sourceI2 : Int := 0
  sourcePatterns : List (String × String) := []
  targetType : TargetType
  target : String := ""
  target2 : String := ""
  targetTokenized : List String := []
  targetPatterns : List (String × String) := []
  target2Patterns : List (String × String) := []
  hasFilter : Bool := false
  filterType : FilterType := .RegexCapture
  filter : String := ""
  filterObject : Json := .null
  filterRegex : String := ""
  filterNumberType : Nat := 0
  filterI : Int := 0
  filterU : Nat := 0
  filterF : Float := 0
  filterFiller : String := ""
  filterPatterns : List (String × String) := []

/-- `transformations_`. -/
abbrev Transformations := Items Transformation

/-! ## Headers and bodies -/

/-- `header_map`, a multimap: pairs in key order. -/
abbrev HeaderMap := List (String × String)

/-- `emplace`: behind the pairs of the same key. -/
def HeaderMap.emplace (name value : String) : HeaderMap → HeaderMap
  | [] => [(name, value)]
  | (n, v) :: rest =>
      if name < n then (name, value) :: (n, v) :: rest
      else (n, v) :: HeaderMap.emplace name value rest

/-- `find`. -/
def HeaderMap.find (name : String) (headers : HeaderMap) : Option String :=
  (headers.find? (fun h => h.1 == name)).map Prod.snd

/-- Headers as an array of objects. -/
def HeaderMap.toJson (headers : HeaderMap) : Json :=
  .arr (headers.map (fun h => .obj [("name", .str h.1), ("value", .str h.2)]))

/-- `DataPart`. -/
structure DataPart where
  str : String
  decoded : Bool := false
  isJson : Bool := false
  json : Json := .null

/-- `isprint` in the "C" locale. -/
def isPrint (c : Char) : Bool := 32 ≤ c.toNat && c.toNat ≤ 126

/-- A hexadecimal digit, in lower case. -/
def hexDigit (n : Nat) : Char :=
  if n ≤ 9 then Char.ofNat (n + 48) else Char.ofNat (n - 10 + 97)

/-- `asHexString`: whether the text is printable, and its bytes. -/
def asHexString (input : String) : Bool × String :=
  (input.toList.all isPrint,
    String.ofList ('0' :: 'x' :: input.toList.flatMap
      (fun c => [hexDigit (c.toNat / 16 % 16), hexDigit (c.toNat % 16)])))

/-- The text after the first `boundary=` of a content type. -/
def boundaryOf : List Char → List Char
  | [] => []
  | c :: cs =>
      if "boundary=".toList.isPrefixOf (c :: cs) then (c :: cs).drop 9 else boundaryOf cs

/-- `DataPart::decodeContent` on the whole body. -/
def DataPart.decodeContent (lib : Lib) (part : DataPart) (contentType : String) : DataPart :=
  if contentType == "application/json" then
    -- an invalid document is shown by its error, and the content type obeyed
    { part with
      json := (lib.parse part.str).getD (.str (lib.parseError part.str)), isJson := true }
  else if "text/".toList.isPrefixOf contentType.toList then
    { part with json := .str part.str }
  else if "multipart/".toList.isPrefixOf contentType.toList then
    let boundary := String.ofList (boundaryOf contentType.toList)
    if boundary.isEmpty then part
    else { part with json := lib.multipart boundary part.str, isJson := true }
  else
    let (printable, hex) := asHexString part.str
    { part with json := .str (if printable then part.str else hex) }

/-- `DataPart::decode`. -/
def DataPart.decode (lib : Lib) (part : DataPart) (headers : HeaderMap) : DataPart :=
  if part.decoded then part
  else if part.str.isEmpty then { part with decoded := true, isJson := false }
  else
    { part.decodeContent lib ((headers.find "content-type").getD "") with decoded := true }

/-! ## The world of an item -/

/-- What the stores keep of an event. -/
structure MockEvent where
  state : String
  seq : Nat
  json : Json

instance : MockEventLike MockEvent := ⟨MockEvent.state, MockEvent.seq⟩

/-- What is asked of the file manager. -/
inductive FileOp where
  | write (path data : String) (text : Bool) (closeDelayUsecs : Nat)
  | empty (path : String)

/-- What is asked of the socket manager. -/
structure Datagram where
  path : String
  data : String
  delayUsecs : Nat

/-- What items of every provision work on. -/
structure World where
  vars : TextMap String
  vault : Vault
  serverEvents : MockServerData MockEvent
  clientEvents : MockClientData MockEvent
  files : List FileOp
  datagrams : List Datagram
  breakCondition : Bool

/-- The outside: libraries, schemas, configuration, and an answer per item for
    `rand()`, the clock in nanoseconds, the local time formatted, and `popen`
    with the output and the exit status of a command.  A file holds what the
    operations on it so far leave. -/
structure Env where
  lib : Lib
  schemas : TextMap Json
  rand : Nat → Nat
  clock : Nat → Int
  localTime : Nat → String → String
  popen : Nat → String → Option (String × Nat)
  readFile : List FileOp → String → Bool → String
  longTermFilesCloseDelayUsecs : Nat
  shortTermFilesCloseDelayUsecs : Nat

/-- Libraries of which a run asks nothing. -/
def idleLib : Lib where
  dump _ := none
  parse _ := none
  parseError _ := ""
  validate _ _ := none
  regexMatch _ _ := none
  regexReplace _ text _ := text
  math _ := 0
  stod _ := none
  floatText _ := ""
  floatToI64 _ := 0
  floatToU64 _ := 0
  strptime _ _ := none
  strftime _ _ := none
  urlDecode text := text
  multipart _ _ := .null

/-- An outside of which a run asks nothing. -/
def idleEnv : Env where
  lib := idleLib
  schemas := ∅
  rand _ := 0
  clock _ := 0
  localTime _ _ := ""
  popen _ _ := none
  readFile _ _ _ := ""
  longTermFilesCloseDelayUsecs := 1000000
  shortTermFilesCloseDelayUsecs := 0

/-- A world with nothing in it. -/
def World.blank : World := ⟨∅, ∅, MockServerData.fresh, ∅, [], [], false⟩

/-- Variables replaced in a text of an item. -/
def expand (env : Env) (w : World) (str : String) (patterns : List (String × String)) :
    Except Fault String :=
  replaceVariables env.lib str patterns w.vars w.vault

/-- A text expanded unless it is empty. -/
def expandNonEmpty (env : Env) (w : World) (str : String) (patterns : List (String × String)) :
    Except Fault String :=
  if str.isEmpty then .ok str else expand env w str patterns

/-! ## Results without an exception -/

/-- What is returned without an exception has a property. -/
def Yields {α : Type} (P : α → Prop) (x : Except Fault α) : Prop := ∀ r, x = .ok r → P r

theorem yields_ok {α : Type} {P : α → Prop} {r : α} (h : P r) :
    Yields P (Except.ok r : Except Fault α) := by
  intro r' hr
  cases hr
  exact h

theorem yields_bind {α β : Type} {P : β → Prop} {x : Except Fault α}
    {next : α → Except Fault β} (h : ∀ a, x = .ok a → Yields P (next a)) :
    Yields P (x >>= next) := by
  cases x with
  | error e => exact fun r hr => nomatch hr
  | ok a => exact h a rfl

end H2Transformation
