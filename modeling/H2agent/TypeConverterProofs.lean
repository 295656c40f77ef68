import H2agent.JsonValueProofs
import H2agent.KeyProofs

/-! # Source values and their conversions

    `TypeConverter`, the holder every transformation item writes its source
    into, with the functions of `TypeConverter.cpp`, `functions.cpp` and
    `Vault.cpp` it works with.

    What the program takes from other libraries (JSON texts, regular
    expressions, schema validation, expressions, calendar functions, decimal
    texts of floats) is the record `Lib`; nothing is assumed of it here.

    The holder keeps one member per native type, and every setter clears all of
    them first.  So the value of the native type is all there is to see, apart
    from the JSON member: `clear()` keeps its KIND, and a reader that does not
    look at the native type finds the empty value of that kind. -/

namespace H2Convert

open CppText H2Key JsonValue

/-- What comes from other libraries.  `none` stands for an exception or an error
    return. -/
structure Lib where
  dump : Json → Option String
  parse : String → Option Json
  parseError : String → String
  validate : Json → Json → Option String
  regexMatch : String → String → Option (List String)
  regexReplace : String → String → String → String
  math : String → Float
  stod : String → Option Float
  floatText : Float → String
  floatToI64 : Float → Int
  floatToU64 : Float → Nat
  strptime : String → String → Option Int
  strftime : String → Int → Option String
  urlDecode : String → String
  multipart : String → String → Json

/-- What ends a reception half way: an exception that is not caught where it is
    thrown, a division by zero, a loop that never ends, or undefined behaviour. -/
inductive Fault where
  | json
  | outOfRange
  | arithmetic
  | endless
  | undefined
  deriving DecidableEq, Repr

/-- A vault: entry names to JSON values. -/
abbrev Vault := TextMap Json

/-! ## Texts -/

/-- The loop of `searchReplaceAll`; `skip` characters belong to a match that was
    already replaced. -/
def replaceLoop (pattern replacement : List Char) : Nat → List Char → List Char
  | _, [] => []
  | skip + 1, _ :: cs => replaceLoop pattern replacement skip cs
  | 0, c :: cs =>
      if pattern.isPrefixOf (c :: cs) then
        replacement ++ replaceLoop pattern replacement (pattern.length - 1) cs
      else c :: replaceLoop pattern replacement 0 cs

/-- `searchReplaceAll`. -/
def searchReplaceAll (str pattern replacement : String) : String :=
  String.ofList (replaceLoop pattern.toList replacement.toList 0 str.toList)

/-- `jsonToString`. -/
def jsonToString (lib : Lib) : Json → Except Fault String
  | .str s => .ok s
  | .null => .ok ""
  | j =>
      match lib.dump j with
      | some text => .ok text
      | none => .error .json

/-- The loop of `replaceVariables`: patterns in key order, a local variable
    before a vault entry of the same name. -/
def replaceEach (lib : Lib) (vars : TextMap String) (vault : Vault) :
    List (String × String) → String → Except Fault String
  | [], str => .ok str
  | (pattern, name) :: rest, str =>
      match vars.lookup name with
      | some value => replaceEach lib vars vault rest (searchReplaceAll str pattern value)
      | none =>
          match vault.lookup name with
          | none => replaceEach lib vars vault rest str
          | some j =>
              match jsonToString lib j with
              | .error e => .error e
              | .ok value =>
                  replaceEach lib vars vault rest (searchReplaceAll str pattern value)

/-- `replaceVariables`. -/
def replaceVariables (lib : Lib) (str : String) (patterns : List (String × String))
    (vars : TextMap String) (vault : Vault) : Except Fault String :=
  if patterns.isEmpty then .ok str
  else if vars.entries.isEmpty && vault.entries.isEmpty then .ok str
  else replaceEach lib vars vault patterns str

/-- `isxdigit`. -/
def isXDigit (c : Char) : Bool :=
  ('0' ≤ c && c ≤ '9') || ('a' ≤ c && c ≤ 'f') || ('A' ≤ c && c ≤ 'F')

/-- The nibble `fromHexString` reads; letters are taken from `'a'` whatever
    their case. -/
def nibble (c : Char) : Int :=
  if '0' ≤ c && c ≤ '9' then (c.toNat : Int) - 48 else (c.toNat : Int) - 97 + 10

/-- The byte of two hexadecimal characters, as an `unsigned char`. -/
def hexByte (hi lo : Char) : Nat :=
  ((nibble hi * 16) % 256).toNat ||| (nibble lo % 256).toNat

/-- The loop of `fromHexString`: success, and the bytes read so far. -/
def fromHexLoop : List Char → List Char → Bool × List Char
  | hi :: lo :: rest, acc =>
      if !isXDigit hi then (false, acc.reverse)
      else if !isXDigit lo then (false, acc.reverse)
      else fromHexLoop rest (Char.ofNat (hexByte hi lo) :: acc)
  | _, acc => (true, acc.reverse)

/-- `fromHexString`: a text of odd length leaves the output as it was.  The loop ends at an `int`,
    which keeps the length modulo `2^32`. -/
def fromHexString (input output : String) : Bool × String :=
  let cs := input.toList
  if cs.length % 2 ≠ 0 then (false, output)
  else
    let maxii := wrapI32 cs.length
    let src := cs.take maxii.toNat
    let (ok, bytes) := fromHexLoop (if cs.take 2 = ['0', 'x'] then src.drop 2 else src) []
    (ok, String.ofList bytes)

/-! ## Constraints on JSON documents -/

/-- The elements of an array. -/
def elements : Json → List Json
  | .arr l => l
  | _ => []

/-- An expected plain value, as the single member it iterates as. -/
def constrainPlain (received value : Json) : Option String :=
  if !received.contains "" then
    some "JsonConstraint FAILED: expected key '' is missing in validated source"
  else if !(received.member "").beq value then
    some "JsonConstraint FAILED: expected value for key '' differs regarding validated source"
  else none

mutual

/-- `jsonConstraint`: `none` is success, otherwise the fail report.  Expected
    documents come from a parsed provision, so their dump is there. -/
def jsonConstraint (lib : Lib) (received : Json) : Json → Option String
  | .arr es =>
      if !received.isArray then
        some "JsonConstraint FAILED: expected array but received non-array"
      else constrainElements lib received es 0
  | .obj fields => constrainFields lib received fields
  | .null => none
  -- a plain value iterates as one member with an empty key
  | .bool b => constrainPlain received (.bool b)
  | .int i => constrainPlain received (.int i)
  | .uint n => constrainPlain received (.uint n)
  | .float f => constrainPlain received (.float f)
  | .str s => constrainPlain received (.str s)

/-- Every expected element is somewhere in the received array. -/
def constrainElements (lib : Lib) (received : Json) : List Json → Nat → Option String
  | [], _ => none
  | e :: es, i =>
      if (elements received).any (fun r =>
          if e.isObject && r.isObject then (jsonConstraint lib r e).isNone
          else r.beq e) then
        constrainElements lib received es (i + 1)
      else
        some ("JsonConstraint FAILED: expected element at index '" ++ toString i
          ++ "' not found in validated source array: " ++ (lib.dump e).getD "")

/-- Every expected member is in the received object. -/
def constrainFields (lib : Lib) (received : Json) :
    List (String × Json) → Option String
  | [] => none
  | (key, value) :: rest =>
      if !received.contains key then
        some ("JsonConstraint FAILED: expected key '" ++ key
          ++ "' is missing in validated source")
      else if value.isObject || (value.isArray && (received.member key).isArray) then
        match jsonConstraint lib (received.member key) value with
        | some report => some report
        | none => constrainFields lib received rest
      else if !(received.member key).beq value then
        some ("JsonConstraint FAILED: expected value for key '" ++ key
          ++ "' differs regarding validated source")
      else constrainFields lib received rest

end

/-! ## The holder -/

/-- The native type with its value; of an object it is the JSON member. -/
inductive NativeValue where
  | string (s : String)
  | integer (i : Int)
  | unsigned (u : Nat)
  | float (f : Float)
  | boolean (b : Bool)
  | object

/-- `TypeConverter`. -/
structure TypeConverter where
  native : NativeValue
  json : Json

namespace TypeConverter

/-- A fresh holder. -/
def fresh : TypeConverter := ⟨.string "", .null⟩

/-- `clear`. -/
def clear (v : TypeConverter) : TypeConverter := ⟨.string "", v.json.clear⟩

def setString (v : TypeConverter) (s : String) : TypeConverter :=
  { v.clear with native := .string s }

def setInteger (v : TypeConverter) (i : Int) : TypeConverter :=
  { v.clear with native := .integer i }

def setUnsigned (v : TypeConverter) (u : Nat) : TypeConverter :=
  { v.clear with native := .unsigned u }

def setFloat (v : TypeConverter) (f : Float) : TypeConverter :=
  { v.clear with native := .float f }

/-- The native type `setObject` gives to the JSON it takes; null has none. -/
def nativeOf : Json → NativeValue
  | .obj _ => .object
  | .arr _ => .object
  | .str s => .string s
  | .uint u => .unsigned u
  | .int i => .integer i
  | .float f => .float f
  | .bool b => .boolean b
  | .null => .string ""

/-- `setObject`: success, and the holder left.  A path that is not found, or
    holds nothing, fails. -/
def setObject (v : TypeConverter) (source : Json) (path : String) :
    Bool × TypeConverter :=
  if path.isEmpty then (true, ⟨nativeOf source, source⟩)
  else
    match (Json.parsePointer path).bind (fun tokens => source.getAt tokens) with
    | none => (false, v.clear)
    | some j => if j.empty then (false, ⟨.string "", j⟩) else (true, ⟨nativeOf j, j⟩)

/-- Trailing zeroes, and then trailing dots, of a decimal text go. -/
def trimDecimal (text : String) : String :=
  String.ofList (((text.toList.reverse.dropWhile (· = '0')).dropWhile (· = '.')).reverse)

/-- `getString`, which always succeeds unless the dump throws. -/
def getString (lib : Lib) (v : TypeConverter) : Except Fault String :=
  match v.native with
  | .object =>
      match lib.dump v.json with
      | some text => .ok text
      | none => .error .json
  | .integer i => .ok (toString i)
  | .unsigned u => .ok (toString u)
  | .float f => .ok (trimDecimal (lib.floatText f))
  | .boolean b => .ok (if b then "true" else "false")
  | .string s => .ok s

/-- `getInteger`; `none` is failure, with zero as the value returned. -/
def getInteger (lib : Lib) (v : TypeConverter) : Option Int :=
  match v.native with
  | .object => none
  | .string s => stoll s
  | .unsigned u => some (toI64 u)
  | .float f => some (lib.floatToI64 f)
  | .boolean b => some (if b then 1 else 0)
  | .integer i => some i

/-- `getUnsigned`. -/
def getUnsigned (lib : Lib) (v : TypeConverter) : Option Nat :=
  match v.native with
  | .object => none
  | .string s => stoull s
  | .integer i => some (toU64 i)
  | .float f => some (lib.floatToU64 f)
  | .boolean b => some (if b then 1 else 0)
  | .unsigned u => some u

/-- `getFloat`. -/
def getFloat (lib : Lib) (v : TypeConverter) : Option Float :=
  match v.native with
  | .object => none
  | .string s => lib.stod s
  | .integer i => some (Float.ofInt i)
  | .unsigned u => some (Float.ofNat u)
  | .boolean b => some (if b then 1 else 0)
  | .float f => some f

/-- `getBoolean`. -/
def getBoolean (v : TypeConverter) : Option Bool :=
  match v.native with
  | .object => none
  | .string s => some (!s.isEmpty)
  | .integer i => some (i != 0)
  | .unsigned u => some (u != 0)
  | .float f => some (f != 0)
  | .boolean b => some b

/-- `getObject`: success, and the JSON member, returned in either case. -/
def getObject (v : TypeConverter) : Bool × Json :=
  match v.native with
  | .object => (true, v.json)
  | _ => (false, v.json)

/-- `getObject` where its success is looked at. -/
def checkedObject (v : TypeConverter) : Option Json :=
  match v.getObject with
  | (true, j) => some j
  | (false, _) => none

end TypeConverter

/-! ## What can be seen of a holder -/

/-- The observable value: the native type with its value. -/
structure View where
  native : NativeValue
  object : Option Json

/-- The JSON member is part of the view of an object only. -/
def TypeConverter.view (v : TypeConverter) : View :=
  match v.native with
  | .object => ⟨.object, some v.json⟩
  | n => ⟨n, none⟩

/-- Two holders that show the same. -/
def SameView (v w : TypeConverter) : Prop := v.view = w.view

theorem SameView.refl (v : TypeConverter) : SameView v v := rfl

theorem SameView.symm {v w : TypeConverter} (h : SameView v w) : SameView w v := Eq.symm h

theorem SameView.trans {u v w : TypeConverter} (h : SameView u v) (h' : SameView v w) :
    SameView u w := Eq.trans h h'

/-- The view decides the native value. -/
theorem SameView.native_eq {v w : TypeConverter} (h : SameView v w) :
    v.native = w.native := by
  have hv : v.view.native = v.native := by
    simp only [TypeConverter.view]
    cases hn : v.native <;> rfl
  have hw : w.view.native = w.native := by
    simp only [TypeConverter.view]
    cases hn : w.native <;> rfl
  rw [← hv, ← hw, show v.view = w.view from h]

/-- Of an object the view decides the JSON member too. -/
theorem SameView.json_eq {v w : TypeConverter} (h : SameView v w)
    (hn : v.native = .object) : v.json = w.json := by
  have hw : w.native = .object := h.native_eq ▸ hn
  have hview : v.view = w.view := h
  simp only [TypeConverter.view, hn, hw] at hview
  exact Option.some.inj (congrArg View.object hview)

/-- A holder whose native type is not object shows its native value. -/
theorem sameView_of_native {v w : TypeConverter} (hn : v.native = w.native)
    (ho : v.native ≠ .object) : SameView v w := by
  simp only [SameView, TypeConverter.view]
  rw [← hn]
  cases hv : v.native with
  | object => exact (ho hv).elim
  | string s => rfl
  | integer i => rfl
  | unsigned u => rfl
  | float f => rfl
  | boolean b => rfl

/-- What a setter leaves shows the same whatever was there. -/
theorem sameView_setString (v w : TypeConverter) (s : String) :
    SameView (v.setString s) (w.setString s) :=
  sameView_of_native rfl (fun h => nomatch h)

theorem sameView_setInteger (v w : TypeConverter) (i : Int) :
    SameView (v.setInteger i) (w.setInteger i) :=
  sameView_of_native rfl (fun h => nomatch h)

theorem sameView_setUnsigned (v w : TypeConverter) (u : Nat) :
    SameView (v.setUnsigned u) (w.setUnsigned u) :=
  sameView_of_native rfl (fun h => nomatch h)

theorem sameView_setFloat (v w : TypeConverter) (f : Float) :
    SameView (v.setFloat f) (w.setFloat f) :=
  sameView_of_native rfl (fun h => nomatch h)

/-- `setObject` succeeds or not whatever was there, and leaves the same to see. -/
theorem setObject_sameView (v w : TypeConverter) (source : Json) (path : String) :
    (v.setObject source path).1 = (w.setObject source path).1
      ∧ SameView (v.setObject source path).2 (w.setObject source path).2 := by
  simp only [TypeConverter.setObject]
  by_cases hp : path.isEmpty = true
  · rw [if_pos hp, if_pos hp]
    exact ⟨rfl, rfl⟩
  · rw [if_neg hp, if_neg hp]
    cases (Json.parsePointer path).bind (fun tokens => source.getAt tokens) with
    | none => exact ⟨rfl, sameView_of_native rfl (fun h => nomatch h)⟩
    | some j =>
        dsimp only
        split
        · exact ⟨rfl, rfl⟩
        · exact ⟨rfl, rfl⟩

/-! ### The getters see the view only -/

section Getters

variable {v w : TypeConverter}

theorem getString_congr (lib : Lib) (h : SameView v w) :
    v.getString lib = w.getString lib := by
  simp only [TypeConverter.getString]
  rw [← h.native_eq]
  cases hn : v.native with
  | object => rw [h.json_eq hn]
  | string s => rfl
  | integer i => rfl
  | unsigned u => rfl
  | float f => rfl
  | boolean b => rfl

theorem getInteger_congr (lib : Lib) (h : SameView v w) :
    v.getInteger lib = w.getInteger lib := by
  simp only [TypeConverter.getInteger]
  rw [h.native_eq]

theorem getUnsigned_congr (lib : Lib) (h : SameView v w) :
    v.getUnsigned lib = w.getUnsigned lib := by
  simp only [TypeConverter.getUnsigned]
  rw [h.native_eq]

theorem getFloat_congr (lib : Lib) (h : SameView v w) :
    v.getFloat lib = w.getFloat lib := by
  simp only [TypeConverter.getFloat]
  rw [h.native_eq]

theorem getBoolean_congr (h : SameView v w) : v.getBoolean = w.getBoolean := by
  simp only [TypeConverter.getBoolean]
  rw [h.native_eq]

/-- The result of `getObject` is seen on success only. -/
theorem checkedObject_congr (h : SameView v w) : v.checkedObject = w.checkedObject := by
  simp only [TypeConverter.checkedObject, TypeConverter.getObject, ← h.native_eq]
  cases hn : v.native with
  | object => simp only [h.json_eq hn]
  | string s => rfl
  | integer i => rfl
  | unsigned u => rfl
  | float f => rfl
  | boolean b => rfl

end Getters

/-! ## The vault -/

/-- `Vault::load`. -/
def Vault.load (vault : Vault) (name : String) (value : Json) : Vault :=
  vault.insert name value

/-- `Vault::loadAtPath`: the entry is made an object first; `false` when the
    path cannot be followed. -/
def Vault.loadAtPath (vault : Vault) (name path : String) (value : Json) :
    Vault × Bool :=
  let current := match vault.lookup name with
    | some (.obj fields) => Json.obj fields
    | _ => .obj []
  match Json.parsePointer path with
  | none => (vault.insert name current, false)
  | some tokens =>
      let (j, ok) := current.setAt tokens value
      (vault.insert name j, ok)

/-! ## Reading documents -/

/-- `j.find(key)`. -/
def findMember (j : Json) (key : String) : Option Json :=
  match j with
  | .obj fields => Json.field key fields
  | _ => none

/-- A mandatory text; the iterator is dereferenced without a test. -/
def mandatoryText (j : Json) (key : String) : Except Fault String :=
  match findMember j key with
  | none => .error .undefined
  | some (.str s) => .ok s
  | some _ => .error .json

/-- A mandatory number, stored in an `int`. -/
def mandatoryInt (lib : Lib) (j : Json) (key : String) : Except Fault Int :=
  match findMember j key with
  | none => .error .undefined
  | some (.int i) => .ok (wrapI32 i)
  | some (.uint n) => .ok (wrapI32 n)
  | some (.float f) => .ok (wrapI32 (lib.floatToI64 f))
  | some (.bool b) => .ok (if b then 1 else 0)
  | some _ => .error .json

/-- An optional flag: the default without a boolean. -/
def optionalFlag (j : Json) (key : String) (default : Bool) : Bool :=
  match findMember j key with
  | some (.bool b) => b
  | _ => default

end H2Convert
