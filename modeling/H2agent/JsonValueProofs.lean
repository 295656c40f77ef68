import H2agent.CppTextProofs

/-! # JSON values as the C++ library holds them

    The value type with its separate integer, unsigned and float numbers, the
    kind-preserving `clear`, the numeric equality, JSON pointers (checked
    reading, and the unchecked access that creates what is missing), `erase`
    and `merge_patch`.

    An object is its list of members in key order.  An operation of the
    library that raises an exception returns the value it leaves behind and
    `false`: the access that fails half way has already created the first
    half. -/

namespace JsonValue

open CppText

/-- A JSON value. -/
inductive Json where
  | null
  | bool (b : Bool)
  | int (i : Int)
  | uint (n : Nat)
  | float (f : Float)
  | str (s : String)
  | arr (l : List Json)
  | obj (fields : List (String × Json))
  deriving Inhabited

namespace Json

def isNull : Json → Bool
  | .null => true
  | _ => false

def isObject : Json → Bool
  | .obj _ => true
  | _ => false

def isArray : Json → Bool
  | .arr _ => true
  | _ => false

/-- `empty()`: null, and containers without elements. -/
def empty : Json → Bool
  | .null => true
  | .arr l => l.isEmpty
  | .obj fields => fields.isEmpty
  | _ => false

/-- `size()`. -/
def size : Json → Nat
  | .null => 0
  | .arr l => l.length
  | .obj fields => fields.length
  | _ => 1

/-- `clear()` keeps the kind of the value. -/
def clear : Json → Json
  | .null => .null
  | .bool _ => .bool false
  | .int _ => .int 0
  | .uint _ => .uint 0
  | .float _ => .float 0
  | .str _ => .str ""
  | .arr _ => .arr []
  | .obj _ => .obj []

/-! ## Members of an object -/

/-- The member with a key. -/
def field (key : String) : List (String × Json) → Option Json
  | [] => none
  | (k, v) :: rest => if k = key then some v else field key rest

/-- Insert or assign a member, in key order. -/
def setField (key : String) (value : Json) : List (String × Json) → List (String × Json)
  | [] => [(key, value)]
  | (k, v) :: rest =>
      if k = key then (k, value) :: rest
      else if key < k then (key, value) :: (k, v) :: rest
      else (k, v) :: setField key value rest

/-- Erase a member. -/
def dropField (key : String) : List (String × Json) → List (String × Json)
  | [] => []
  | (k, v) :: rest => if k = key then rest else (k, v) :: dropField key rest

/-- `contains(key)`. -/
def contains (j : Json) (key : String) : Bool :=
  match j with
  | .obj fields => (field key fields).isSome
  | _ => false

/-- `j[key]` of a constant object. -/
def member (j : Json) (key : String) : Json :=
  match j with
  | .obj fields => (field key fields).getD .null
  | _ => .null

/-! ## Equality -/

mutual

/-- `==`: numbers of different kinds are compared after a conversion. -/
def beq : Json → Json → Bool
  | .null, .null => true
  | .bool a, .bool b => a == b
  | .str a, .str b => a == b
  | .int a, .int b => a == b
  | .uint a, .uint b => a == b
  | .float a, .float b => a == b
  | .int a, .uint b => a == toI64 b
  | .uint a, .int b => toI64 a == b
  | .int a, .float b => Float.ofInt a == b
  | .float a, .int b => a == Float.ofInt b
  | .uint a, .float b => Float.ofNat a == b
  | .float a, .uint b => a == Float.ofNat b
  | .arr a, .arr b => beqList a b
  | .obj a, .obj b => beqFields a b
  | _, _ => false

def beqList : List Json → List Json → Bool
  | [], [] => true
  | a :: as, b :: bs => beq a b && beqList as bs
  | _, _ => false

def beqFields : List (String × Json) → List (String × Json) → Bool
  | [], [] => true
  | (k, a) :: as, (k', b) :: bs => k == k' && beq a b && beqFields as bs
  | _, _ => false

end

/-! ## Pointers -/

/-- The pieces of a text between the slashes. -/
def slashPieces : List Char → List (List Char)
  | [] => [[]]
  | c :: cs =>
      if c = '/' then [] :: slashPieces cs
      else
        match slashPieces cs with
        | [] => [[c]]
        | p :: ps => (c :: p) :: ps

/-- `~1` is a slash and `~0` a tilde; any other tilde is an error. -/
def unescape : List Char → Option (List Char)
  | [] => some []
  | '~' :: '0' :: rest => (unescape rest).map ('~' :: ·)
  | '~' :: '1' :: rest => (unescape rest).map ('/' :: ·)
  | '~' :: _ => none
  | c :: rest => (unescape rest).map (c :: ·)

/-- `json_pointer(path)`: the reference tokens; `none` is a parse error. -/
def parsePointer (path : String) : Option (List String) :=
  match path.toList with
  | [] => some []
  | '/' :: rest =>
      (slashPieces rest).mapM (fun p => (unescape p).map String.ofList)
  | _ => none

/-- All characters are digits; so are those of the empty text. -/
def allDigits (token : String) : Bool := token.toList.all (fun c => '0' ≤ c ∧ c ≤ '9')

/-- The index a reference token denotes in an array. -/
def arrayIndex (token : String) : Option Nat :=
  match token.toList with
  | [] => none
  | c :: cs =>
      if (c = '0' ∧ cs ≠ []) ∨ !allDigits token then none
      else
        let n := ofDigitList 10 (digitsOf 10 (c :: cs))
        if n < 18446744073709551615 then some n else none

/-- `at(pointer)`: checked reading. -/
def getAt : List String → Json → Option Json
  | [], j => some j
  | t :: ts, .obj fields => (field t fields).bind (getAt ts)
  | t :: ts, .arr l =>
      if t = "-" then none else ((arrayIndex t).bind (fun n => l[n]?)).bind (getAt ts)
  | _ :: _, _ => none

/-- An array lengthened with nulls. -/
def padTo (n : Nat) (l : List Json) : List Json :=
  l ++ List.replicate (n - l.length) .null

/-- A null that a token goes through becomes an array or an object. -/
def promote (token : String) : Json → Json
  | .null => if allDigits token || token == "-" then .arr [] else .obj []
  | j => j

/-- Change the value `j[pointer]`, which is created when missing.  `false` when
    a token cannot be followed or the change fails; what was created stays. -/
def modifyAt (change : Json → Json × Bool) : List String → Json → Json × Bool
  | [], j => change j
  | t :: ts, j =>
      match promote t j with
      | .obj fields =>
          let (c, ok) := modifyAt change ts ((field t fields).getD .null)
          (.obj (setField t c fields), ok)
      | .arr l =>
          if t = "-" then
            let (c, ok) := modifyAt change ts .null
            (.arr (l ++ [c]), ok)
          else
            match arrayIndex t with
            | none => (.arr l, false)
            | some n =>
                let l := padTo (n + 1) l
                let (c, ok) := modifyAt change ts ((l[n]?).getD .null)
                (.arr (l.set n c), ok)
      | other => (other, false)

/-- `j[pointer] = value`. -/
def setAt (j : Json) (tokens : List String) (value : Json) : Json × Bool :=
  modifyAt (fun _ => (value, true)) tokens j

/-- `erase(key)`, which only objects have. -/
def eraseKey (key : String) : Json → Json × Bool
  | .obj fields => (.obj (dropField key fields), true)
  | j => (j, false)

/-- `erase(begin(), end())`: containers lose their elements, plain values become
    null, null has nothing to erase. -/
def eraseAll : Json → Json × Bool
  | .obj _ => (.obj [], true)
  | .arr _ => (.arr [], true)
  | .null => (.null, false)
  | _ => (.null, true)

/-! ## Merge patch -/

/-- The members of an object; any other value starts as an empty object. -/
def members : Json → List (String × Json)
  | .obj fields => fields
  | _ => []

mutual

/-- `merge_patch`: the value after the patch. -/
def mergePatch (j : Json) : Json → Json
  | .obj patch => .obj (mergeFields (members j) patch)
  | .null => .null
  | .bool b => .bool b
  | .int i => .int i
  | .uint n => .uint n
  | .float f => .float f
  | .str s => .str s
  | .arr l => .arr l

def mergeFields (fields : List (String × Json)) :
    List (String × Json) → List (String × Json)
  | [] => fields
  | (k, v) :: rest =>
      if v.isNull then mergeFields (dropField k fields) rest
      else mergeFields (setField k (mergePatch ((field k fields).getD .null) v) fields) rest

end

example : (Json.null.setAt ["a", "b"] (.int 1)).1 = .obj [("a", .obj [("b", .int 1)])] := rfl

example : mergePatch (.obj [("a", .int 1), ("b", .int 2)])
    (.obj [("a", .null), ("c", .str "x")]) = .obj [("b", .int 2), ("c", .str "x")] := rfl

end Json

end JsonValue
