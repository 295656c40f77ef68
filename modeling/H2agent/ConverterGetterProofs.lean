import H2agent.NumberFilterProofs

/-! # The getters of `TypeConverter`

    The class keeps one member for each native type.  A getter of another type writes its result
    into the member of its own type and returns that member, also where the conversion fails and
    nothing was written.  So a call may change the holder, but never the member of the native
    type, and a getter whose conversion fails finds its own member as it was.

    `Holder` has all the members; its abstraction is the holder of the transformation items,
    which has the native value only.

    * `Getter.call_spec`: what a call returns, and what it leaves;
    * `setter_toConverter`: the setters are those of the abstraction;
    * `getters_pure_and_integers_read_back`: no call changes what another one returns, and the
      texts of integers are read back. -/

namespace H2Getter

open CppText H2Convert H2Key H2Number JsonValue

/-! ## The class -/

/-- `TypeConverter::NativeType`. -/
inductive NativeType where
  | String
  | Integer
  | Unsigned
  | Float
  | Boolean
  | Object
  deriving DecidableEq, Repr

/-- `TypeConverter` with all its members. -/
structure Holder where
  s_value : String
  i_value : Int
  u_value : Nat
  f_value : Float
  b_value : Bool
  j_value : Json
  native_type : NativeType

namespace Holder

/-- `clear`; of the JSON member it keeps the kind. -/
def clear (h : Holder) : Holder := ⟨"", 0, 0, 0, false, h.j_value.clear, .String⟩

/-! ### Setters -/

def setString (h : Holder) (str : String) : Holder :=
  { h.clear with s_value := str, native_type := .String }

def setInteger (h : Holder) (i : Int) : Holder :=
  { h.clear with i_value := i, native_type := .Integer }

def setUnsigned (h : Holder) (u : Nat) : Holder :=
  { h.clear with u_value := u, native_type := .Unsigned }

def setFloat (h : Holder) (f : Float) : Holder :=
  { h.clear with f_value := f, native_type := .Float }

def setBoolean (h : Holder) (boolean : Bool) : Holder :=
  { h.clear with b_value := boolean, native_type := .Boolean }

/-- The end of `setObject`: the native type is that of the JSON member; null has none. -/
def adopt (h : Holder) : Holder :=
  match h.j_value with
  | .obj _ => { h with native_type := .Object }
  | .arr _ => { h with native_type := .Object }
  | .str s => { h with s_value := s, native_type := .String }
  | .uint u => { h with u_value := u, native_type := .Unsigned }
  | .int i => { h with i_value := i, native_type := .Integer }
  | .float f => { h with f_value := f, native_type := .Float }
  | .bool b => { h with b_value := b, native_type := .Boolean }
  | .null => h

/-- `setObject`: success, and the holder left. -/
def setObject (h : Holder) (jsonSource : Json) (path : String) : Bool × Holder :=
  if path.isEmpty then (true, { h.clear with j_value := jsonSource }.adopt)
  else
    match (Json.parsePointer path).bind (fun tokens => jsonSource.getAt tokens) with
    | none => (false, h.clear)
    | some j =>
        if j.empty then (false, { h.clear with j_value := j })
        else (true, { h.clear with j_value := j }.adopt)

end Holder

/-- `replaceVariables` on a text in its place: an exception leaves it as far as it was replaced. -/
def replaceInPlace (lib : Lib) (vars : TextMap String) (vault : Vault) :
    List (String × String) → String → Except Fault Unit × String
  | [], str => (.ok (), str)
  | (pattern, name) :: rest, str =>
      match vars.lookup name with
      | some value => replaceInPlace lib vars vault rest (searchReplaceAll str pattern value)
      | none =>
          match vault.lookup name with
          | none => replaceInPlace lib vars vault rest str
          | some j =>
              match jsonToString lib j with
              | .error e => (.error e, str)
              | .ok value => replaceInPlace lib vars vault rest (searchReplaceAll str pattern value)

/-- `setStringReplacingVariables`. -/
def Holder.setStringReplacingVariables (lib : Lib) (h : Holder) (str : String)
    (patterns : List (String × String)) (vars : TextMap String) (vault : Vault) :
    Except Fault Unit × Holder :=
  let h := h.setString str
  if patterns.isEmpty then (.ok (), h)
  else if vars.entries.isEmpty && vault.entries.isEmpty then (.ok (), h)
  else
    let (ended, text) := replaceInPlace lib vars vault patterns h.s_value
    (ended, { h with s_value := text })

/-! ### Getters -/

namespace Holder

/-- `getString`: it always succeeds unless the dump throws. -/
def getString (lib : Lib) (h : Holder) : Except Fault (String × Bool) × Holder :=
  match h.native_type with
  | .Object =>
      match lib.dump h.j_value with
      | none => (.error .json, h)
      | some text => (.ok (text, true), { h with s_value := text })
  | .Integer => (.ok (toString h.i_value, true), { h with s_value := toString h.i_value })
  | .Unsigned => (.ok (toString h.u_value, true), { h with s_value := toString h.u_value })
  | .Float =>
      (.ok (TypeConverter.trimDecimal (lib.floatText h.f_value), true),
        { h with s_value := TypeConverter.trimDecimal (lib.floatText h.f_value) })
  | .Boolean =>
      (.ok (if h.b_value then "true" else "false", true),
        { h with s_value := if h.b_value then "true" else "false" })
  | .String => (.ok (h.s_value, true), h)

/-- `getInteger`: the member, written where there is something to convert, and success. -/
def getInteger (lib : Lib) (h : Holder) : (Int × Bool) × Holder :=
  match h.native_type with
  | .Object => ((h.i_value, false), h)
  | .String =>
      match stoll h.s_value with
      | none => ((h.i_value, false), h)
      | some i => ((i, true), { h with i_value := i })
  | .Unsigned => ((toI64 h.u_value, true), { h with i_value := toI64 h.u_value })
  | .Float => ((lib.floatToI64 h.f_value, true), { h with i_value := lib.floatToI64 h.f_value })
  | .Boolean =>
      ((if h.b_value then 1 else 0, true), { h with i_value := if h.b_value then 1 else 0 })
  | .Integer => ((h.i_value, true), h)

/-- `getUnsigned`. -/
def getUnsigned (lib : Lib) (h : Holder) : (Nat × Bool) × Holder :=
  match h.native_type with
  | .Object => ((h.u_value, false), h)
  | .String =>
      match stoull h.s_value with
      | none => ((h.u_value, false), h)
      | some u => ((u, true), { h with u_value := u })
  | .Integer => ((toU64 h.i_value, true), { h with u_value := toU64 h.i_value })
  | .Float => ((lib.floatToU64 h.f_value, true), { h with u_value := lib.floatToU64 h.f_value })
  | .Boolean =>
      ((if h.b_value then 1 else 0, true), { h with u_value := if h.b_value then 1 else 0 })
  | .Unsigned => ((h.u_value, true), h)

/-- `getFloat`. -/
def getFloat (lib : Lib) (h : Holder) : (Float × Bool) × Holder :=
  match h.native_type with
  | .Object => ((h.f_value, false), h)
  | .String =>
      match lib.stod h.s_value with
      | none => ((h.f_value, false), h)
      | some f => ((f, true), { h with f_value := f })
  | .Integer => ((.ofInt h.i_value, true), { h with f_value := .ofInt h.i_value })
  | .Unsigned => ((.ofNat h.u_value, true), { h with f_value := .ofNat h.u_value })
  | .Boolean =>
      ((if h.b_value then 1 else 0, true), { h with f_value := if h.b_value then 1 else 0 })
  | .Float => ((h.f_value, true), h)

/-- `getBoolean`. -/
def getBoolean (h : Holder) : (Bool × Bool) × Holder :=
  match h.native_type with
  | .Object => ((h.b_value, false), h)
  | .String => ((!h.s_value.isEmpty, true), { h with b_value := !h.s_value.isEmpty })
  | .Integer => ((h.i_value != 0, true), { h with b_value := h.i_value != 0 })
  | .Unsigned => ((h.u_value != 0, true), { h with b_value := h.u_value != 0 })
  | .Float => ((h.f_value != 0, true), { h with b_value := h.f_value != 0 })
  | .Boolean => ((h.b_value, true), h)

/-- `getObject`: the JSON member in any case. -/
def getObject (h : Holder) : (Json × Bool) × Holder :=
  ((h.j_value, decide (h.native_type = .Object)), h)

/-! ## The abstraction -/

/-- The value of the native type. -/
def native (h : Holder) : NativeValue :=
  match h.native_type with
  | .String => .string h.s_value
  | .Integer => .integer h.i_value
  | .Unsigned => .unsigned h.u_value
  | .Float => .float h.f_value
  | .Boolean => .boolean h.b_value
  | .Object => .object

/-- What the transformation items see of the holder. -/
def toConverter (h : Holder) : TypeConverter := ⟨h.native, h.j_value⟩

/-! ### What a getter does

    Each one converts the native value; where that succeeds it writes the result into its own
    member, and for its own native type writes what is there. -/

variable (lib : Lib) (h : Holder)

theorem getString_ok {s : String} (hs : h.toConverter.getString lib = .ok s) :
    h.getString lib = (.ok (s, true), { h with s_value := s })
      ∧ { h with s_value := s }.toConverter = h.toConverter := by
  obtain ⟨s', i, u, f, b, j, native⟩ := h
  cases native with
  | Object =>
      simp only [toConverter, native, TypeConverter.getString] at hs
      simp only [getString]
      cases hd : lib.dump j with
      | none =>
          rw [hd] at hs
          cases hs
      | some text =>
          rw [hd] at hs
          cases hs
          exact ⟨rfl, rfl⟩
  | String =>
      cases hs
      exact ⟨rfl, rfl⟩
  | Integer =>
      cases hs
      exact ⟨rfl, rfl⟩
  | Unsigned =>
      cases hs
      exact ⟨rfl, rfl⟩
  | Float =>
      cases hs
      exact ⟨rfl, rfl⟩
  | Boolean =>
      cases hs
      exact ⟨rfl, rfl⟩

theorem getString_error {e : Fault} (hs : h.toConverter.getString lib = .error e) :
    h.getString lib = (.error e, h) := by
  obtain ⟨s', i, u, f, b, j, native⟩ := h
  cases native with
  | Object =>
      simp only [toConverter, native, TypeConverter.getString] at hs
      simp only [getString]
      cases hd : lib.dump j with
      | none =>
          rw [hd] at hs
          cases hs
          rfl
      | some text =>
          rw [hd] at hs
          cases hs
  | String => cases hs
  | Integer => cases hs
  | Unsigned => cases hs
  | Float => cases hs
  | Boolean => cases hs

theorem getInteger_eq :
    h.getInteger lib = (h.toConverter.getInteger lib).elim ((h.i_value, false), h)
      fun i => ((i, true), { h with i_value := i }) := by
  obtain ⟨s, i, u, f, b, j, native⟩ := h
  cases native with
  | String =>
      simp only [toConverter, native, TypeConverter.getInteger, getInteger]
      cases stoll s <;> rfl
  | _ => rfl

theorem getUnsigned_eq :
    h.getUnsigned lib = (h.toConverter.getUnsigned lib).elim ((h.u_value, false), h)
      fun u => ((u, true), { h with u_value := u }) := by
  obtain ⟨s, i, u, f, b, j, native⟩ := h
  cases native with
  | String =>
      simp only [toConverter, native, TypeConverter.getUnsigned, getUnsigned]
      cases stoull s <;> rfl
  | _ => rfl

theorem getFloat_eq :
    h.getFloat lib = (h.toConverter.getFloat lib).elim ((h.f_value, false), h)
      fun f => ((f, true), { h with f_value := f }) := by
  obtain ⟨s, i, u, f, b, j, native⟩ := h
  cases native with
  | String =>
      simp only [toConverter, native, TypeConverter.getFloat, getFloat]
      cases lib.stod s <;> rfl
  | _ => rfl

theorem getBoolean_eq :
    h.getBoolean = h.toConverter.getBoolean.elim ((h.b_value, false), h)
      fun b => ((b, true), { h with b_value := b }) := by
  obtain ⟨s, i, u, f, b, j, native⟩ := h
  cases native with
  | _ => rfl

theorem getObject_eq :
    h.getObject = (h.toConverter.checkedObject.elim ((h.j_value, false), h)
      fun j => ((j, true), { h with j_value := j })) := by
  obtain ⟨s, i, u, f, b, j, native⟩ := h
  cases native with
  | _ => rfl

/-- A member that is written does not hold the native value, unless with the value it has. -/
theorem toConverter_i_value {i : Int} (hi : h.toConverter.getInteger lib = some i) :
    { h with i_value := i }.toConverter = h.toConverter := by
  obtain ⟨s, i', u, f, b, j, native⟩ := h
  cases native with
  | Integer =>
      cases hi
      rfl
  | _ => rfl

theorem toConverter_u_value {u : Nat} (hu : h.toConverter.getUnsigned lib = some u) :
    { h with u_value := u }.toConverter = h.toConverter := by
  obtain ⟨s, i, u', f, b, j, native⟩ := h
  cases native with
  | Unsigned =>
      cases hu
      rfl
  | _ => rfl

theorem toConverter_f_value {f : Float} (hf : h.toConverter.getFloat lib = some f) :
    { h with f_value := f }.toConverter = h.toConverter := by
  obtain ⟨s, i, u, f', b, j, native⟩ := h
  cases native with
  | Float =>
      cases hf
      rfl
  | _ => rfl

theorem toConverter_b_value {b : Bool} (hb : h.toConverter.getBoolean = some b) :
    { h with b_value := b }.toConverter = h.toConverter := by
  obtain ⟨s, i, u, f, b', j, native⟩ := h
  cases native with
  | Boolean =>
      cases hb
      rfl
  | _ => rfl

theorem toConverter_j_value {j : Json} (hj : h.toConverter.checkedObject = some j) :
    { h with j_value := j } = h := by
  obtain ⟨s, i, u, f, b, j', native⟩ := h
  cases native with
  | Object =>
      cases hj
      rfl
  | _ => cases hj

end Holder

/-! ## Calls -/

/-- The six getters. -/
inductive Getter where
  | getString
  | getInteger
  | getUnsigned
  | getFloat
  | getBoolean
  | getObject
  deriving DecidableEq, Repr

/-- What a getter returns, beside its flag. -/
inductive Value where
  | string (s : String)
  | integer (i : Int)
  | unsigned (u : Nat)
  | float (f : Float)
  | boolean (b : Bool)
  | object (j : Json)

namespace Getter

/-- A call: value and flag, or the exception that passes through, and the holder left. -/
def call (lib : Lib) (g : Getter) (h : Holder) : Except Fault (Value × Bool) × Holder :=
  match g with
  | .getString => ((h.getString lib).1.map (Prod.map .string id), (h.getString lib).2)
  | .getInteger => (.ok (Prod.map .integer id (h.getInteger lib).1), (h.getInteger lib).2)
  | .getUnsigned => (.ok (Prod.map .unsigned id (h.getUnsigned lib).1), (h.getUnsigned lib).2)
  | .getFloat => (.ok (Prod.map .float id (h.getFloat lib).1), (h.getFloat lib).2)
  | .getBoolean => (.ok (Prod.map .boolean id h.getBoolean.1), h.getBoolean.2)
  | .getObject => (.ok (Prod.map .object id h.getObject.1), h.getObject.2)

/-- The holder after a sequence of calls. -/
def calls (lib : Lib) (gs : List Getter) (h : Holder) : Holder :=
  gs.foldl (fun h g => (g.call lib h).2) h

/-- The member a getter returns. -/
def member (g : Getter) (h : Holder) : Value :=
  match g with
  | .getString => .string h.s_value
  | .getInteger => .integer h.i_value
  | .getUnsigned => .unsigned h.u_value
  | .getFloat => .float h.f_value
  | .getBoolean => .boolean h.b_value
  | .getObject => .object h.j_value

/-- The conversion a getter makes of the native value; `none` is failure. -/
def convert (lib : Lib) (g : Getter) (v : TypeConverter) : Option (Except Fault Value) :=
  match g with
  | .getString => some ((v.getString lib).map .string)
  | .getInteger => (v.getInteger lib).map fun i => .ok (.integer i)
  | .getUnsigned => (v.getUnsigned lib).map fun u => .ok (.unsigned u)
  | .getFloat => (v.getFloat lib).map fun f => .ok (.float f)
  | .getBoolean => v.getBoolean.map fun b => .ok (.boolean b)
  | .getObject => v.checkedObject.map fun j => .ok (.object j)

variable (lib : Lib)

/-- A call of a getter whose conversion gives `o`: it returns what is converted, with success, and
    its own member as it is where nothing can be converted; it changes no other member, and not
    the native value. -/
structure CallSpec (g : Getter) (h : Holder) (o : Option (Except Fault Value))
    (r : Except Fault (Value × Bool) × Holder) : Prop where
  result : r.1 = (o.getD (.ok (g.member h))).map fun value => (value, o.isSome)
  native : r.2.toConverter = h.toConverter
  others : ∀ other : Getter, other ≠ g ∨ o = none → other.member r.2 = other.member h
  own : ∀ value, o = some (.ok value) → g.member r.2 = value
  thrown : ∀ e, o = some (.error e) → r.2 = h

/-- So it is for a getter that writes what it converts into a member of its own. -/
theorem callSpec_of_write {α : Type} (wrap : α → Value) (get : Holder → α)
    (put : Holder → α → Holder) {g : Getter} {h : Holder} (o : Option α)
    (hown : ∀ k, g.member k = wrap (get k)) (hput : ∀ a, get (put h a) = a)
    (hothers : ∀ other : Getter, other ≠ g → ∀ a, other.member (put h a) = other.member h)
    (hnative : ∀ a, o = some a → (put h a).toConverter = h.toConverter) :
    CallSpec g h (o.map fun a => .ok (wrap a))
      (.ok (Prod.map wrap id (o.elim ((get h, false), h) fun a => ((a, true), put h a)).1),
        (o.elim ((get h, false), h) fun a => ((a, true), put h a)).2) := by
  cases o with
  | none =>
      refine ⟨?_, rfl, fun _ _ => rfl, (by rintro _ ⟨⟩), (by rintro _ ⟨⟩)⟩
      show Except.ok (wrap (get h), false) = Except.ok (g.member h, false)
      rw [hown]
  | some a =>
      refine ⟨rfl, hnative a rfl, fun other hother => ?_, fun _ hv => ?_, (by rintro _ ⟨⟩)⟩
      · exact hothers other (hother.resolve_right (by simp)) a
      · show g.member (put h a) = _
        rw [hown, hput]
        cases hv
        rfl

/-- **A CALL** is one of its conversion. -/
theorem call_spec (g : Getter) (h : Holder) :
    CallSpec g h (g.convert lib h.toConverter) (g.call lib h) := by
  cases g with
  | getString =>
      -- the only one that may throw
      simp only [call, convert]
      cases hs : h.toConverter.getString lib with
      | error e =>
          rw [h.getString_error lib hs]
          exact ⟨rfl, rfl, fun _ _ => rfl, (by rintro _ ⟨⟩), fun _ _ => rfl⟩
      | ok s =>
          obtain ⟨hget, hkeep⟩ := h.getString_ok lib hs
          rw [hget]
          refine ⟨rfl, hkeep, fun other hother => ?_, fun _ hv => ?_, (by rintro _ ⟨⟩)⟩
          · cases other with
            | getString => simp at hother
            | _ => rfl
          · cases hv
            rfl
  | getInteger =>
      simp only [call, convert, h.getInteger_eq lib]
      refine callSpec_of_write .integer Holder.i_value (fun h i => { h with i_value := i }) _
        (fun _ => rfl) (fun _ => rfl) ?_ (fun _ => h.toConverter_i_value lib)
      rintro (_ | _) hother i <;> first | rfl | exact absurd rfl hother
  | getUnsigned =>
      simp only [call, convert, h.getUnsigned_eq lib]
      refine callSpec_of_write .unsigned Holder.u_value (fun h u => { h with u_value := u }) _
        (fun _ => rfl) (fun _ => rfl) ?_ (fun _ => h.toConverter_u_value lib)
      rintro (_ | _) hother u <;> first | rfl | exact absurd rfl hother
  | getFloat =>
      simp only [call, convert, h.getFloat_eq lib]
      refine callSpec_of_write .float Holder.f_value (fun h f => { h with f_value := f }) _
        (fun _ => rfl) (fun _ => rfl) ?_ (fun _ => h.toConverter_f_value lib)
      rintro (_ | _) hother f <;> first | rfl | exact absurd rfl hother
  | getBoolean =>
      simp only [call, convert, h.getBoolean_eq]
      refine callSpec_of_write .boolean Holder.b_value (fun h b => { h with b_value := b }) _
        (fun _ => rfl) (fun _ => rfl) ?_ (fun _ => h.toConverter_b_value)
      rintro (_ | _) hother b <;> first | rfl | exact absurd rfl hother
  | getObject =>
      simp only [call, convert, h.getObject_eq]
      refine callSpec_of_write .object Holder.j_value (fun h j => { h with j_value := j }) _
        (fun _ => rfl) (fun _ => rfl) ?_
        (fun _ hj => congrArg Holder.toConverter (h.toConverter_j_value hj))
      rintro (_ | _) hother j <;> first | rfl | exact absurd rfl hother

/-- **STEP LEMMA**: a call does not change what another one returns. -/
theorem call_after_call (g other : Getter) (h : Holder) :
    (g.call lib (other.call lib h).2).1 = (g.call lib h).1 := by
  have hspec := other.call_spec lib h
  rw [(g.call_spec lib (other.call lib h).2).result, (g.call_spec lib h).result, hspec.native]
  by_cases hother : g ≠ other ∨ other.convert lib h.toConverter = none
  · rw [hspec.others g hother]
  · -- the same getter, which succeeded: its member is not looked at
    rw [not_or, not_not] at hother
    obtain ⟨rfl, hsome⟩ := hother
    obtain ⟨converted, hconverted⟩ := Option.ne_none_iff_exists'.mp hsome
    rw [hconverted]
    rfl

/-- **RUN LEMMA**: nor does any sequence of calls. -/
theorem call_after_calls (g : Getter) (gs : List Getter) (h : Holder) :
    (g.call lib (calls lib gs h)).1 = (g.call lib h).1 := by
  induction gs generalizing h with
  | nil => rfl
  | cons other gs ih =>
      rw [calls, List.foldl_cons, ← calls, ih]
      exact call_after_call lib g other h

/-- Nor does it change what a reference that a getter has returned refers to. -/
theorem reference_kept (g : Getter) (gs : List Getter) (h : Holder) :
    g.member (calls lib gs (g.call lib h).2) = g.member (g.call lib h).2 := by
  have hall : ∀ k : Holder, k.toConverter = h.toConverter →
      (∀ value, g.convert lib h.toConverter = some (.ok value) → g.member k = value) →
      g.member (calls lib gs k) = g.member k := by
    intro k hnative hvalue
    induction gs generalizing k with
    | nil => rfl
    | cons other gs ih =>
        have hspec := other.call_spec lib k
        -- only the same getter writes this member, and it writes what is there
        have hkept : g.member (other.call lib k).2 = g.member k := by
          by_cases hother : g ≠ other ∨ other.convert lib k.toConverter = none
          · exact hspec.others g hother
          · rw [not_or, not_not] at hother
            obtain ⟨rfl, hsome⟩ := hother
            obtain ⟨converted, hconverted⟩ := Option.ne_none_iff_exists'.mp hsome
            cases converted with
            | ok value =>
                rw [hspec.own value hconverted, hvalue value (hnative ▸ hconverted)]
            | error e => rw [hspec.thrown e hconverted]
        rw [calls, List.foldl_cons, ← calls, ih _ (hspec.native.trans hnative), hkept]
        intro value hv
        rw [hkept]
        exact hvalue value hv
  have hspec := g.call_spec lib h
  exact hall _ hspec.native hspec.own

end Getter

/-! ## Setters -/

/-- The setters with their arguments. -/
inductive Setter where
  | clear
  | setString (str : String)
  | setStringReplacingVariables (str : String) (patterns : List (String × String))
      (vars : TextMap String) (vault : Vault)
  | setInteger (i : Int)
  | setUnsigned (u : Nat)
  | setFloat (f : Float)
  | setBoolean (boolean : Bool)
  | setObject (jsonSource : Json) (path : String)

/-- The holder a setter leaves, whether it succeeds, fails or throws. -/
def Setter.apply (lib : Lib) (h : Holder) : Setter → Holder
  | .clear => h.clear
  | .setString str => h.setString str
  | .setStringReplacingVariables str patterns vars vault =>
      (h.setStringReplacingVariables lib str patterns vars vault).2
  | .setInteger i => h.setInteger i
  | .setUnsigned u => h.setUnsigned u
  | .setFloat f => h.setFloat f
  | .setBoolean boolean => h.setBoolean boolean
  | .setObject jsonSource path => (h.setObject jsonSource path).2

/-- The text replaced in its place is the one `replaceVariables` gives, or both throw. -/
theorem replaceInPlace_eq (lib : Lib) (vars : TextMap String) (vault : Vault)
    (patterns : List (String × String)) (str : String) :
    (replaceInPlace lib vars vault patterns str).1.map
        (fun _ => (replaceInPlace lib vars vault patterns str).2)
      = replaceEach lib vars vault patterns str := by
  induction patterns generalizing str with
  | nil => rfl
  | cons e rest ih =>
      obtain ⟨pattern, name⟩ := e
      simp only [replaceInPlace, replaceEach]
      cases vars.lookup name with
      | some value => exact ih _
      | none =>
          cases vault.lookup name with
          | none => exact ih _
          | some j =>
              dsimp only
              cases jsonToString lib j with
              | error e => rfl
              | ok value => exact ih _

/-- **SETTERS**: what they leave is what the setters of the abstraction leave. -/
theorem setter_toConverter (lib : Lib) (h : Holder) :
    h.clear.toConverter = h.toConverter.clear
      ∧ (∀ str, (h.setString str).toConverter = h.toConverter.setString str)
      ∧ (∀ i, (h.setInteger i).toConverter = h.toConverter.setInteger i)
      ∧ (∀ u, (h.setUnsigned u).toConverter = h.toConverter.setUnsigned u)
      ∧ (∀ f, (h.setFloat f).toConverter = h.toConverter.setFloat f)
      ∧ (∀ jsonSource path,
        (h.setObject jsonSource path).1 = (h.toConverter.setObject jsonSource path).1
          ∧ (h.setObject jsonSource path).2.toConverter
            = (h.toConverter.setObject jsonSource path).2)
      ∧ ∀ str patterns vars vault,
        (h.setStringReplacingVariables lib str patterns vars vault).1.map
            (fun _ => (h.setStringReplacingVariables lib str patterns vars vault).2.toConverter)
          = (replaceVariables lib str patterns vars vault).map h.toConverter.setString := by
  have hadopt : ∀ j, ({ h.clear with j_value := j } : Holder).adopt.toConverter
      = ⟨TypeConverter.nativeOf j, j⟩ := by
    intro j
    cases j <;> rfl
  refine ⟨rfl, fun _ => rfl, fun _ => rfl, fun _ => rfl, fun _ => rfl, fun jsonSource path => ?_,
    fun str patterns vars vault => ?_⟩
  · simp only [Holder.setObject, TypeConverter.setObject]
    by_cases hpath : path.isEmpty = true
    · rw [if_pos hpath, if_pos hpath]
      exact ⟨rfl, hadopt jsonSource⟩
    · rw [if_neg hpath, if_neg hpath]
      cases (Json.parsePointer path).bind (fun tokens => jsonSource.getAt tokens) with
      | none => exact ⟨rfl, rfl⟩
      | some j =>
          dsimp only
          by_cases hj : j.empty = true
          · rw [if_pos hj, if_pos hj]
            exact ⟨rfl, rfl⟩
          · rw [if_neg hj, if_neg hj]
            exact ⟨rfl, hadopt j⟩
  · simp only [Holder.setStringReplacingVariables, replaceVariables]
    by_cases hpatterns : patterns.isEmpty = true
    · rw [if_pos hpatterns, if_pos hpatterns]
      rfl
    · rw [if_neg hpatterns, if_neg hpatterns]
      by_cases hnone : (vars.entries.isEmpty && vault.entries.isEmpty) = true
      · rw [if_pos hnone, if_pos hnone]
        rfl
      · rw [if_neg hnone, if_neg hnone, ← replaceInPlace_eq]
        dsimp only [Holder.setString]
        cases (replaceInPlace lib vars vault patterns str).1 with
        | error e => rfl
        | ok u => rfl

/-! ## Texts of integers -/

theorem decimalValue_toDigits (n : Nat) : decimalValue (Nat.toDigits 10 n) = n := by
  have h : ∀ ds : List Char, decimalValue ds = Nat.ofDigitChars 10 ds 0 := by
    intro ds
    rw [decimalValue, Nat.ofDigitChars_eq_foldl]
    simp only [Nat.mul_comm]
  rw [h, Nat.ofDigitChars_ten_toDigits]

theorem isDigit_toDigits {n : Nat} : ∀ c ∈ Nat.toDigits 10 n, H2Load.isDigit c = true := by
  intro c hc
  have h := digit_of_isDigit (Nat.isDigit_of_mem_toDigits (by decide) (by decide) hc)
  rw [H2Load.isDigit, Bool.and_eq_true, decide_eq_true_eq, decide_eq_true_eq]
  exact h

/-- The numeral of a natural number is read, also behind a minus sign. -/
theorem signedDigits_repr (n : Nat) : signedDigits 10 (Nat.repr n) = some (false, n) := by
  have h := signedDigits_decimal none Nat.toDigits_ne_nil (isDigit_toDigits (n := n))
  rwa [decimalValue_toDigits, signText, List.nil_append, ← Nat.repr_eq_ofList_toDigits] at h

theorem signedDigits_minus_repr (n : Nat) :
    signedDigits 10 ("-" ++ Nat.repr n) = some (true, n) := by
  have h := signedDigits_decimal (some true) Nat.toDigits_ne_nil (isDigit_toDigits (n := n))
  rwa [decimalValue_toDigits, signText, String.ofList_append, ← Nat.repr_eq_ofList_toDigits] at h

/-- `std::stoull` reads what `std::to_string` writes. -/
theorem stoull_toString {u : Nat} (hu : u < 18446744073709551616) :
    stoull (toString u) = some u := by
  rw [stoull, stoullBase, Nat.toString_eq_repr, signedDigits_repr]
  exact if_pos hu

/-- And so does `std::stoll`. -/
theorem stoll_toString {i : Int} (hi : FitsInt64 i) : stoll (toString i) = some i := by
  cases i with
  | ofNat n =>
      have htext : toString (Int.ofNat n) = Nat.repr n := rfl
      rw [stoll, htext, signedDigits_repr]
      exact if_pos hi
  | negSucc n =>
      have htext : toString (Int.negSucc n) = "-" ++ Nat.repr (n + 1) := rfl
      rw [stoll, htext, signedDigits_minus_repr]
      exact if_pos hi

/-! ## Purity and round trips -/

/-- **PURE GETTERS, AND INTEGERS READ BACK**: after any setter, whatever was in the holder, a
    getter returns after any sequence of calls what it would have returned as the first one;
    and each 64-bit integer, signed or not, is got again from its text. -/
theorem getters_pure_and_integers_read_back (lib : Lib) (h : Holder) :
    (∀ (op : Setter) (gs : List Getter) (g : Getter),
        (g.call lib (Getter.calls lib gs (op.apply lib h))).1 = (g.call lib (op.apply lib h)).1)
      ∧ (∀ i : Int64, ∃ text left,
        (h.setInteger i.toInt).getString lib = (.ok (text, true), left)
          ∧ ((left.setString text).getInteger lib).1 = (i.toInt, true))
      ∧ ∀ u : UInt64, ∃ text left,
        (h.setUnsigned u.toNat).getString lib = (.ok (text, true), left)
          ∧ ((left.setString text).getUnsigned lib).1 = (u.toNat, true) := by
  refine ⟨fun op gs g => g.call_after_calls lib gs _, fun i => ?_, fun u => ?_⟩
  · refine ⟨toString i.toInt, _, rfl, ?_⟩
    rw [Holder.getInteger_eq]
    have hread := @stoll_toString i.toInt ⟨i.le_toInt, i.toInt_lt⟩
    simp only [Holder.toConverter, Holder.native, Holder.setString, TypeConverter.getInteger,
      hread]
    rfl
  · refine ⟨toString u.toNat, _, rfl, ?_⟩
    rw [Holder.getUnsigned_eq]
    have hread := stoull_toString u.toNat_lt
    simp only [Holder.toConverter, Holder.native, Holder.setString, TypeConverter.getUnsigned,
      hread]
    rfl

end H2Getter
