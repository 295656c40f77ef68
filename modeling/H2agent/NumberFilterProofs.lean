import Mathlib.Tactic.NormNum
import H2agent.FilterProofs
import H2agent.TransformationLoadProofs

/-! # Integer `Sum` and `Multiply` — when they are exact

    `load` chooses the arithmetic of the two filters from the JSON kind of the
    amount alone: an amount that is not negative makes it unsigned, whatever
    the source is.  Both getters and both operations agree with the integers
    modulo `2^64`, so the number stored is the right one reduced to the type
    that was chosen; it reads as the right one unless a negative result was
    stored as unsigned.

    * `IntegerSource`: the three kinds of source value and the integer each
      holds; `getInteger_eq`, `getUnsigned_eq` read them;
    * `numberFilter_text`: the text left by the filter, in either arithmetic;
    * `number_filter_exact_iff`: the exact condition, for both provisions and
      for items as `load` leaves them. -/

namespace H2Number

open CppText H2Convert H2Filter H2Key H2Load H2Transformation JsonValue

/-! ## Sources and amounts -/

/-- The number a text of decimal digits denotes. -/
def decimalValue (ds : List Char) : Nat :=
  ds.foldl (fun acc c => acc * 10 + (c.toNat - '0'.toNat)) 0

/-- An optional sign. -/
def signText : Option Bool → List Char
  | none => []
  | some false => ['+']
  | some true => ['-']

/-- The value holds the integer: as a native number, or as a decimal text with
    an optional sign. -/
inductive IntegerSource : TypeConverter → Int → Prop
  | integer {v : TypeConverter} {i : Int} (h : v.native = .integer i) : IntegerSource v i
  | unsigned {v : TypeConverter} {u : Nat} (h : v.native = .unsigned u) : IntegerSource v u
  | text {v : TypeConverter} (sign : Option Bool) (ds : List Char) (hne : ds ≠ [])
      (hds : ∀ c ∈ ds, isDigit c = true)
      (h : v.native = .string (String.ofList (signText sign ++ ds))) :
      IntegerSource v (if sign = some true then -(decimalValue ds : Int) else decimalValue ds)

/-- A JSON integer and what it is. -/
inductive JsonInteger : Json → Int → Prop
  | unsigned (u : Nat) : JsonInteger (.uint u) u
  | integer (i : Int) : JsonInteger (.int i) i

/-- A value of `std::int64_t`. -/
def FitsInt64 (x : Int) : Prop := -9223372036854775808 ≤ x ∧ x < 9223372036854775808

instance (x : Int) : Decidable (FitsInt64 x) := inferInstanceAs (Decidable (_ ∧ _))

/-- The two filters. -/
inductive Operation where
  | Sum
  | Multiply

namespace Operation

def key : Operation → String
  | .Sum => "Sum"
  | .Multiply => "Multiply"

def filterType : Operation → FilterType
  | .Sum => .Sum
  | .Multiply => .Multiply

/-- The mathematical result. -/
def result : Operation → Int → Int → Int
  | .Sum, n, k => n + k
  | .Multiply, n, k => n * k

end Operation

/-! ## Decimal texts -/

theorem digit_range {c : Char} (h : isDigit c = true) : '0' ≤ c ∧ c ≤ '9' := by
  simpa only [isDigit, Bool.and_eq_true, decide_eq_true_eq] using h

/-- In base ten no prefix is skipped. -/
theorem stripHexMark_ten (cs : List Char) : stripHexMark 10 cs = cs := by
  unfold stripHexMark
  split
  · rw [if_neg (fun h => absurd h.1 (by decide))]
  · rfl

/-- No digit is a space or a sign. -/
theorem digit_plain {c : Char} (h : isDigit c = true) :
    isSpace c = false ∧ c ≠ '-' ∧ c ≠ '+' := by
  simp only [isDigit, Bool.and_eq_true, decide_eq_true_eq] at h
  exact plain_of_le h.1

/-- `strtoll` and `strtoull` read sign and magnitude of a decimal text. -/
theorem signedDigits_decimal (sign : Option Bool) {ds : List Char} (hne : ds ≠ [])
    (hds : ∀ c ∈ ds, isDigit c = true) :
    signedDigits 10 (String.ofList (signText sign ++ ds))
      = some (decide (sign = some true), decimalValue ds) := by
  obtain ⟨c, cs, rfl⟩ := List.exists_cons_of_ne_nil hne
  obtain ⟨hspace, hminus, hplus⟩ := digit_plain (hds c (by simp))
  have hdigits := digitsOf_digits (fun c hc => digit_range (hds c hc))
  rw [List.map_cons, ← stripHexMark_ten (c :: cs)] at hdigits
  have hvalue : ofDigitList 10
      ((c.toNat - '0'.toNat) :: cs.map (fun d => d.toNat - '0'.toNat)) = decimalValue (c :: cs) := by
    simp only [decimalValue, ofDigitList, List.foldl_cons, List.foldl_map]
  rw [← hvalue]
  cases sign with
  | none =>
      refine signedDigits_eq ?_ hdigits
      have hdrop : (c :: cs).dropWhile isSpace = c :: cs := by
        simp [hspace]
      rw [String.toList_ofList, signText, List.nil_append, hdrop]
      split
      · rename_i h
        exact absurd (List.cons.inj h).1 hminus
      · rename_i h
        exact absurd (List.cons.inj h).1 hplus
      · rfl
  | some b =>
      cases b with
      | false =>
          refine signedDigits_eq ?_ hdigits
          rw [String.toList_ofList]
          rfl
      | true =>
          refine signedDigits_eq ?_ hdigits
          rw [String.toList_ofList]
          rfl

/-! ## The getters -/

/-- `getInteger` reads the integer a source holds. -/
theorem getInteger_eq (lib : Lib) {v : TypeConverter} {n : Int} (h : IntegerSource v n)
    (hfit : FitsInt64 n) : v.getInteger lib = some n := by
  cases h with
  | integer h => rw [TypeConverter.getInteger, h]
  | unsigned h =>
      rw [TypeConverter.getInteger, h]
      simp only [toI64, wrapI64, Option.some.injEq]
      obtain ⟨h1, h2⟩ := hfit
      omega
  | text sign ds hne hds h =>
      rw [TypeConverter.getInteger, h]
      simp only [stoll, signedDigits_decimal sign hne hds, decide_eq_true_eq]
      exact if_pos hfit

/-- `getUnsigned` reads it modulo `2^64`. -/
theorem getUnsigned_eq (lib : Lib) {v : TypeConverter} {n : Int} (h : IntegerSource v n)
    (hfit : FitsInt64 n) : v.getUnsigned lib = some (toU64 n) := by
  obtain ⟨h1, h2⟩ := hfit
  cases h with
  | integer h => rw [TypeConverter.getUnsigned, h]
  | unsigned h =>
      rw [TypeConverter.getUnsigned, h]
      simp only [toU64, Option.some.injEq]
      omega
  | text sign ds hne hds h =>
      rw [TypeConverter.getUnsigned, h]
      simp only [stoull, stoullBase, signedDigits_decimal sign hne hds, decide_eq_true_eq]
      by_cases hs : sign = some true
      · rw [if_pos hs] at h1 ⊢
        rw [if_pos hs, if_pos (by omega)]
      · rw [if_neg hs] at h1 h2 ⊢
        rw [if_neg hs, if_pos (by omega)]
        simp only [toU64, Option.some.injEq]
        omega

/-! ## The two arithmetics -/

/-- What fits is stored as it is. -/
theorem wrapI64_of_fits {x : Int} (h : FitsInt64 x) : wrapI64 x = x := by
  obtain ⟨h1, h2⟩ := h
  unfold wrapI64
  omega

/-- Reduced operands give the reduced result. -/
theorem wrapU64_result (op : Operation) (n : Int) (k : Nat) :
    wrapU64 (match op with
      | .Sum => toU64 n + k
      | .Multiply => toU64 n * k) = toU64 (op.result n k) := by
  have hn : ((toU64 n : Nat) : Int) = n % 18446744073709551616 := by
    unfold toU64
    omega
  have hcast : ∀ m : Nat, ((wrapU64 m : Nat) : Int) = (m : Int) % 18446744073709551616 := by
    intro m
    unfold wrapU64
    omega
  have hres : ((toU64 (op.result n k) : Nat) : Int) = op.result n k % 18446744073709551616 := by
    unfold toU64
    omega
  apply Int.ofNat_inj.mp
  rw [hcast, hres]
  cases op with
  | Sum =>
      dsimp only
      rw [Nat.cast_add, hn]
      exact Int.emod_add_emod n _ k
  | Multiply =>
      dsimp only
      rw [Nat.cast_mul, hn]
      have hmod : n % 18446744073709551616 * (k : Int) % 18446744073709551616
          = n * k % 18446744073709551616 := by
        rw [Int.mul_emod, Int.emod_emod_of_dvd n (Int.dvd_refl _), ← Int.mul_emod]
      exact hmod

/-- The numeral of a natural number has no sign. -/
theorem minus_notMem_numeral (n : Nat) : '-' ∉ (toString n).toList := by
  intro h
  have hmem : '-' ∈ Nat.toDigits 10 n := by
    have hlist : (toString n).toList = Nat.toDigits 10 n := Nat.toList_repr
    rw [hlist] at h
    exact h
  exact absurd (Nat.isDigit_of_mem_toDigits (by decide) (by decide) hmem) (by decide)

/-- An unsigned number reads as the integer it stands for unless that one is
    negative. -/
theorem toString_toU64_iff {x : Int} (h : FitsInt64 x) :
    toString (toU64 x) = toString x ↔ 0 ≤ x := by
  obtain ⟨h1, h2⟩ := h
  constructor
  · intro heq
    by_contra hneg
    have hminus : '-' ∈ (toString x).toList := by
      obtain ⟨m, rfl⟩ := Int.eq_negSucc_of_lt_zero (by omega : x < 0)
      have hrepr : toString (Int.negSucc m) = "-" ++ Nat.repr (m + 1) := rfl
      rw [hrepr, String.toList_append]
      simp
    exact minus_notMem_numeral _ (heq ▸ hminus)
  · intro hpos
    obtain ⟨m, rfl⟩ := Int.eq_ofNat_of_zero_le hpos
    have hm : toU64 (m : Int) = m := by
      unfold toU64
      omega
    rw [hm]
    rfl

/-! ## The filter -/

/-- The filter passed and left a value that reads as the text. -/
def Leaves (lib : Lib) (result : Except Fault Filtered) (text : String) : Prop :=
  ∃ w, result = .ok ⟨true, [], w⟩ ∧ w.getString lib = .ok text

/-- What the filters of an item with this amount do to a value. -/
def applied (env : Env) (op : Operation) (t : Transformation) (v : TypeConverter) :
    TypeConverter :=
  match op with
  | .Sum => numberFilter env.lib t v (· + ·) (· + ·) (· + ·)
  | .Multiply => numberFilter env.lib t v (· * ·) (· * ·) (· * ·)

/-- The number fields of an item are those of its amount. -/
structure HasAmount (t : Transformation) (op : Operation) (amount : Json) : Prop where
  filterType : t.filterType = op.filterType
  numberType : t.filterNumberType = (loadAmount op.filterType amount).filterNumberType
  i : t.filterI = (loadAmount op.filterType amount).filterI
  u : t.filterU = (loadAmount op.filterType amount).filterU

/-- An item loaded from a document with one of the two filters has its amount. -/
theorem hasAmount_of_load {lib : Lib} {compiles : String → Bool} {j amount : Json}
    {t : Transformation} {onFail : Transformations} {op : Operation}
    (hload : load lib compiles j = .ok (some (t, onFail)))
    (hfilter : H2Load.find "filter" j = some (.obj [(op.key, amount)])) :
    HasAmount t op amount := by
  obtain ⟨_, _, hhead, _⟩ := load_parts hload
  obtain ⟨_, _, filter, source, target, _, _, hf, _, _, rfl⟩ := loadHead_parts hhead
  have hkind : (loadAmount op.filterType amount).filterType = op.filterType := by
    unfold loadAmount
    split <;> rfl
  have hpart : filter = some (loadAmount op.filterType amount) := by
    rw [filterOf, hfilter] at hf
    cases op with
    | Sum =>
        have hf' : some (some (loadAmount .Sum amount)) = some filter := Except.ok.inj hf
        exact (Option.some.inj hf').symm
    | Multiply =>
        have hf' : some (some (loadAmount .Multiply amount)) = some filter := Except.ok.inj hf
        exact (Option.some.inj hf').symm
  rw [hpart]
  exact ⟨hkind, rfl, rfl, rfl⟩

/-- Both provisions apply the filter, and it passes. -/
theorem processFilters_number (env : Env) (vars : TextMap String) (vault : Vault)
    {t : Transformation} {op : Operation} {amount : Json} (h : HasAmount t op amount)
    (v : TypeConverter) :
    AdminServerProvision.processFilters env vars vault t v
        = .ok ⟨true, [], applied env op t v⟩
      ∧ AdminClientProvision.processFilters env vars vault t v
        = .ok ⟨true, [], applied env op t v⟩ := by
  have hf := h.filterType
  cases op with
  | Sum =>
      have hf' : t.filterType = .Sum := hf
      simp [AdminServerProvision.processFilters, AdminClientProvision.processFilters,
        withSource, needsString, sharedFilter, passes, applied, hf']
  | Multiply =>
      have hf' : t.filterType = .Multiply := hf
      simp [AdminServerProvision.processFilters, AdminClientProvision.processFilters,
        withSource, needsString, sharedFilter, passes, applied, hf']

/-- The text the filter leaves: the numeral of the result under a signed amount,
    that of the result modulo `2^64` under an unsigned one. -/
theorem numberFilter_text (env : Env) {t : Transformation} {op : Operation} {amount : Json}
    {v : TypeConverter} {n k : Int} (ht : HasAmount t op amount) (hn : IntegerSource v n)
    (hk : JsonInteger amount k) (hfn : FitsInt64 n) (hfr : FitsInt64 (op.result n k)) :
    ((∃ i, amount = .int i)
        ∧ (applied env op t v).getString env.lib = .ok (toString (op.result n k)))
      ∨ ((¬ ∃ i, amount = .int i)
        ∧ (applied env op t v).getString env.lib = .ok (toString (toU64 (op.result n k)))) := by
  cases hk with
  | integer =>
      -- a signed amount: the arithmetic of `int64_t`
      refine .inl ⟨⟨k, rfl⟩, ?_⟩
      have hnt : t.filterNumberType = 0 := ht.numberType
      have hi : t.filterI = k := ht.i
      cases op with
      | Sum =>
          have hw : wrapI64 (n + k) = n + k := wrapI64_of_fits hfr
          simp only [applied, numberFilter, hnt, hi, getInteger_eq env.lib hn hfn, hw]
          rfl
      | Multiply =>
          have hw : wrapI64 (n * k) = n * k := wrapI64_of_fits hfr
          simp only [applied, numberFilter, hnt, hi, getInteger_eq env.lib hn hfn, hw]
          rfl
  | unsigned u =>
      -- an unsigned one: the arithmetic of `uint64_t`, whatever the sign of the source
      refine .inr ⟨?_, ?_⟩
      · rintro ⟨i, hi⟩
        cases hi
      have hnt : t.filterNumberType = 1 := ht.numberType
      have hu : t.filterU = u := ht.u
      cases op with
      | Sum =>
          have hw : wrapU64 (toU64 n + u) = toU64 (n + u) := wrapU64_result .Sum n u
          simp only [applied, numberFilter, hnt, hu, getUnsigned_eq env.lib hn hfn, hw]
          rfl
      | Multiply =>
          have hw : wrapU64 (toU64 n * u) = toU64 (n * u) := wrapU64_result .Multiply n u
          simp only [applied, numberFilter, hnt, hu, getUnsigned_eq env.lib hn hfn, hw]
          rfl

/-- The filter leaves the numeral of the result exactly when the amount is a
    signed JSON number or the result is not negative. -/
theorem leaves_result_iff (env : Env) {t : Transformation} {op : Operation} {amount : Json}
    {v : TypeConverter} {n k : Int} (ht : HasAmount t op amount) (hn : IntegerSource v n)
    (hk : JsonInteger amount k) (hfn : FitsInt64 n) (hfr : FitsInt64 (op.result n k)) :
    Leaves env.lib (.ok ⟨true, [], applied env op t v⟩) (toString (op.result n k))
      ↔ (∃ i, amount = .int i) ∨ 0 ≤ op.result n k := by
  have hleaves : ∀ text, (applied env op t v).getString env.lib = .ok text →
      (Leaves env.lib (.ok ⟨true, [], applied env op t v⟩) (toString (op.result n k))
        ↔ text = toString (op.result n k)) := by
    intro text htext
    constructor
    · rintro ⟨w, hw, hs⟩
      obtain rfl : applied env op t v = w := congrArg Filtered.holder (Except.ok.inj hw)
      exact Except.ok.inj (htext.symm.trans hs)
    · intro h
      exact ⟨_, rfl, h ▸ htext⟩
  rcases numberFilter_text env ht hn hk hfn hfr with ⟨hint, htext⟩ | ⟨hint, htext⟩
  · exact ⟨fun _ => .inl hint, fun _ => (hleaves _ htext).mpr rfl⟩
  · rw [hleaves _ htext, toString_toU64_iff hfr]
    exact ⟨.inr, fun h => h.resolve_left hint⟩

/-- **EXACT ARITHMETIC**: for integer sources and amounts whose result fits,
    the two filters of both provisions leave the numeral of the result if and
    only if the amount is a signed JSON number, which a parsed document has for
    negative amounts, or the result is not negative. -/
theorem number_filter_exact_iff (env : Env) (vars : TextMap String) (vault : Vault)
    {compiles : String → Bool} {j amount : Json} {t : Transformation}
    {onFail : Transformations} {op : Operation} {v : TypeConverter} {n k : Int}
    (hload : load env.lib compiles j = .ok (some (t, onFail)))
    (hfilter : H2Load.find "filter" j = some (.obj [(op.key, amount)]))
    (hn : IntegerSource v n) (hk : JsonInteger amount k)
    (hfn : FitsInt64 n) (_hfk : FitsInt64 k) (hfr : FitsInt64 (op.result n k)) :
    (Leaves env.lib (AdminServerProvision.processFilters env vars vault t v)
        (toString (op.result n k))
      ↔ (∃ i, amount = .int i) ∨ 0 ≤ op.result n k)
    ∧ (Leaves env.lib (AdminClientProvision.processFilters env vars vault t v)
        (toString (op.result n k))
      ↔ (∃ i, amount = .int i) ∨ 0 ≤ op.result n k) := by
  have ht := hasAmount_of_load hload hfilter
  obtain ⟨hserver, hclient⟩ := processFilters_number env vars vault ht v
  rw [hserver, hclient]
  exact ⟨leaves_result_iff env ht hn hk hfn hfr, leaves_result_iff env ht hn hk hfn hfr⟩

/-- A document that adds an amount to the value `-10`. -/
def sumDocument (amount : Json) : Json :=
  .obj [("filter", .obj [("Sum", amount)]), ("source", .str "value.-10"),
    ("target", .str "response.body.string")]

/-- The item it loads to. -/
def sumItem (amount : Json) : Transformation :=
  assemble (some (loadAmount .Sum amount)) { sourceType := .Value, source := "-10" }
    { targetType := .ResponseBodyString }

theorem load_sumDocument (amount : Json) :
    load idleLib (fun _ => true) (sumDocument amount) = .ok (some (sumItem amount, .nil)) := by
  have hsource : loadSource idleLib "value.-10"
      = .ok (some { sourceType := .Value, source := "-10" }) := by rfl
  have htarget : loadTarget idleLib "response.body.string"
      = .ok (some { targetType := .ResponseBodyString }) := by rfl
  exact load_of_parts rfl rfl rfl hsource htarget rfl

/-- The text `-10` is an integer source. -/
theorem minus_ten_source (v : TypeConverter) : IntegerSource (v.setString "-10") (-10) := by
  have hdigits : ['1', '0'].all isDigit = true := by decide
  have htext : "-10" = String.ofList ['-', '1', '0'] := by decide
  exact .text (some true) ['1', '0'] (by decide) (List.all_eq_true.mp hdigits)
    (congrArg NativeValue.string htext)

/-- A negative amount is added exactly. -/
theorem sum_minus_three_exact :
    Leaves idleEnv.lib
      (AdminServerProvision.processFilters idleEnv ∅ ∅ (sumItem (.int (-3)))
        (TypeConverter.fresh.setString "-10"))
      (toString (Operation.Sum.result (-10) (-3))) := by
  have hfilter : H2Load.find "filter" (sumDocument (.int (-3)))
      = some (.obj [(Operation.Sum.key, .int (-3))]) := rfl
  have h := number_filter_exact_iff idleEnv ∅ ∅ (load_sumDocument (.int (-3))) hfilter
    (minus_ten_source .fresh) (.integer (-3)) ⟨by norm_num, by norm_num⟩ ⟨by norm_num, by norm_num⟩
    (by norm_num [FitsInt64, Operation.result])
  exact h.1.mpr (.inl ⟨-3, rfl⟩)

/-- The value `-10` plus the amount 3, loaded from its document, leaves the
    numeral of `2^64 - 7`. -/
theorem sum_three_not_exact :
    load idleLib (fun _ => true) (sumDocument (.uint 3)) = .ok (some (sumItem (.uint 3), .nil))
      ∧ IntegerSource (TypeConverter.fresh.setString "-10") (-10)
      ∧ JsonInteger (.uint 3) 3 ∧ FitsInt64 (-10) ∧ FitsInt64 3
      ∧ FitsInt64 (Operation.Sum.result (-10) 3)
      ∧ Leaves idleEnv.lib
          (AdminServerProvision.processFilters idleEnv ∅ ∅ (sumItem (.uint 3))
            (TypeConverter.fresh.setString "-10")) "18446744073709551609"
      ∧ ¬ Leaves idleEnv.lib
          (AdminServerProvision.processFilters idleEnv ∅ ∅ (sumItem (.uint 3))
            (TypeConverter.fresh.setString "-10"))
          (toString (Operation.Sum.result (-10) 3)) := by
  have hload := load_sumDocument (.uint 3)
  have hsrc := minus_ten_source .fresh
  have hamount : HasAmount (sumItem (.uint 3)) .Sum (.uint 3) := hasAmount_of_load hload rfl
  have hfn : FitsInt64 (-10) := ⟨by norm_num, by norm_num⟩
  have hfr : FitsInt64 (Operation.Sum.result (-10) 3) := by
    norm_num [FitsInt64, Operation.result]
  have hk : JsonInteger (.uint 3) 3 := .unsigned 3
  obtain ⟨hserver, _⟩ := processFilters_number idleEnv ∅ ∅ hamount
    (TypeConverter.fresh.setString "-10")
  refine ⟨hload, hsrc, hk, hfn, ⟨by norm_num, by norm_num⟩, hfr, ?_, ?_⟩
  · rw [hserver]
    refine ⟨_, rfl, ?_⟩
    rcases numberFilter_text idleEnv hamount hsrc hk hfn hfr with ⟨⟨i, hi⟩, _⟩ | ⟨_, h⟩
    · cases hi
    · exact h
  · rw [hserver, leaves_result_iff idleEnv hamount hsrc hk hfn hfr]
    rintro (⟨i, hi⟩ | hneg)
    · cases hi
    · exact absurd hneg (by decide)

end H2Number
