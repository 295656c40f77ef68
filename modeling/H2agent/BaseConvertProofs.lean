import H2agent.FilterProofs
import H2agent.NumeralProofs

/-! # `BaseConvert`

    The filter reads its source with `std::stoull` and writes the value digit by digit.

    * `base_convert_round_trip`: a numeral of a 64-bit value becomes the numeral of the value
      in the other base without leading zeros, and this one the numeral in the first base;
    * `base_convert_unchanged_iff`: a text that is no numeral stays as it is only when
      `std::stoull` throws: when it finds no digit, or a value beyond 64 bits. -/

namespace H2BaseConvert

open CppText H2Convert H2Filter H2Key H2Transformation JsonValue Numeral

/-! ## Digits -/

/-- The digits, in small or capital letters from ten on. -/
def alphabet (capital : Bool) : List Char :=
  if capital then "0123456789ABCDEFGHIJKLMNOPQRSTUVWXYZ".toList
  else "0123456789abcdefghijklmnopqrstuvwxyz".toList

/-- The character of a digit. -/
def digitChar (capital : Bool) (d : Nat) : Char := (alphabet capital).getD d '0'

theorem digitValue_digitChar (capital : Bool) :
    ∀ d < 36, digitValue (digitChar capital d) = some d := by
  cases capital <;> decide

theorem baseDigit_eq (capital : Bool) :
    ∀ d < 36, baseDigit capital (wrapI32 (d : Nat)) = digitChar capital d := by
  cases capital <;> decide

theorem natDigitChar_eq (capital : Bool) : ∀ d < 10, Nat.digitChar d = digitChar capital d := by
  cases capital <;> decide

/-- The numeral of a number in a base. -/
def numeralText (capital : Bool) (base n : Nat) : String :=
  String.ofList (numeral base (digitChar capital) n)

/-- The text is a numeral of the number in a base, with letters in either case. -/
def IsNumeral (base n : Nat) (text : List Char) : Prop := Denotes digitValue base text n

theorem isNumeral_numeral {base : Nat} (h : 2 ≤ base) (h' : base ≤ 36) (capital : Bool) (n : Nat) :
    IsNumeral base n (numeral base (digitChar capital) n) :=
  numeral_denotes (fun d hd => digitValue_digitChar capital d (by omega)) h n

/-! ## Reading -/

/-- Whether a text has a minus sign, and what is left of it behind white space and a sign. -/
def signOf (text : List Char) : Bool × List Char :=
  match text.dropWhile isSpace with
  | '-' :: r => (true, r)
  | '+' :: r => (false, r)
  | r => (false, r)

/-- The digits `std::stoull` finds. -/
def leadingDigits (base : Nat) (text : List Char) : List Nat :=
  digitsOf base (stripHexMark base (signOf text).2)

/-- A text of digits is read to its end. -/
theorem digitsOf_all {base : Nat} {text : List Char} (h : ∀ c ∈ text, IsDigit digitValue base c) :
    digitsOf base text = text.map fun c => (digitValue c).getD 0 := by
  induction text with
  | nil => rfl
  | cons c text ih =>
      obtain ⟨d, hd, hlt⟩ := h c (List.mem_cons_self ..)
      rw [digitsOf, hd]
      dsimp only
      rw [if_pos hlt, ih fun e he => h e (List.mem_cons_of_mem _ he), List.map_cons, hd,
        Option.getD_some]

/-- The digits are those of a first part of the text. -/
theorem exists_digitsOf (base : Nat) (text : List Char) :
    ∃ digits rest, text = digits ++ rest ∧ (∀ c ∈ digits, IsDigit digitValue base c)
      ∧ digitsOf base text = digitsOf base digits := by
  induction text with
  | nil => exact ⟨[], [], rfl, fun c hc => absurd hc List.not_mem_nil, rfl⟩
  | cons c text ih =>
      by_cases hc : IsDigit digitValue base c
      · obtain ⟨digits, rest, rfl, hdigits, hof⟩ := ih
        refine ⟨c :: digits, rest, rfl, List.forall_mem_cons.mpr ⟨hc, hdigits⟩, ?_⟩
        simp only [digitsOf, hof]
      · refine ⟨[], c :: text, rfl, fun c hc => absurd hc List.not_mem_nil, ?_⟩
        simp only [digitsOf]
        split
        · next d hd => exact if_neg fun hlt => hc ⟨d, hd, hlt⟩
        · rfl

/-- The digits add up to the number of their text. -/
theorem ofDigitList_digitsOf {base : Nat} {text : List Char}
    (h : ∀ c ∈ text, IsDigit digitValue base c) :
    ofDigitList base (digitsOf base text) = number digitValue base text := by
  rw [digitsOf_all h, ofDigitList, List.foldl_map, number_eq_foldl]

/-- No digit is a space or a sign. -/
theorem digit_plain {base : Nat} {c : Char} (h : IsDigit digitValue base c) :
    isSpace c = false ∧ c ≠ '-' ∧ c ≠ '+' := by
  obtain ⟨d, hd, -⟩ := h
  exact plain_of_le (le_of_digitValue hd)

/-- A text that starts with a digit has no white space and no sign. -/
theorem signOf_digit {base : Nat} {c : Char} {rest : List Char}
    (h : IsDigit digitValue base c) : signOf (c :: rest) = (false, c :: rest) := by
  obtain ⟨hspace, hminus, hplus⟩ := digit_plain h
  have hdrop : (c :: rest).dropWhile isSpace = c :: rest := by
    rw [List.dropWhile_cons, hspace]
    rfl
  rw [signOf, hdrop]
  split
  · next heq => exact absurd (List.cons.inj heq).1 hminus
  · next heq => exact absurd (List.cons.inj heq).1 hplus
  · rfl

/-- Sign and value of the digits, when there are any. -/
theorem signedDigits_signOf (base : Nat) (s : String) :
    signedDigits base s =
      if leadingDigits base s.toList = [] then none
      else some ((signOf s.toList).1, ofDigitList base (leadingDigits base s.toList)) := by
  simp only [signedDigits]
  split
  · next h => exact (if_pos h).symm
  · next h => exact (if_neg h).symm

/-- Nothing is read exactly when there is no digit or the value is beyond 64 bits; else a
    value of 64 bits is, that of the digits where there is no minus sign. -/
theorem readInBase_eq {base : Nat} (h : 2 ≤ base) (h' : base ≤ 36) (s : String) :
    readInBase s base =
      if leadingDigits base s.toList = []
          ∨ 18446744073709551616 ≤ ofDigitList base (leadingDigits base s.toList) then none
      else some (if (signOf s.toList).1 then toU64 (-(ofDigitList base (leadingDigits base s.toList)))
        else ofDigitList base (leadingDigits base s.toList)) := by
  have hzero : ¬ (base : Int) = 0 := by omega
  have hrange : 2 ≤ (base : Int) ∧ (base : Int) ≤ 36 := by omega
  rw [readInBase, if_neg hzero, if_pos hrange, Int.toNat_natCast, stoullBase, signedDigits_signOf]
  by_cases hnil : leadingDigits base s.toList = []
  · rw [if_pos hnil, if_pos (.inl hnil)]
  · rw [if_neg hnil]
    dsimp only
    by_cases hbig : 18446744073709551616 ≤ ofDigitList base (leadingDigits base s.toList)
    · rw [if_neg (Nat.not_lt.mpr hbig), if_pos (.inr hbig)]
    · rw [if_pos (Nat.lt_of_not_le hbig), if_neg (not_or.mpr ⟨hnil, hbig⟩)]

/-- Among digits there is no prefix to skip. -/
theorem stripHexMark_digits {base : Nat} {text : List Char}
    (h : ∀ c ∈ text, IsDigit digitValue base c) : stripHexMark base text = text := by
  have hmark : ∀ x, digitValue x = some 33 → ¬ IsDigit digitValue 16 x := by
    rintro x hx ⟨d, hd, hlt⟩
    rw [hx] at hd
    injection hd with hd
    omega
  unfold stripHexMark
  split
  · next x rest =>
      refine if_neg ?_
      rintro ⟨rfl, hx, -⟩
      have hdigit := h x (List.mem_cons_of_mem _ (List.mem_cons_self ..))
      rcases hx with rfl | rfl
      · exact hmark 'x' (by decide) hdigit
      · exact hmark 'X' (by decide) hdigit
  · rfl

/-- What is read of a text that starts with a digit and has no prefix. -/
theorem leadingDigits_digit {base : Nat} {c : Char} {rest : List Char}
    (h : IsDigit digitValue base c) :
    leadingDigits base (c :: rest) = digitsOf base (stripHexMark base (c :: rest)) := by
  rw [leadingDigits, signOf_digit h]

/-- A numeral is read. -/
theorem readInBase_numeral {base n : Nat} (h : 2 ≤ base) (h' : base ≤ 36) {s : String}
    (hs : IsNumeral base n s.toList) (hn : n < 18446744073709551616) :
    readInBase s base = some n := by
  obtain ⟨c, rest, htext⟩ := List.exists_cons_of_ne_nil hs.ne_nil
  have hdigits := hs.digits
  rw [htext] at hdigits
  have hc := hdigits c (List.mem_cons_self ..)
  have hleading : leadingDigits base s.toList = digitsOf base (c :: rest) := by
    rw [htext, leadingDigits_digit hc, stripHexMark_digits hdigits]
  have hne : leadingDigits base s.toList ≠ [] := by
    rw [hleading, digitsOf_all hdigits, List.map_cons]
    exact List.cons_ne_nil _ _
  have hvalue : ofDigitList base (leadingDigits base s.toList) = n := by
    rw [hleading, ofDigitList_digitsOf hdigits, ← hs.number, htext]
  rw [readInBase_eq h h', hvalue, if_neg (not_or.mpr ⟨hne, by omega⟩), htext, signOf_digit hc]
  rfl

theorem readInBase_lt {base n : Nat} (h : 2 ≤ base) (h' : base ≤ 36) {s : String}
    (hn : readInBase s base = some n) : n < 18446744073709551616 := by
  rw [readInBase_eq h h'] at hn
  split at hn
  · cases hn
  · next hsmall =>
      injection hn with hn
      rw [← hn]
      split
      · unfold toU64
        omega
      · omega

/-! ## Writing -/

/-- The loop adds the digits of the number in front, and ends within as many rounds as the
    number has digits. -/
theorem digitsLoop_eq {base : Nat} (h : 2 ≤ base) (h' : base ≤ 36) (capital : Bool) (fuel : Nat) :
    ∀ (n : Nat) (acc : List Char), n < base ^ fuel →
      digitsLoop capital base fuel n acc
        = (Nat.digits base n).reverse.map (digitChar capital) ++ acc := by
  induction fuel with
  | zero =>
      intro n acc hn
      have h0 : n = 0 := by
        rw [Nat.pow_zero] at hn
        omega
      rw [h0, Nat.digits_zero]
      rfl
  | succ fuel ih =>
      intro n acc hn
      rw [digitsLoop]
      split
      · next h0 =>
          rw [h0, Nat.digits_zero]
          rfl
      · next h0 =>
          have hdigit : n % base < 36 := Nat.lt_of_lt_of_le (Nat.mod_lt _ (by omega)) h'
          have hquot : n / base < base ^ fuel := by
            rw [Nat.div_lt_iff_lt_mul (by omega), ← Nat.pow_succ]
            exact hn
          rw [ih _ _ hquot, baseDigit_eq capital _ hdigit,
            Nat.digits_def' h (Nat.pos_of_ne_zero h0), List.reverse_cons, List.map_append,
            List.map_singleton, List.append_assoc, List.singleton_append]

/-- `std::to_string` writes the numeral in base ten. -/
theorem toDigits_eq_numeral (capital : Bool) (n : Nat) :
    Nat.toDigits 10 n = numeral 10 (digitChar capital) n := by
  induction n using Nat.strongRecOn with
  | ind n ih =>
      rw [Nat.toDigits_eq_if (by decide), numeral_eq (by decide)]
      split
      · next hlt => rw [Nat.mod_eq_of_lt hlt, natDigitChar_eq capital n hlt, List.nil_append]
      · next hle =>
          rw [ih (n / 10) (by omega), natDigitChar_eq capital _ (Nat.mod_lt _ (by decide))]

/-- An item that converts. -/
structure Converts (t : Transformation) (baseIn baseOut : Nat) (capital : Bool) : Prop where
  filterType : t.filterType = .BaseConvert
  baseIn : t.filterI = baseIn
  baseOut : t.filterU = baseOut
  capital : (t.filterNumberType != 0) = capital

variable {t : Transformation} {baseIn baseOut : Nat} {capital : Bool}

/-- A value that is read is written as its numeral, anything else stays as it is. -/
theorem baseConvert_eq (ht : Converts t baseIn baseOut capital) (hin : 2 ≤ baseIn)
    (hin' : baseIn ≤ 36) (hout : 2 ≤ baseOut) (hout' : baseOut ≤ 36) (source : String) :
    baseConvert t source
      = .ok (((readInBase source baseIn).map (numeralText capital baseOut)).getD source) := by
  have hwrapIn : wrapI32 (baseIn : Nat) = baseIn := by
    unfold wrapI32
    omega
  have hwrapOut : wrapI32 (baseOut : Nat) = baseOut := by
    unfold wrapI32
    omega
  have hbase : toU64 baseOut = baseOut := by
    unfold toU64
    omega
  simp only [baseConvert, ht.baseIn, ht.baseOut, hwrapIn, hwrapOut, hbase, ht.capital]
  cases hread : readInBase source baseIn with
  | none => rfl
  | some n =>
      have hn := readInBase_lt hin hin' hread
      simp only [Option.map_some, Option.getD_some]
      split
      · next h10 =>
          have h10 : baseOut = 10 := by omega
          rw [h10, numeralText, ← toDigits_eq_numeral, ← Nat.repr_eq_ofList_toDigits]
          rfl
      · split
        · next h0 =>
            rw [h0, numeralText, numeral_zero]
            cases capital <;> rfl
        · next h0 =>
            have hfuel : n < baseOut ^ 64 :=
              Nat.lt_of_lt_of_le hn (Nat.pow_le_pow_left hout 64)
            rw [if_neg (by omega), if_neg (by omega), digitsLoop_eq hout hout' capital 64 n [] hfuel,
              List.append_nil, numeralText, numeral_of_ne h0]

/-! ## The filter -/

/-- Both provisions leave this text of a source. -/
def ConvertsTo (t : Transformation) (source text : String) : Prop :=
  ∀ env vars vault v, v.getString env.lib = .ok source →
    AdminServerProvision.processFilters env vars vault t v = passes (v.setString text)
      ∧ AdminClientProvision.processFilters env vars vault t v = passes (v.setString text)

theorem convertsTo_iff (ht : t.filterType = .BaseConvert) (source text : String) :
    ConvertsTo t source text ↔ baseConvert t source = .ok text := by
  have hfilter : ∀ (env : Env) (vars : TextMap String) (vault : Vault) (v : TypeConverter),
      v.getString env.lib = .ok source →
      AdminServerProvision.processFilters env vars vault t v = passesText v (baseConvert t source)
        ∧ AdminClientProvision.processFilters env vars vault t v
          = passesText v (baseConvert t source) := by
    intro env vars vault v hv
    simp only [AdminServerProvision.processFilters, AdminClientProvision.processFilters,
      withSource, needsString, ht, if_true, hv, sharedFilter, and_self]
  constructor
  · intro h
    have hv : (TypeConverter.fresh.setString source).getString idleEnv.lib = .ok source := rfl
    have hsame := (hfilter idleEnv ∅ ∅ _ hv).1.symm.trans (h idleEnv ∅ ∅ _ hv).1
    cases hconvert : baseConvert t source with
    | error e =>
        rw [hconvert] at hsame
        cases hsame
    | ok converted =>
        rw [hconvert] at hsame
        have hholder := congrArg (fun f => f.map fun f => f.holder.native) hsame
        injection hholder with hnative
        injection hnative with htext
        rw [htext]
  · intro h env vars vault v hv
    have hboth := hfilter env vars vault v hv
    rw [h] at hboth
    exact hboth

/-- **ROUND TRIP**: a numeral of a 64-bit value becomes the numeral of the value in the other
    base, and this one the numeral in the first base. -/
theorem base_convert_round_trip {a b n : Nat} (ha : 2 ≤ a) (ha' : a ≤ 36) (hb : 2 ≤ b)
    (hb' : b ≤ 36) (hn : n < 18446744073709551616) {t t' : Transformation} {capital capital' : Bool}
    (ht : Converts t a b capital) (ht' : Converts t' b a capital') {source : String}
    (hsource : IsNumeral a n source.toList) :
    ConvertsTo t source (numeralText capital b n)
      ∧ ConvertsTo t' (numeralText capital b n) (numeralText capital' a n) := by
  have hback : IsNumeral b n (numeralText capital b n).toList := by
    rw [numeralText, String.toList_ofList]
    exact isNumeral_numeral hb hb' capital n
  constructor
  · rw [convertsTo_iff ht.filterType, baseConvert_eq ht ha ha' hb hb',
      readInBase_numeral ha ha' hsource hn]
    rfl
  · rw [convertsTo_iff ht'.filterType, baseConvert_eq ht' hb hb' ha ha',
      readInBase_numeral hb hb' hback hn]
    rfl

/-- An item from decimal to another base, with capital letters. -/
def convertItem (baseIn baseOut : Nat) : Transformation where
  sourceType := .SVar
  source := "id"
  targetType := .TVar
  target := "id"
  filterType := .BaseConvert
  filterI := baseIn
  filterU := baseOut
  filterNumberType := 1

theorem convertItem_converts (baseIn baseOut : Nat) :
    Converts (convertItem baseIn baseOut) baseIn baseOut true := ⟨rfl, rfl, rfl, rfl⟩

/-- 255 in hexadecimal and back. -/
theorem two_fifty_five_round_trip :
    ConvertsTo (convertItem 10 16) (numeralText true 10 255) (numeralText true 16 255)
      ∧ ConvertsTo (convertItem 16 10) (numeralText true 16 255) (numeralText true 10 255) := by
  refine @base_convert_round_trip 10 16 255 (by decide) (by decide) (by decide) (by decide)
    (by decide) _ _ true true (convertItem_converts 10 16) (convertItem_converts 16 10) _ ?_
  rw [numeralText, String.toList_ofList]
  exact isNumeral_numeral (by decide) (by decide) true 255

/-! ## Texts that are no numerals -/

/-- The text is a numeral of a value of 64 bits; in base 16 it may have the prefix. -/
def IsValid (base : Nat) (text : List Char) : Prop :=
  ∃ n < 18446744073709551616, IsNumeral base n text
    ∨ (base = 16 ∧ ∃ x rest, (x = 'x' ∨ x = 'X') ∧ text = '0' :: x :: rest ∧ IsNumeral 16 n rest)

/-- A numeral has no prefix. -/
theorem stripHexMark_numeral {base : Nat} (h : 2 ≤ base) (h' : base ≤ 36) (capital : Bool)
    (n base' : Nat) :
    stripHexMark base' (numeral base (digitChar capital) n) = numeral base (digitChar capital) n := by
  unfold stripHexMark
  split
  · next x rest htext =>
      have h0 := numeral_head (fun d hd => digitValue_digitChar capital d (by omega)) h htext
        (by decide)
      rw [h0, numeral_zero] at htext
      cases (List.cons.inj htext).2
  · rfl

/-- Of a numeral no digit is left out: those before it have a value too small for the numeral. -/
theorem digits_of_reread {a b n : Nat} (ha : 2 ≤ a) (hb : 2 ≤ b) {capital : Bool}
    {text : List Char} (htext : text = numeral b (digitChar capital) n)
    (hnumeral : IsNumeral b n text) (hnil : digitsOf a text ≠ [])
    (hread : ofDigitList a (digitsOf a text) = n) : ∀ c ∈ text, IsDigit digitValue a c := by
  by_contra hall
  obtain ⟨digits, rest, hsplit, hdigits, hof⟩ := exists_digitsOf a text
  have hlt : n < a ^ digits.length := by
    rw [hof, ofDigitList_digitsOf hdigits] at hread
    rw [← hread]
    exact denoted_lt ha hdigits
  have hrest : rest ≠ [] := by
    intro hrest
    rw [hrest, List.append_nil] at hsplit
    rw [hsplit] at hall
    exact hall hdigits
  have hab : a ≤ b := by
    by_contra hba
    refine hall fun c hc => ?_
    obtain ⟨d, hd, hdb⟩ := hnumeral.digits c hc
    exact ⟨d, hd, by omega⟩
  have hpos : 0 < digits.length := by
    refine List.length_pos_of_ne_nil fun hdigits => hnil ?_
    rw [hof, hdigits]
    rfl
  have hlength : text.length ≤ digits.length := by
    rw [htext]
    exact numeral_length_le hb hpos (hlt.trans_le (Nat.pow_le_pow_left hab _))
  rw [hsplit, List.length_append] at hlength
  have hrestpos := List.length_pos_of_ne_nil hrest
  omega

/-- A text that is read and written as itself is a numeral. -/
theorem isValid_of_reread {a b n : Nat} (ha : 2 ≤ a) (ha' : a ≤ 36) (hb : 2 ≤ b) (hb' : b ≤ 36)
    {capital : Bool} {source : String} (hread : readInBase source a = some n)
    (hwritten : numeralText capital b n = source) : IsValid a source.toList := by
  have hn := readInBase_lt ha ha' hread
  have htext : source.toList = numeral b (digitChar capital) n := by
    rw [← hwritten, numeralText, String.toList_ofList]
  have hnumeral : IsNumeral b n source.toList := by
    rw [htext]
    exact isNumeral_numeral hb hb' capital n
  obtain ⟨c, tail, hcons⟩ := List.exists_cons_of_ne_nil hnumeral.ne_nil
  have hc : IsDigit digitValue b c := hnumeral.digits c (by rw [hcons]; exact List.mem_cons_self ..)
  -- it has no sign and no prefix, so the digits are those it starts with
  have hleading : leadingDigits a source.toList = digitsOf a source.toList := by
    rw [hcons, leadingDigits, signOf_digit hc, ← hcons, htext, stripHexMark_numeral hb hb' capital n]
  have hsign : (signOf source.toList).1 = false := by rw [hcons, signOf_digit hc]
  rw [readInBase_eq ha ha', hleading, hsign] at hread
  split at hread
  · cases hread
  · next hsome =>
      simp only [Bool.false_eq_true, if_false, Option.some.injEq] at hread
      have hall := digits_of_reread ha hb htext hnumeral (not_or.mp hsome).1 hread
      rw [ofDigitList_digitsOf hall] at hread
      exact ⟨n, hn, .inl ⟨hnumeral.ne_nil, hall, hread⟩⟩

/-- **TEXTS THAT ARE NO NUMERALS** stay as they are exactly when `std::stoull` throws: when it
    finds no digit behind white space, sign and prefix, or when the digits it finds have a
    value beyond 64 bits. -/
theorem base_convert_unchanged_iff {a b : Nat} (ha : 2 ≤ a) (ha' : a ≤ 36) (hb : 2 ≤ b)
    (hb' : b ≤ 36) {t : Transformation} {capital : Bool} (ht : Converts t a b capital)
    {source : String} (hsource : ¬ IsValid a source.toList) :
    ConvertsTo t source source ↔ leadingDigits a source.toList = []
      ∨ 18446744073709551616 ≤ ofDigitList a (leadingDigits a source.toList) := by
  rw [convertsTo_iff ht.filterType, baseConvert_eq ht ha ha' hb hb', Except.ok.injEq]
  cases hread : readInBase source a with
  | none =>
      rw [readInBase_eq ha ha'] at hread
      split at hread
      · next hthrows => exact ⟨fun _ => hthrows, fun _ => rfl⟩
      · cases hread
  | some n =>
      rw [Option.map_some, Option.getD_some]
      constructor
      · intro hwritten
        exact absurd (isValid_of_reread ha ha' hb hb' hread hwritten) hsource
      · intro hthrows
        rw [readInBase_eq ha ha', if_pos hthrows] at hread
        cases hread

/-- A text with a letter is no decimal numeral. -/
theorem letter_not_isValid {text : List Char} {c : Char} {d : Nat} (hc : c ∈ text)
    (hvalue : digitValue c = some d) (hd : 10 ≤ d) : ¬ IsValid 10 text := by
  rintro ⟨n, -, h | ⟨h16, -⟩⟩
  · obtain ⟨e, he, hlt⟩ := h.digits c hc
    rw [hvalue] at he
    injection he with hde
    omega
  · cases h16

/-- A word stays as it is. -/
theorem word_unchanged : ConvertsTo (convertItem 10 16) "word" "word" :=
  (base_convert_unchanged_iff (by decide) (by decide) (by decide) (by decide)
    (convertItem_converts 10 16)
    (letter_not_isValid (List.mem_cons_self ..) (show digitValue 'w' = some 32 from by decide)
      (by decide))).mpr (.inl (by decide))

/-- Of `12abc` the first two characters are converted. -/
theorem first_part_converted :
    ¬ IsValid 10 "12abc".toList ∧ ¬ ConvertsTo (convertItem 10 16) "12abc" "12abc" := by
  constructor
  · exact letter_not_isValid (show 'a' ∈ "12abc".toList from by decide)
      (show digitValue 'a' = some 10 from by decide) (by decide)
  · have hread : readInBase "12abc" (10 : Nat) = some 12 := by decide +kernel
    rw [convertsTo_iff rfl, baseConvert_eq (convertItem_converts 10 16) (by decide) (by decide)
      (by decide) (by decide), hread, Option.map_some, Option.getD_some, Except.ok.injEq]
    decide +kernel

end H2BaseConvert
