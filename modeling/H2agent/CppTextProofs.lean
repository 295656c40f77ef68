/-! # C++ numbers and their texts

    The pieces of the C++ standard library the program leans on: two's
    complement wrapping, `std::stoull`, `std::stoll` and `std::to_string`.
    A `std::string` is a Lean `String` with one character per byte.

    `none` stands for the exception the library raises (`invalid_argument`
    when no digit is found, `out_of_range` when the value does not fit). -/

namespace CppText

/-- The value a 64-bit signed variable holds after storing `x`. -/
def wrapI64 (x : Int) : Int :=
  (x + 9223372036854775808) % 18446744073709551616 - 9223372036854775808

/-- The value a 32-bit signed variable holds after storing `x`. -/
def wrapI32 (x : Int) : Int := (x + 2147483648) % 4294967296 - 2147483648

/-- A 32-bit signed result that does not overflow. -/
def fitsI32 (x : Int) : Bool := decide (-2147483648 ≤ x ∧ x < 2147483648)

/-- The value a 64-bit unsigned variable holds after storing `n`. -/
def wrapU64 (n : Nat) : Nat := n % 18446744073709551616

/-- The value a 32-bit unsigned variable holds after storing `n`. -/
def wrapU32 (n : Nat) : Nat := n % 4294967296

/-- `std::int64_t(u)` for an unsigned `u`. -/
def toI64 (n : Nat) : Int := wrapI64 (n : Int)

/-- `std::uint64_t(i)` for a signed `i`. -/
def toU64 (i : Int) : Nat := (i % 18446744073709551616).toNat

/-- `isspace` in the "C" locale. -/
def isSpace (c : Char) : Bool :=
  c == ' ' || c == '\t' || c == '\n' || c == '\x0b' || c == '\x0c' || c == '\r'

/-- From `'0'` on there is no white space and no sign. -/
theorem plain_of_le {c : Char} (h : 48 ≤ c.toNat) : isSpace c = false ∧ c ≠ '-' ∧ c ≠ '+' := by
  have hne : ∀ d : Char, d.toNat < 48 → c ≠ d := by
    intro d hd hcd
    rw [hcd] at h
    omega
  refine ⟨?_, hne '-' (by decide), hne '+' (by decide)⟩
  simp [isSpace, hne ' ' (by decide), hne '\t' (by decide), hne '\n' (by decide),
    hne '\x0b' (by decide), hne '\x0c' (by decide), hne '\x0d' (by decide)]

/-- The value of a digit in bases up to 36, letters in either case. -/
def digitValue (c : Char) : Option Nat :=
  if '0' ≤ c ∧ c ≤ '9' then some (c.toNat - '0'.toNat)
  else if 'a' ≤ c ∧ c ≤ 'z' then some (c.toNat - 'a'.toNat + 10)
  else if 'A' ≤ c ∧ c ≤ 'Z' then some (c.toNat - 'A'.toNat + 10)
  else none

/-- The longest run of digits of the base at the head of a text. -/
def digitsOf (base : Nat) : List Char → List Nat
  | [] => []
  | c :: cs =>
      match digitValue c with
      | some d => if d < base then d :: digitsOf base cs else []
      | none => []

/-- The number a list of digits denotes, most significant first. -/
def ofDigitList (base : Nat) (ds : List Nat) : Nat :=
  ds.foldl (fun acc d => acc * base + d) 0

/-- A decimal digit is worth its distance from `'0'`. -/
theorem digitValue_digit {c : Char} (h : '0' ≤ c ∧ c ≤ '9') :
    digitValue c = some (c.toNat - '0'.toNat) ∧ c.toNat - '0'.toNat < 10 := by
  refine ⟨by rw [digitValue, if_pos h], ?_⟩
  have hle : c.toNat ≤ 57 := h.2
  have h0 : '0'.toNat = 48 := rfl
  omega

/-- The digits start at `'0'`. -/
theorem le_of_digitValue {c : Char} {d : Nat} (h : digitValue c = some d) : 48 ≤ c.toNat := by
  have hle : ∀ e : Char, 48 ≤ e.toNat → e ≤ c → 48 ≤ c.toNat := fun e he hec => Nat.le_trans he hec
  simp only [digitValue] at h
  split at h
  · next hc => exact hle '0' (by decide) hc.1
  · split at h
    · next hc => exact hle 'a' (by decide) hc.1
    · split at h
      · next hc => exact hle 'A' (by decide) hc.1
      · cases h

/-- A text of digits is read to its end. -/
theorem digitsOf_digits {ds : List Char} (hds : ∀ c ∈ ds, '0' ≤ c ∧ c ≤ '9') :
    digitsOf 10 ds = ds.map (fun c => c.toNat - '0'.toNat) := by
  induction ds with
  | nil => rfl
  | cons c ds ih =>
      obtain ⟨hv, hlt⟩ := digitValue_digit (hds c (by simp))
      rw [digitsOf, hv]
      dsimp only
      rw [if_pos hlt, ih (fun d hd => hds d (by simp [hd])), List.map_cons]

/-- The digits of a number and the number of a text of digits. -/
theorem ofDigitList_digits {ds : List Char} (hds : ∀ c ∈ ds, '0' ≤ c ∧ c ≤ '9') :
    ofDigitList 10 (digitsOf 10 ds) = Nat.ofDigitChars 10 ds 0 := by
  rw [digitsOf_digits hds, ofDigitList, Nat.ofDigitChars_eq_foldl, List.foldl_map]
  simp only [Nat.mul_comm]

theorem digit_of_isDigit {c : Char} (h : c.isDigit = true) : '0' ≤ c ∧ c ≤ '9' := by
  simp only [Char.isDigit, Bool.and_eq_true, decide_eq_true_eq] at h
  exact h

/-- A digit is the numeral of its value. -/
theorem toDigits_digit {c : Char} (h : '0' ≤ c ∧ c ≤ '9') :
    Nat.toDigits 10 (c.toNat - '0'.toNat) = [c] := by
  have hlt := (digitValue_digit h).2
  rw [Nat.toDigits_of_lt_base hlt, List.cons.injEq]
  refine ⟨?_, rfl⟩
  apply Char.toNat_inj.mp
  have h1 : 48 ≤ c.toNat := h.1
  have h0 : '0'.toNat = 48 := rfl
  have hd := Nat.toNat_digitChar_of_lt_ten hlt
  omega

/-- Digits read after a number that is not zero are appended to its numeral. -/
theorem toDigits_ofDigitChars {ds : List Char} (hds : ∀ c ∈ ds, '0' ≤ c ∧ c ≤ '9') {n : Nat}
    (hn : 0 < n) : Nat.toDigits 10 (Nat.ofDigitChars 10 ds n) = Nat.toDigits 10 n ++ ds := by
  induction ds generalizing n with
  | nil => rw [Nat.ofDigitChars_nil, List.append_nil]
  | cons d ds ih =>
      have hd := hds d (by simp)
      have hnumeral := Nat.toDigits_append_toDigits (by decide) hn (digitValue_digit hd).2
      rw [toDigits_digit hd] at hnumeral
      rw [Nat.ofDigitChars_cons, ih (fun c hc => hds c (by simp [hc])) (by omega), ← hnumeral,
        List.append_assoc, List.singleton_append]

/-- A text of digits without a leading zero is the numeral of its number. -/
theorem toDigits_decimal {c : Char} {cs : List Char} (hds : ∀ d ∈ c :: cs, '0' ≤ d ∧ d ≤ '9')
    (hzero : c = '0' → cs = []) : Nat.toDigits 10 (Nat.ofDigitChars 10 (c :: cs) 0) = c :: cs := by
  have hc := hds c (by simp)
  rw [Nat.ofDigitChars_cons, Nat.mul_zero, Nat.zero_add]
  by_cases h0 : c = '0'
  · rw [hzero h0, Nat.ofDigitChars_nil, toDigits_digit hc]
  · have hpos : 0 < c.toNat - '0'.toNat := by
      have h1 : 48 ≤ c.toNat := hc.1
      have hne : c.toNat ≠ '0'.toNat := fun h => h0 (Char.toNat_inj.mp h)
      have h48 : '0'.toNat = 48 := rfl
      omega
    rw [toDigits_ofDigitChars (fun d hd => hds d (by simp [hd])) hpos, toDigits_digit hc,
      List.singleton_append]

/-- Base 16 admits the `0x` prefix; a prefix with no digit after it is read as
    the digit `0`. -/
def stripHexMark (base : Nat) (cs : List Char) : List Char :=
  match cs with
  | '0' :: x :: rest =>
      if base = 16 ∧ (x = 'x' ∨ x = 'X') ∧ digitsOf base rest ≠ [] then rest
      else cs
  | _ => cs

/-- Sign and magnitude as `strtoull` and `strtoll` read them: white space, an
    optional sign, then at least one digit.  What follows is ignored. -/
def signedDigits (base : Nat) (s : String) : Option (Bool × Nat) :=
  let cs := s.toList.dropWhile isSpace
  let (negative, rest) := match cs with
    | '-' :: r => (true, r)
    | '+' :: r => (false, r)
    | r => (false, r)
  match digitsOf base (stripHexMark base rest) with
  | [] => none
  | ds => some (negative, ofDigitList base ds)

/-- A text with digits, once its sign is read. -/
theorem signedDigits_eq {base : Nat} {s : String} {negative : Bool} {rest : List Char} {d : Nat}
    {ds : List Nat}
    (hsign : (match s.toList.dropWhile isSpace with
      | '-' :: r => (true, r)
      | '+' :: r => (false, r)
      | r => (false, r)) = (negative, rest))
    (hdigits : digitsOf base (stripHexMark base rest) = d :: ds) :
    signedDigits base s = some (negative, ofDigitList base (d :: ds)) := by
  simp only [signedDigits]
  rw [hsign]
  simp only [hdigits]

/-- `std::stoull(s, nullptr, base)`: a minus sign negates modulo `2^64`. -/
def stoullBase (s : String) (base : Nat) : Option Nat :=
  match signedDigits base s with
  | none => none
  | some (negative, n) =>
      if n < 18446744073709551616 then some (if negative then toU64 (-(n : Int)) else n)
      else none

/-- `std::stoull(s)`. -/
def stoull (s : String) : Option Nat := stoullBase s 10

/-- `std::stoll(s)`. -/
def stoll (s : String) : Option Int :=
  match signedDigits 10 s with
  | none => none
  | some (negative, n) =>
      let v : Int := if negative then -(n : Int) else n
      if -9223372036854775808 ≤ v ∧ v < 9223372036854775808 then some v else none

/-- `atoi(s)`: no digits give zero, and the value is cut to 32 bits. -/
def atoi (s : String) : Int :=
  match signedDigits 10 s with
  | none => 0
  | some (negative, n) => wrapI32 (if negative then -(n : Int) else n)

example : stoull "42abc" = some 42 := by decide +kernel
example : stoull "-1" = some 18446744073709551615 := by decide +kernel
example : stoll "9223372036854775808" = none := by decide +kernel

end CppText
