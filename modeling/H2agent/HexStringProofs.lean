import Mathlib.Data.List.Basic
import Mathlib.Tactic.IntervalCases
import H2agent.TypeConverterProofs

/-! # Hexadecimal strings — which of them `fromHexString` reads right

    The function takes every hexadecimal letter from `'a'`, whatever its case,
    and assembles the byte in an `unsigned char`.  For the high digit the
    difference between the two cases is a multiple of 256 and disappears; for
    the low digit it sets the three upper bits of the byte.

    The loop ends at an `int`: of a text of `2^31` characters it sees nothing,
    and of a longer one at most a part.

    * `fromHexLoop_spec`, `fromHexLoop_success`: the loop accepts exactly the
      digit texts and appends `hexByte` of each pair;
    * `hexByte_eq_iff`: the byte of a pair is the denoted one unless the low
      digit is a capital and the high digit is below `e`;
    * `fromHexString_decodes_iff`: the inputs on which the whole function
      decodes its language. -/

namespace H2Hex

open CppText H2Convert

/-! ## The language -/

/-- The hexadecimal digits, letters in both cases. -/
def digits : List Char := "0123456789abcdefABCDEF".toList

/-- What a hexadecimal digit is worth. -/
def digitValue (c : Char) : Nat :=
  if c ≤ '9' then c.toNat - 48 else if c ≤ 'F' then c.toNat - 55 else c.toNat - 87

/-- The two-digit groups of a text of even length. -/
def pairsOf : List Char → List (Char × Char)
  | hi :: lo :: rest => (hi, lo) :: pairsOf rest
  | _ => []

/-- The byte two digits denote. -/
def denotedByte (p : Char × Char) : Nat := 16 * digitValue p.1 + digitValue p.2

/-- The bytes a text of digits denotes. -/
def denotedBytes (ds : List Char) : List Nat := (pairsOf ds).map denotedByte

/-- `cs` is an optional `0x` followed by the even number of digits `ds`. -/
structure Spells (cs ds : List Char) : Prop where
  marked : cs = ds ∨ cs = '0' :: 'x' :: ds
  even : ds.length % 2 = 0
  all_digits : ∀ c ∈ ds, c ∈ digits

/-- The function decodes its language at this input: a spelled text gives the
    denoted bytes, any other text is refused. -/
structure Decodes (input output : String) : Prop where
  accepted : ∀ ds, Spells input.toList ds →
    fromHexString input output
      = (true, String.ofList ((denotedBytes ds).map Char.ofNat))
  refused : (¬ ∃ ds, Spells input.toList ds) → (fromHexString input output).1 = false

/-! ## Single digits and pairs -/

/-- `isxdigit` accepts the digits of the language. -/
theorem isXDigit_iff (c : Char) : isXDigit c = true ↔ c ∈ digits := by
  constructor
  · intro h
    simp only [isXDigit, Bool.or_eq_true, Bool.and_eq_true, decide_eq_true_eq] at h
    have hc : c = Char.ofNat c.toNat := (Char.ofNat_toNat c).symm
    have hb : (48 ≤ c.toNat ∧ c.toNat ≤ 57) ∨ (97 ≤ c.toNat ∧ c.toNat ≤ 102)
        ∨ (65 ≤ c.toNat ∧ c.toNat ≤ 70) := by
      obtain (⟨h1, h2⟩ | ⟨h1, h2⟩) | ⟨h1, h2⟩ := h
      · exact .inl ⟨h1, h2⟩
      · exact .inr (.inl ⟨h1, h2⟩)
      · exact .inr (.inr ⟨h1, h2⟩)
    rw [hc]
    generalize c.toNat = n at hb
    obtain ⟨h1, h2⟩ | ⟨h1, h2⟩ | ⟨h1, h2⟩ := hb <;> interval_cases n <;> decide
  · intro h
    have hall : digits.all isXDigit = true := by decide
    exact List.all_eq_true.mp hall c h

/-- The byte the loop assembles stays within an `unsigned char`. -/
theorem hexByte_lt {hi lo : Char} (hhi : hi ∈ digits) (hlo : lo ∈ digits) :
    hexByte hi lo < 256 ∧ denotedByte (hi, lo) < 256 := by
  have hall : digits.all (fun h => digits.all (fun l =>
      hexByte h l < 256 ∧ denotedByte (h, l) < 256)) = true := by
    decide +kernel
  have hrow := List.all_eq_true.mp hall hi hhi
  exact of_decide_eq_true (List.all_eq_true.mp hrow lo hlo)

/-- The assembled byte is the denoted one unless the low digit is a capital
    under a high digit below `e`. -/
theorem hexByte_eq_iff {hi lo : Char} (hhi : hi ∈ digits) (hlo : lo ∈ digits) :
    hexByte hi lo = denotedByte (hi, lo)
      ↔ (lo.isUpper = true → 14 ≤ digitValue hi) := by
  have hall : digits.all (fun h => digits.all (fun l =>
      hexByte h l = denotedByte (h, l) ↔ (l.isUpper = true → 14 ≤ digitValue h))) = true := by
    decide +kernel
  have hrow := List.all_eq_true.mp hall hi hhi
  exact of_decide_eq_true (List.all_eq_true.mp hrow lo hlo)

/-- Bytes are told apart by the characters that hold them. -/
theorem ofNat_inj_byte {m n : Nat} (hm : m < 256) (hn : n < 256) :
    Char.ofNat m = Char.ofNat n ↔ m = n := by
  constructor
  · intro h
    have hback : ∀ k < 256, (Char.ofNat k).toNat = k := by decide +kernel
    calc m = (Char.ofNat m).toNat := (hback m hm).symm
      _ = (Char.ofNat n).toNat := by rw [h]
      _ = n := hback n hn
  · intro h
    rw [h]

/-! ## The loop -/

/-- The character the loop appends for a pair. -/
def appended (p : Char × Char) : Char := Char.ofNat (hexByte p.1 p.2)

/-- On digits the loop appends the byte of each pair and succeeds. -/
theorem fromHexLoop_spec (ds acc : List Char) (hds : ∀ c ∈ ds, c ∈ digits) :
    fromHexLoop ds acc = (true, acc.reverse ++ (pairsOf ds).map appended) := by
  -- the recursion takes two characters at a time, and so does `pairsOf`
  induction ds using pairsOf.induct generalizing acc with
  | case1 hi lo rest ih =>
      have hhi : isXDigit hi = true := (isXDigit_iff hi).mpr (hds hi (by simp))
      have hlo : isXDigit lo = true := (isXDigit_iff lo).mpr (hds lo (by simp))
      have hrest : ∀ c ∈ rest, c ∈ digits := by
        intro c hc
        exact hds c (by simp [hc])
      rw [fromHexLoop, hhi, hlo]
      simp only [Bool.not_true, Bool.false_eq_true, if_false]
      rw [ih _ hrest]
      simp [pairsOf, appended]
  | case2 ds hshort =>
      match ds with
      | [] => simp [fromHexLoop, pairsOf]
      | [_] => simp [fromHexLoop, pairsOf]
      | a :: b :: rest => exact absurd rfl (hshort a b rest)

/-- An even text on which the loop succeeds is made of digits. -/
theorem fromHexLoop_success (ds acc : List Char) (heven : ds.length % 2 = 0)
    (h : (fromHexLoop ds acc).1 = true) : ∀ c ∈ ds, c ∈ digits := by
  induction ds using pairsOf.induct generalizing acc with
  | case1 hi lo rest ih =>
      rw [fromHexLoop] at h
      by_cases hhi : isXDigit hi = true
      · by_cases hlo : isXDigit lo = true
        · rw [hhi, hlo] at h
          have hrest := ih _ (by simp only [List.length_cons] at heven; omega) h
          intro c hc
          rcases List.mem_cons.mp hc with rfl | hc
          · exact (isXDigit_iff c).mp hhi
          · rcases List.mem_cons.mp hc with rfl | hc
            · exact (isXDigit_iff c).mp hlo
            · exact hrest c hc
        · simp [hhi, hlo] at h
      · simp [hhi] at h
  | case2 ds hshort =>
      match ds with
      | [] => simp
      | [_] => simp at heven
      | a :: b :: rest => exact absurd rfl (hshort a b rest)

/-! ## The prefix and the length -/

/-- Where the loop ends: the length in an `int`. -/
def loopEnd (length : Nat) : Nat := (wrapI32 length).toNat

theorem loopEnd_of_lt {n : Nat} (h : n < 2147483648) : loopEnd n = n := by
  unfold loopEnd wrapI32
  omega

theorem loopEnd_of_ge {n : Nat} (h : 2147483648 ≤ n) : loopEnd n + 4 ≤ n := by
  unfold loopEnd wrapI32
  omega

theorem loopEnd_even {n : Nat} (h : n % 2 = 0) : loopEnd n % 2 = 0 := by
  unfold loopEnd wrapI32
  omega

/-- What is left of the input after the prefix test. -/
def bodyOf (cs : List Char) : List Char := if cs.take 2 = ['0', 'x'] then cs.drop 2 else cs

/-- What the loop sees of it. -/
def seenOf (cs : List Char) : List Char :=
  if cs.take 2 = ['0', 'x'] then (cs.take (loopEnd cs.length)).drop 2
  else cs.take (loopEnd cs.length)

/-- `fromHexString` refuses odd lengths and runs the loop over what it sees. -/
theorem fromHexString_eq (input output : String) :
    fromHexString input output
      = if input.toList.length % 2 ≠ 0 then (false, output)
        else ((fromHexLoop (seenOf input.toList) []).1,
              String.ofList (fromHexLoop (seenOf input.toList) []).2) := rfl

/-- It sees the beginning, and all of it below `2^31` characters. -/
theorem seenOf_start (cs : List Char) : seenOf cs <+: bodyOf cs := by
  unfold seenOf bodyOf
  split
  · rw [List.drop_take]
    exact List.take_prefix _ _
  · exact List.take_prefix _ _

theorem seenOf_of_lt {cs : List Char} (h : cs.length < 2147483648) : seenOf cs = bodyOf cs := by
  unfold seenOf bodyOf
  rw [loopEnd_of_lt h, List.take_length]

theorem seenOf_even {cs : List Char} (h : cs.length % 2 = 0) : (seenOf cs).length % 2 = 0 := by
  have hend := loopEnd_even h
  unfold seenOf
  split
  · rw [List.length_drop, List.length_take]
    omega
  · rw [List.length_take]
    omega

/-- From `2^31` characters on there is a pair the loop does not see. -/
theorem length_seenOf {cs : List Char} (h : 2147483648 ≤ cs.length) :
    (seenOf cs).length + 2 ≤ (bodyOf cs).length := by
  have hend := loopEnd_of_ge h
  unfold seenOf bodyOf
  split
  · rw [List.length_drop, List.length_drop, List.length_take]
    omega
  · rw [List.length_take]
    omega

/-- The digits of a spelled text are what the prefix test leaves: `x` is no
    digit, so a text of digits never seems to carry the prefix. -/
theorem Spells.body {cs ds : List Char} (h : Spells cs ds) :
    bodyOf cs = ds ∧ cs.length % 2 = 0 := by
  obtain ⟨hm, he, hd⟩ := h
  rcases hm with rfl | rfl
  · refine ⟨if_neg ?_, he⟩
    intro hx
    have hmem : 'x' ∈ cs := List.mem_of_mem_take (by rw [hx]; simp)
    exact absurd (hd 'x' hmem) (by decide)
  · refine ⟨by simp [bodyOf], ?_⟩
    simp only [List.length_cons]
    omega

/-- A text is the prefix, if it is there, and the rest. -/
theorem bodyOf_marked (cs : List Char) : cs = bodyOf cs ∨ cs = '0' :: 'x' :: bodyOf cs := by
  unfold bodyOf
  by_cases hx : cs.take 2 = ['0', 'x']
  · right
    rw [if_pos hx]
    have h := List.take_append_drop 2 cs
    rw [hx] at h
    exact h.symm
  · left
    rw [if_neg hx]

/-- An input is refused for an odd length, or for a character among those seen. -/
theorem refused_iff (input output : String) :
    (fromHexString input output).1 = false
      ↔ input.length % 2 = 1 ∨ ∃ c ∈ seenOf input.toList, c ∉ digits := by
  rw [fromHexString_eq, ← String.length_toList]
  by_cases hodd : input.toList.length % 2 ≠ 0
  · rw [if_pos hodd]
    exact iff_of_true rfl (.inl (by omega))
  · rw [if_neg hodd, ← Bool.not_eq_true]
    have heven : (seenOf input.toList).length % 2 = 0 := seenOf_even (by omega)
    have hloop : (fromHexLoop (seenOf input.toList) []).1 = true
        ↔ ∀ c ∈ seenOf input.toList, c ∈ digits := by
      refine ⟨fromHexLoop_success _ _ heven, fun h => ?_⟩
      rw [fromHexLoop_spec _ [] h]
    rw [hloop]
    simp only [not_forall, exists_prop]
    exact ⟨.inr, fun h => h.resolve_left (by omega)⟩

/-- An accepted input below `2^31` characters spells the digits the loop read. -/
theorem spells_of_success {input : String} (output : String) (hshort : input.length < 2147483648)
    (h : (fromHexString input output).1 = true) :
    Spells input.toList (bodyOf input.toList) := by
  have hno : ¬ (input.length % 2 = 1 ∨ ∃ c ∈ seenOf input.toList, c ∉ digits) := by
    rw [← refused_iff input output, h]
    exact Bool.noConfusion
  rw [← String.length_toList] at hshort hno
  rw [not_or, seenOf_of_lt hshort] at hno
  refine ⟨bodyOf_marked _, ?_, ?_⟩
  · rw [← seenOf_of_lt hshort]
    exact seenOf_even (by omega)
  · intro c hc
    by_contra hnot
    exact hno.2 ⟨c, hc, hnot⟩

/-- A spelled input is accepted, with the appended byte of each of the pairs seen. -/
theorem fromHexString_seen {input : String} {ds : List Char} (output : String)
    (h : Spells input.toList ds) :
    fromHexString input output
      = (true, String.ofList ((pairsOf (seenOf input.toList)).map appended)) := by
  obtain ⟨hbody, heven⟩ := h.body
  have hdigits : ∀ c ∈ seenOf input.toList, c ∈ digits :=
    fun c hc => h.all_digits c (hbody ▸ (seenOf_start _).subset hc)
  rw [fromHexString_eq, if_neg (by omega), fromHexLoop_spec _ [] hdigits]
  rfl

/-- Below `2^31` characters these are all of its pairs. -/
theorem fromHexString_of_spells {input : String} {ds : List Char} (output : String)
    (h : Spells input.toList ds) (hshort : input.length < 2147483648) :
    fromHexString input output = (true, String.ofList ((pairsOf ds).map appended)) := by
  rw [← String.length_toList] at hshort
  rw [fromHexString_seen output h, seenOf_of_lt hshort, h.body.1]

theorem length_pairsOf (ds : List Char) : (pairsOf ds).length = ds.length / 2 := by
  induction ds using pairsOf.induct with
  | case1 hi lo rest ih =>
      rw [pairsOf, List.length_cons, ih, List.length_cons, List.length_cons]
      omega
  | case2 ds hshort =>
      rcases ds with _ | ⟨a, _ | ⟨b, rest⟩⟩
      · rfl
      · simp [pairsOf]
      · exact absurd rfl (hshort a b rest)

/-- From `2^31` characters on some of its bytes are missing. -/
theorem length_fromHexString_lt {input : String} {ds : List Char} (output : String)
    (h : Spells input.toList ds) (hlong : 2147483648 ≤ input.length) :
    (fromHexString input output).2.length < (pairsOf ds).length := by
  rw [← String.length_toList] at hlong
  have hseen := length_seenOf hlong
  rw [h.body.1] at hseen
  rw [fromHexString_seen output h, length_pairsOf, String.length_ofList, List.length_map,
    length_pairsOf]
  omega

/-! ## The inputs that are read right -/

/-- The members of a pair of digits are digits. -/
theorem mem_of_mem_pairsOf {ds : List Char} {p : Char × Char} (hp : p ∈ pairsOf ds) :
    p.1 ∈ ds ∧ p.2 ∈ ds := by
  induction ds using pairsOf.induct with
  | case1 hi lo rest ih =>
      rw [pairsOf] at hp
      rcases List.mem_cons.mp hp with rfl | hp
      · simp
      · obtain ⟨h1, h2⟩ := ih hp
        simp [h1, h2]
  | case2 ds hshort =>
      match ds with
      | [] => cases hp
      | [_] => cases hp
      | a :: b :: rest => exact absurd rfl (hshort a b rest)

/-- **EXACT DECODING**: `fromHexString` decodes its language at an input if and
    only if no pair of the digits it spells has a capital as its low digit
    under a high digit below `e`, and an input of `2^31` characters or more has
    an odd length or a character that is no digit among those the loop sees. -/
theorem fromHexString_decodes_iff (input output : String) :
    Decodes input output
      ↔ (∀ ds, Spells input.toList ds →
          ∀ p ∈ pairsOf ds, p.2.isUpper = true → 14 ≤ digitValue p.1)
        ∧ (2147483648 ≤ input.length →
          input.length % 2 = 1 ∨ ∃ c ∈ seenOf input.toList, c ∉ digits) := by
  have hpair : ∀ {ds}, Spells input.toList ds → ∀ p ∈ pairsOf ds,
      appended p = Char.ofNat (denotedByte p)
        ↔ (p.2.isUpper = true → 14 ≤ digitValue p.1) := by
    intro ds hs p hp
    obtain ⟨h1, h2⟩ := mem_of_mem_pairsOf hp
    have hhi := hs.all_digits _ h1
    have hlo := hs.all_digits _ h2
    obtain ⟨hb1, hb2⟩ := hexByte_lt hhi hlo
    exact (ofNat_inj_byte hb1 hb2).trans (hexByte_eq_iff hhi hlo)
  have hlong : ∀ {ds}, Spells input.toList ds → 2147483648 ≤ input.length →
      fromHexString input output ≠ (true, String.ofList ((denotedBytes ds).map Char.ofNat)) := by
    intro ds hs h heq
    have hlt := length_fromHexString_lt output hs h
    rw [heq, String.length_ofList, List.length_map, denotedBytes, List.length_map] at hlt
    exact Nat.lt_irrefl _ hlt
  constructor
  · intro h
    have hno : 2147483648 ≤ input.length → ¬ ∃ ds, Spells input.toList ds :=
      fun hl ⟨ds, hs⟩ => hlong hs hl (h.accepted ds hs)
    -- a long text that is spelled would have lost bytes, so a long one is refused
    refine ⟨fun ds hs p hp => ?_, fun hl => (refused_iff input output).mp (h.refused (hno hl))⟩
    have hshort : input.length < 2147483648 := Nat.lt_of_not_le fun hl => hno hl ⟨ds, hs⟩
    have heq := (fromHexString_of_spells output hs hshort).symm.trans (h.accepted ds hs)
    have hmap : (pairsOf ds).map appended
        = (pairsOf ds).map (fun q => Char.ofNat (denotedByte q)) := by
      have := congrArg String.toList (Prod.mk.inj heq).2
      simpa [denotedBytes] using this
    exact (hpair hs p hp).mp (List.map_inj_left.mp hmap p hp)
  · rintro ⟨hcapital, hrefused⟩
    refine ⟨?_, ?_⟩
    · intro ds hs
      have hshort : input.length < 2147483648 := by
        by_contra hl
        have hfalse := (refused_iff input output).mpr (hrefused (Nat.le_of_not_lt hl))
        rw [fromHexString_seen output hs] at hfalse
        cases hfalse
      have hmap : (pairsOf ds).map appended = (denotedBytes ds).map Char.ofNat := by
        rw [denotedBytes, List.map_map]
        exact List.map_congr_left (fun p hp => (hpair hs p hp).mpr (hcapital ds hs p hp))
      rw [fromHexString_of_spells output hs hshort, hmap]
    · intro hno
      by_cases hl : 2147483648 ≤ input.length
      · exact (refused_iff input output).mpr (hrefused hl)
      · by_contra hne
        rw [Bool.not_eq_false] at hne
        exact hno ⟨_, spells_of_success output (Nat.lt_of_not_le hl) hne⟩

/-- The text `4A` denotes the byte 74 and is read as 234. -/
theorem capital_low_digit_misread :
    ¬ Decodes "4A" "" ∧ fromHexString "4A" "" = (true, String.ofList [Char.ofNat 234]) := by
  have hread : fromHexString "4A" "" = (true, String.ofList [Char.ofNat 234]) := by decide
  refine ⟨?_, hread⟩
  intro h
  have hdigits : ['4', 'A'].all (fun c => decide (c ∈ digits)) = true := by decide
  have hs : Spells "4A".toList ['4', 'A'] := by
    refine ⟨.inl (by decide), by decide, ?_⟩
    exact fun c hc => of_decide_eq_true (List.all_eq_true.mp hdigits c hc)
  have hsame := hread.symm.trans (h.accepted _ hs)
  exact absurd hsame (by decide)

end H2Hex
