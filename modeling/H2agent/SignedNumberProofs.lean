import H2agent.BaseConvertProofs
import H2agent.NumberFilterProofs
import H2agent.StoreSummaryProofs
import H2agent.TriggeringProofs

/-! # Signed numbers in texts

    `string2uint64andSign` looks for a minus sign at the first character and gives what follows
    to `std::stoull`.  That function has a grammar of its own: it skips white space, takes a
    second sign and negates modulo `2^64` for it, and stops without complaint at the first
    character that is no digit.  So a value is also read from texts that are no signed number,
    and `-5` with a blank in front is a large positive one.

    * `read_of_signedNumber`: what is a signed number is always read as one;
    * `signed_number_exact_iff`: the texts for which nothing else is read either, and with them
      the callers that refuse a text (event numbers, the rate of a trigger, the timeout of a
      wait, the limit of a summary). -/

namespace H2SignedNumber

open CppText H2BaseConvert H2Key H2Load H2Number H2Store H2Summary H2Trigger

/-! ## The grammar -/

/-- An optional minus sign and then digits, at least one, for a value of 64 bits. -/
structure SignedNumber (s : String) (n : Nat) (negative : Bool) : Prop where
  spelled : ∃ digits : List Char, digits ≠ [] ∧ (∀ c ∈ digits, isDigit c = true)
    ∧ s.toList = (if negative then ['-'] else []) ++ digits ∧ decimalValue digits = n
  fits : n < 18446744073709551616

/-- What is left of a text behind a minus sign at its first character. -/
def unsignedPart (s : String) : List Char :=
  match s.toList with
  | '-' :: rest => rest
  | cs => cs

/-! ## The timeout of a wait -/

/-- The timeout of `vault/<key>/wait`: 30 seconds unless a number that is not negative is given,
    stored in an `unsigned int`. -/
def waitTimeout (timeoutMsStr : String) : Nat :=
  if timeoutMsStr.isEmpty then 30000
  else
    match string2uint64andSign timeoutMsStr with
    | some (t, false) => wrapU32 t
    | _ => 30000

/-! ## What is promised -/

/-- The callers refuse a text: an event number addresses no event and removes none, a trigger
    fails, a wait keeps its default timeout, and a summary has no limit. -/
structure RefusedByCallers (s : String) : Prop where
  notValid : ∀ dataKey, (EventKey.mk dataKey s).validNumber = false
  noEvent : ∀ {E : Type} (m : MockData E) dataKey, m.getEvent ⟨dataKey, s⟩ = none
  kept : ∀ {E : Type} (m : MockData E) dataKey, (m.clear ⟨dataKey, s⟩).2 = (false, m)
  rate : ∀ (d : Dynamics) (q : TriggerQuery), q.cps = s → (d.updateTriggering q).1 = false
  timeout : waitTimeout s = 30000
  limit : maxKeysOf s = 18446744073709551615

/-- Read exactly as a signed number; and refused by the callers it is given to when it is none. -/
structure ReadExactly (s : String) : Prop where
  read : ∀ n negative, string2uint64andSign s = some (n, negative) ↔ SignedNumber s n negative
  refused : s ≠ "" → (¬ ∃ n negative, SignedNumber s n negative) → RefusedByCallers s

/-- Behind its minus sign the text has digits only; or what `std::stoull` makes of it, with white
    space and a sign skipped and up to the first character that is no digit, is no number or one
    beyond 64 bits. -/
def NothingElseReadable (s : String) : Prop :=
  (∀ c ∈ unsignedPart s, isDigit c = true) ∨ leadingDigits 10 (unsignedPart s) = []
    ∨ 18446744073709551616 ≤ ofDigitList 10 (leadingDigits 10 (unsignedPart s))

/-! ## The parser -/

theorem unsignedPart_minus {s : String} {rest : List Char} (h : s.toList = '-' :: rest) :
    unsignedPart s = rest := by
  rw [unsignedPart, h]
  rfl

theorem unsignedPart_plain {s : String} (h : s.toList.head? ≠ some '-') :
    unsignedPart s = s.toList := by
  rw [unsignedPart]
  split
  · next rest heq =>
      rw [heq] at h
      exact absurd rfl h
  · rfl

/-- A text is its sign and what is left behind it. -/
theorem toList_eq_sign (s : String) :
    s.toList = (if decide (s.toList.head? = some '-') then ['-'] else []) ++ unsignedPart s := by
  by_cases h : s.toList.head? = some '-'
  · obtain ⟨rest, hrest⟩ := List.head?_eq_some_iff.mp h
    rw [unsignedPart_minus hrest, decide_eq_true h, hrest]
    rfl
  · rw [unsignedPart_plain h, decide_eq_false h]
    rfl

/-- The text that is converted, and its sign. -/
theorem string2uint64andSign_eq (s : String) :
    string2uint64andSign s = if s = "" then none
      else (stoull (String.ofList (unsignedPart s))).map
        fun n => (n, decide (s.toList.head? = some '-')) := by
  rw [string2uint64andSign]
  split
  · next h => rw [if_pos (String.toList_eq_nil_iff.mp h)]
  · next rest h =>
      have hne : s ≠ "" := by
        rintro rfl
        cases h
      rw [if_neg hne, unsignedPart_minus h, h]
      rfl
  · next hnil hminus =>
      have hne : s ≠ "" := fun hs => hnil (String.toList_eq_nil_iff.mpr hs)
      have hhead : s.toList.head? ≠ some '-' := by
        intro h
        obtain ⟨rest, hrest⟩ := List.head?_eq_some_iff.mp h
        exact hminus rest hrest
      rw [if_neg hne, unsignedPart_plain hhead, decide_eq_false hhead, String.ofList_toList]

/-- The value `std::stoull` gives: that of the digits, negated for a minus sign. -/
theorem stoull_eq (s : String) :
    stoull s =
      if leadingDigits 10 s.toList = [] then none
      else if ofDigitList 10 (leadingDigits 10 s.toList) < 18446744073709551616 then
        some (if (signOf s.toList).1 then
            toU64 (-(ofDigitList 10 (leadingDigits 10 s.toList) : Int))
          else ofDigitList 10 (leadingDigits 10 s.toList))
      else none := by
  rw [stoull, stoullBase, signedDigits_signOf]
  by_cases h : leadingDigits 10 s.toList = []
  · rw [if_pos h, if_pos h]
  · rw [if_neg h, if_neg h]

/-- Digits only: their value, when it fits. -/
theorem stoull_digits {digits : List Char} (hne : digits ≠ [])
    (hd : ∀ c ∈ digits, isDigit c = true) :
    stoull (String.ofList digits)
      = if decimalValue digits < 18446744073709551616 then some (decimalValue digits)
        else none := by
  have h := signedDigits_decimal none hne hd
  rw [signText, List.nil_append] at h
  rw [stoull, stoullBase, h]
  rfl

/-! ## What is read -/

/-- The part of a signed number behind its sign, and the sign. -/
theorem SignedNumber.parts {s : String} {n : Nat} {negative : Bool}
    (h : SignedNumber s n negative) :
    unsignedPart s ≠ [] ∧ (∀ c ∈ unsignedPart s, isDigit c = true)
      ∧ decimalValue (unsignedPart s) = n ∧ decide (s.toList.head? = some '-') = negative
      ∧ s ≠ "" := by
  obtain ⟨digits, hne, hd, hs, hn⟩ := h.spelled
  have hs' : s ≠ "" := by
    rintro rfl
    exact hne (List.append_eq_nil_iff.mp hs.symm).2
  cases negative with
  | true =>
      rw [unsignedPart_minus hs, hs]
      exact ⟨hne, hd, hn, rfl, hs'⟩
  | false =>
      have hs : s.toList = digits := hs
      have hhead : s.toList.head? ≠ some '-' := by
        rw [hs]
        intro h
        exact (H2Number.digit_plain (hd '-' (List.mem_of_mem_head? h))).2.1 rfl
      rw [unsignedPart_plain hhead, decide_eq_false hhead, hs]
      exact ⟨hne, hd, hn, rfl, hs'⟩

/-- **EVERY SIGNED NUMBER IS READ**, whatever the text. -/
theorem read_of_signedNumber {s : String} {n : Nat} {negative : Bool}
    (h : SignedNumber s n negative) : string2uint64andSign s = some (n, negative) := by
  obtain ⟨hne, hd, hvalue, hsign, hs⟩ := h.parts
  rw [string2uint64andSign_eq, if_neg hs, stoull_digits hne hd, hvalue, if_pos h.fits, hsign]
  rfl

/-- Where nothing else is readable, what is read is a signed number. -/
theorem signedNumber_of_read {s : String} (hs : NothingElseReadable s) {n : Nat} {negative : Bool}
    (h : string2uint64andSign s = some (n, negative)) : SignedNumber s n negative := by
  rw [string2uint64andSign_eq] at h
  by_cases hempty : s = ""
  · rw [if_pos hempty] at h
    cases h
  rw [if_neg hempty, Option.map_eq_some_iff] at h
  obtain ⟨m, hm, hpair⟩ := h
  obtain ⟨rfl, hsign⟩ := Prod.mk.inj hpair
  have hread := stoull_eq (String.ofList (unsignedPart s))
  rw [String.toList_ofList, hm] at hread
  rcases hs with hdigits | hnone | hlarge
  -- digits to the end: no digit is a blank or a sign, so all of them are read
  · have hne : unsignedPart s ≠ [] := by
      intro hnil
      rw [hnil] at hm
      cases hm
    rw [stoull_digits hne hdigits] at hm
    by_cases hfits : decimalValue (unsignedPart s) < 18446744073709551616
    · rw [if_pos hfits] at hm
      obtain rfl := Option.some.inj hm
      exact ⟨⟨unsignedPart s, hne, hdigits, hsign ▸ toList_eq_sign s, rfl⟩, hfits⟩
    · rw [if_neg hfits] at hm
      cases hm
  -- in the other two cases the library throws, against what was read
  · rw [if_pos hnone] at hread
    cases hread
  · by_cases hnil : leadingDigits 10 (unsignedPart s) = []
    · rw [if_pos hnil] at hread
      cases hread
    · rw [if_neg hnil, if_neg (Nat.not_lt.mpr hlarge)] at hread
      cases hread

/-- Where something else is readable, it is read. -/
theorem read_of_readable {s : String} (hs : ¬ NothingElseReadable s) :
    ∃ n negative, string2uint64andSign s = some (n, negative) := by
  rw [NothingElseReadable, not_or, not_or, Nat.not_le] at hs
  obtain ⟨hdigits, hsome, hfits⟩ := hs
  have hne : s ≠ "" := by
    rintro rfl
    exact hdigits (fun c hc => by cases hc)
  rw [string2uint64andSign_eq, if_neg hne, stoull_eq, String.toList_ofList, if_neg hsome,
    if_pos hfits]
  exact ⟨_, _, rfl⟩

/-! ## The callers -/

/-- A text that is not read is refused wherever it is given. -/
theorem refused_of_not_read {s : String} (hne : s ≠ "") (h : string2uint64andSign s = none) :
    RefusedByCallers s := by
  have hempty : s.isEmpty = false := by
    rw [← Bool.not_eq_true, String.isEmpty_iff]
    exact hne
  have hposition : ∀ dataKey, (EventKey.mk dataKey s).position = none := fun _ => h
  have hnumber : ∀ dataKey, (EventKey.mk dataKey s).hasNumber = true := by
    intro dataKey
    rw [EventKey.hasNumber, hempty]
    rfl
  refine ⟨?_, ?_, ?_, ?_, ?_, ?_⟩
  · intro dataKey
    rw [EventKey.validNumber, hposition]
    rfl
  · intro E m dataKey
    simp only [MockData.getEvent, hposition]
    split
    · rfl
    · split <;> rfl
  · intro E m dataKey
    -- a key with a number does not stand for the whole store
    have hsome : (EventKey.mk dataKey s).empty = false := by
      rw [EventKey.empty, hnumber, Bool.not_true, Bool.and_false]
    simp only [MockData.clear, hsome, hnumber, hposition, Bool.false_eq_true, if_false, if_true]
    split
    · rfl
    · split <;> rfl
  · intro d q hq
    -- the rate is looked at last but one: an earlier text may end the update too
    have hrate : ∀ current, readRate current q.cps = none := by
      intro current
      rw [hq, readRate, hempty, h]
      rfl
    simp only [Dynamics.updateTriggering, hrate]
    split
    · rfl
    · split
      · rfl
      · split <;> rfl
  · rw [waitTimeout, hempty, h]
    rfl
  · rw [maxKeysOf, h]

/-! ## When it is exact -/

/-- **SIGNED NUMBERS**: a text is read exactly as the signed number it is, and refused by the
    callers when it is none, if and only if it has digits only behind its minus sign, or
    `std::stoull` finds no number there or one beyond 64 bits. -/
theorem signed_number_exact_iff (s : String) : ReadExactly s ↔ NothingElseReadable s := by
  constructor
  · intro h
    by_contra hs
    obtain ⟨n, negative, hread⟩ := read_of_readable hs
    exact hs (.inl ((h.read n negative).mp hread).parts.2.1)
  · intro hs
    have hread : ∀ n negative,
        string2uint64andSign s = some (n, negative) ↔ SignedNumber s n negative :=
      fun n negative => ⟨signedNumber_of_read hs, read_of_signedNumber⟩
    refine ⟨hread, fun hne hnone => refused_of_not_read hne ?_⟩
    cases hs' : string2uint64andSign s with
    | none => rfl
    | some p => exact absurd ⟨p.1, p.2, (hread p.1 p.2).mp hs'⟩ hnone

/-- A trigger with a rate below zero, behind a blank. -/
def blankRate : TriggerQuery := ⟨"", "", "", "", " -5", ""⟩

/-- The number behind the blank is read as a positive one, and the trigger takes its last 32
    bits for the rate. -/
theorem blank_before_minus_read :
    string2uint64andSign blankRate.cps = some (18446744073709551611, false)
      ∧ (Dynamics.updateTriggering ⟨0, 0, 0, 0, false, false⟩ blankRate)
        = (true, ⟨0, 0, 0, 4294967291, false, false⟩)
      ∧ ¬ ReadExactly blankRate.cps := by
  have hread : string2uint64andSign blankRate.cps = some (18446744073709551611, false) := by
    decide +kernel
  refine ⟨hread, by decide +kernel, ?_⟩
  intro h
  obtain ⟨digits, -, hd, hs, -⟩ := ((h.read _ _).mp hread).spelled
  -- the blank would be a digit
  have hblank : ' ' ∈ digits := by
    rw [show digits = blankRate.cps.toList from hs.symm]
    decide
  exact absurd (hd ' ' hblank) (by decide)

end H2SignedNumber
