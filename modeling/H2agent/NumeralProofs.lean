import Mathlib.Data.Nat.Digits.Lemmas

/-! # Numerals in a base

    A text over an alphabet denotes a number in a base when all of its characters are
    digits of the base.  `numeral` writes the one without leading zeros.

    * `numeral_denotes`: it denotes the number it was written for;
    * `numeral_length_le`: it has no more digits than it needs;
    * `denoted_lt`: a text is worth less than the base to its length. -/

namespace Numeral

variable {κ : Type} (value : κ → Option Nat) (b : Nat)

/-- The character is a digit of the base. -/
def IsDigit (c : κ) : Prop := ∃ d, value c = some d ∧ d < b

/-- The number of a text; what is no digit counts as zero. -/
def number (text : List κ) : Nat := Nat.ofDigits b (text.reverse.map fun c => (value c).getD 0)

/-- The text is a numeral of the number; leading zeros are admitted. -/
structure Denotes (text : List κ) (n : Nat) : Prop where
  ne_nil : text ≠ []
  digits : ∀ c ∈ text, IsDigit value b c
  number : number value b text = n

/-- The numeral of a number without leading zeros. -/
def numeral (chars : Nat → κ) (n : Nat) : List κ :=
  if n = 0 then [chars 0] else (Nat.digits b n).reverse.map chars

variable {value b}

theorem IsDigit.getD_lt {c : κ} (h : IsDigit value b c) : (value c).getD 0 < b := by
  obtain ⟨d, hd, hlt⟩ := h
  rw [hd]
  exact hlt

/-- A text of digits is worth less than the base to its length. -/
theorem denoted_lt (hb : 1 < b) {text : List κ} (h : ∀ c ∈ text, IsDigit value b c) :
    number value b text < b ^ text.length := by
  have hlt := Nat.ofDigits_lt_base_pow_length hb
    (l := text.reverse.map fun c => (value c).getD 0) ?_
  · rwa [List.length_map, List.length_reverse] at hlt
  · intro d hd
    obtain ⟨c, hc, rfl⟩ := List.mem_map.mp hd
    exact (h c (List.mem_reverse.mp hc)).getD_lt

/-- Most significant digit first, as a loop over the text adds it up. -/
theorem number_eq_foldl (text : List κ) :
    number value b text = text.foldl (fun acc c => acc * b + (value c).getD 0) 0 := by
  induction text using List.reverseRecOn with
  | nil => rfl
  | append_singleton text c ih =>
      rw [number, List.reverse_append, List.reverse_singleton, List.singleton_append,
        List.map_cons, Nat.ofDigits_cons, List.foldl_append, List.foldl_cons, List.foldl_nil, ← ih,
        number, Nat.mul_comm, Nat.add_comm]

section Alphabet

variable {chars : Nat → κ}

theorem numeral_zero : numeral b chars 0 = [chars 0] := if_pos rfl

theorem numeral_of_ne {n : Nat} (h : n ≠ 0) :
    numeral b chars n = (Nat.digits b n).reverse.map chars := if_neg h

/-- The last digit comes off the end. -/
theorem numeral_eq (hb : 1 < b) (n : Nat) :
    numeral b chars n = (if n < b then [] else numeral b chars (n / b)) ++ [chars (n % b)] := by
  by_cases hn : n = 0
  · subst hn
    rw [numeral_zero, if_pos (by omega), Nat.zero_mod, List.nil_append]
  · rw [numeral_of_ne hn, Nat.digits_def' hb (Nat.pos_of_ne_zero hn), List.reverse_cons,
      List.map_append, List.map_singleton]
    split
    · next hlt => rw [Nat.div_eq_of_lt hlt, Nat.digits_zero, List.reverse_nil, List.map_nil]
    · next hle =>
        have hquot : n / b ≠ 0 := Nat.div_ne_zero_iff.mpr ⟨by omega, by omega⟩
        rw [numeral_of_ne hquot]

theorem numeral_ne_nil (n : Nat) : numeral b chars n ≠ [] := by
  by_cases h : n = 0
  · rw [h, numeral_zero]
    exact List.cons_ne_nil _ _
  · rw [numeral_of_ne h]
    simpa using Nat.digits_ne_nil_iff_ne_zero.mpr h

/-- The digits of a numeral. -/
theorem mem_numeral (hb : 1 < b) {n : Nat} {c : κ} (h : c ∈ numeral b chars n) :
    ∃ d < b, c = chars d := by
  by_cases hn : n = 0
  · rw [hn, numeral_zero] at h
    exact ⟨0, by omega, List.mem_singleton.mp h⟩
  · rw [numeral_of_ne hn] at h
    obtain ⟨d, hd, rfl⟩ := List.mem_map.mp h
    exact ⟨d, Nat.digits_lt_base hb (List.mem_reverse.mp hd), rfl⟩

/-- A numeral has no more digits than it needs. -/
theorem numeral_length_le (hb : 1 < b) {n k : Nat} (hk : 0 < k) (h : n < b ^ k) :
    (numeral b chars n).length ≤ k := by
  by_cases hn : n = 0
  · rw [hn, numeral_zero, List.length_singleton]
    exact hk
  · have hpow : b ^ (Nat.digits b n).length < b ^ (k + 1) :=
      calc b ^ (Nat.digits b n).length
          ≤ b * n := Nat.base_pow_length_digits_le b n hb hn
        _ < b * b ^ k := Nat.mul_lt_mul_of_pos_left h (by omega)
        _ = b ^ (k + 1) := Nat.pow_succ'.symm
    rw [numeral_of_ne hn, List.length_map, List.length_reverse]
    exact Nat.le_of_lt_succ ((Nat.pow_lt_pow_iff_right hb).mp hpow)

variable (hchars : ∀ d < b, value (chars d) = some d)

include hchars

/-- A numeral denotes the number it was written for. -/
theorem numeral_denotes (hb : 1 < b) (n : Nat) : Denotes value b (numeral b chars n) n where
  ne_nil := numeral_ne_nil n
  digits c hc := by
    obtain ⟨d, hd, rfl⟩ := mem_numeral hb hc
    exact ⟨d, hchars d hd, hd⟩
  number := by
    by_cases hn : n = 0
    · rw [hn, numeral_zero, number, List.reverse_singleton, List.map_singleton,
        hchars 0 (by omega)]
      rfl
    · have hdigits : (Nat.digits b n).map (fun d => (value (chars d)).getD 0) = Nat.digits b n := by
        refine (List.map_congr_left fun d hd => ?_).trans (List.map_id _)
        rw [hchars d (Nat.digits_lt_base hb hd)]
        rfl
      rw [number, numeral_of_ne hn, ← List.map_reverse, List.reverse_reverse, List.map_map,
        show (fun c => (value c).getD 0) ∘ chars = fun d => (value (chars d)).getD 0 from rfl,
        hdigits, Nat.ofDigits_digits]

/-- Only the numeral of zero begins with the digit zero. -/
theorem numeral_head (hb : 1 < b) {n : Nat} {rest : List κ} {c : κ}
    (h : numeral b chars n = c :: rest) (hc : value c = some 0) : n = 0 := by
  by_contra hn
  rw [numeral_of_ne hn] at h
  -- the first character is the one of the most significant digit
  have hne : Nat.digits b n ≠ [] := Nat.digits_ne_nil_iff_ne_zero.mpr hn
  have hhead := congrArg List.head? h
  rw [List.head?_map, List.head?_reverse, List.getLast?_eq_some_getLast hne, Option.map_some,
    List.head?_cons, Option.some.injEq] at hhead
  have hlt := Nat.digits_lt_base hb (List.getLast_mem hne)
  rw [← hhead, hchars _ hlt, Option.some.injEq] at hc
  exact Nat.getLast_digit_ne_zero b hn hc

end Alphabet

end Numeral
