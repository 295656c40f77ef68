import H2agent.SubstitutionProofs

/-! # `searchReplaceAll`

    The loop keeps one text and one position: it searches from the position on, puts the
    replacement in the place of what it finds, and moves the position behind the replacement.
    The text may grow at each turn; what is left to be searched gets shorter, as long as the
    text searched for is not empty.

    * `replaceFrom_eq`: enough turns end the loop, and what it leaves is the text before the
      position as it is and the rest replaced in one pass;
    * `search_replace_all_exact`: the result is the replacement from left to right, and no
      other text is. -/

namespace H2SearchReplace

open H2Convert H2Subst TextReplace

/-! ## The loop -/

/-- `str.find(pattern, pos)`; `none` is `npos`. -/
def findFrom (pattern str : List Char) (pos : Nat) : Option Nat :=
  if pos ≤ str.length then (firstOccurrence pattern (str.drop pos)).map (pos + ·) else none

/-- `str.replace(pos, count, replacement)`. -/
def replaceAt (str : List Char) (pos count : Nat) (replacement : List Char) : List Char :=
  str.take pos ++ replacement ++ str.drop (pos + count)

/-- The loop of `searchReplaceAll`, for a number of turns; `none` when it has not ended by
    then. -/
def replaceFrom (pattern replacement : List Char) : Nat → List Char → Nat → Option (List Char)
  | 0, _, _ => none
  | turns + 1, str, pos =>
      match findFrom pattern str pos with
      | none => some str
      | some found =>
          replaceFrom pattern replacement turns
            (replaceAt str found pattern.length replacement) (found + replacement.length)

section Loop

variable {pattern : List Char} (replacement : List Char)

/-- What is found stands behind the position, at the first place there is. -/
theorem findFrom_eq_some {str : List Char} {pos found : Nat}
    (h : findFrom pattern str pos = some found) :
    ∃ n, found = pos + n ∧ firstOccurrence pattern (str.drop pos) = some n
      ∧ found + pattern.length ≤ str.length := by
  unfold findFrom at h
  by_cases hpos : pos ≤ str.length
  · rw [if_pos hpos, Option.map_eq_some_iff] at h
    obtain ⟨n, hn, rfl⟩ := h
    obtain ⟨hle, hat, -⟩ := (firstOccurrence_spec _ _).1 n hn
    have hlength := hat.length_le
    rw [List.drop_drop, List.length_drop] at hlength
    rw [List.length_drop] at hle
    exact ⟨n, rfl, hn, by omega⟩
  · rw [if_neg hpos] at h
    cases h

/-- **STEP LEMMA**: the replacement is put behind what was searched already, and the rest is that
    behind the occurrence. -/
theorem replaceAt_parts {str : List Char} {found : Nat}
    (h : found + pattern.length ≤ str.length) :
    (replaceAt str found pattern.length replacement).take (found + replacement.length)
        = str.take found ++ replacement
      ∧ (replaceAt str found pattern.length replacement).drop (found + replacement.length)
        = str.drop (found + pattern.length) := by
  have hlength : (str.take found ++ replacement).length = found + replacement.length := by
    rw [List.length_append, List.length_take_of_le (by omega)]
  rw [replaceAt, ← hlength]
  exact ⟨List.take_left, List.drop_left⟩

/-- **LOOP**: more turns than there are characters behind the position end it, and these have
    been replaced in one pass. -/
theorem replaceFrom_eq (hp : pattern ≠ []) (turns : Nat) {str : List Char} {pos : Nat}
    (hpos : pos ≤ str.length) (hturns : str.length - pos < turns) :
    replaceFrom pattern replacement turns str pos
      = some (str.take pos ++ replaceAll pattern replacement 0 (str.drop pos)) := by
  induction turns generalizing str pos with
  | zero => exact absurd hturns (Nat.not_lt_zero _)
  | succ turns ih =>
      rw [replaceFrom]
      cases hfound : findFrom pattern str pos with
      | none =>
          have hnone : firstOccurrence pattern (str.drop pos) = none := by
            rw [findFrom, if_pos hpos, Option.map_eq_none_iff] at hfound
            exact hfound
          rw [replaceAll_of_firstOccurrence_none replacement hnone, List.take_append_drop]
      | some found =>
          obtain ⟨n, rfl, hn, hend⟩ := findFrom_eq_some hfound
          obtain ⟨htake, hdrop⟩ := replaceAt_parts replacement hend
          have hlength := List.length_pos_of_ne_nil hp
          -- what is left behind the new position is shorter by what was skipped and found
          have hrest := congrArg List.length hdrop
          rw [List.length_drop, List.length_drop] at hrest
          have hnew : pos + n + replacement.length
              ≤ (replaceAt str (pos + n) pattern.length replacement).length := by
            rw [replaceAt, List.length_append, List.length_append,
              List.length_take_of_le (by omega)]
            exact Nat.le_add_right _ _
          dsimp only
          rw [ih hnew (by omega), htake, hdrop,
            replaceAll_of_firstOccurrence_some hp replacement hn, List.drop_drop,
            ← List.append_assoc, ← List.append_assoc, List.take_add, ← Nat.add_assoc]

/-- An empty pattern is found again at every position: no number of turns ends the loop. -/
theorem replaceFrom_empty (turns : Nat) {str : List Char} {pos : Nat} (hpos : pos ≤ str.length) :
    replaceFrom [] replacement turns str pos = none := by
  induction turns generalizing str pos with
  | zero => rfl
  | succ turns ih =>
      have hfirst : firstOccurrence [] (str.drop pos) = some 0 :=
        firstOccurrence_eq_some (Nat.zero_le _) List.nil_prefix
          (fun k hk => absurd hk (Nat.not_lt_zero k))
      rw [replaceFrom, findFrom, if_pos hpos, hfirst]
      refine ih ?_
      simp only [Nat.add_zero]
      rw [replaceAt, List.length_append, List.length_append, List.length_take_of_le hpos]
      exact Nat.le_add_right _ _

end Loop

/-! ## The result -/

/-- **ONE PASS**: the loop over any text ends, after at most one turn more than the text has
    characters, for any pattern that is not empty and any replacement, also one that contains
    the pattern; it leaves the text in which the occurrences are replaced from left to right
    without a second look at what was put in, and there is only one such text. -/
theorem search_replace_all_exact (str pattern replacement : String) (hp : pattern ≠ "") :
    (∀ turns, str.length < turns →
        replaceFrom pattern.toList replacement.toList turns str.toList 0
          = some (searchReplaceAll str pattern replacement).toList)
      ∧ ∀ text : String, Replaced pattern.toList replacement.toList str.toList text.toList
          ↔ text = searchReplaceAll str pattern replacement := by
  have hne : pattern.toList ≠ [] := fun h => hp (String.toList_eq_nil_iff.mp h)
  have hresult : (searchReplaceAll str pattern replacement).toList
      = replaceAll pattern.toList replacement.toList 0 str.toList := by
    rw [searchReplaceAll, String.toList_ofList, replaceLoop_eq]
  constructor
  · intro turns hturns
    rw [← String.length_toList] at hturns
    rw [replaceFrom_eq replacement.toList hne turns (Nat.zero_le _) hturns, hresult]
    rfl
  · intro text
    rw [replaced_iff hne, ← hresult]
    exact String.toList_inj

/-- Each letter is doubled, though the replacement contains the letter. -/
theorem letters_doubled :
    replaceFrom "a".toList "aa".toList 4 "aba".toList 0
        = some (searchReplaceAll "aba" "a" "aa").toList
      ∧ searchReplaceAll "aba" "a" "aa" = "aabaa" :=
  ⟨(search_replace_all_exact "aba" "a" "aa" (by decide)).1 4 (by decide), by decide⟩

end H2SearchReplace
