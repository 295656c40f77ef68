import H2agent.FilterProofs

/-! # The `Split` filter

    `Split` cuts a text, truncated or padded on the left to `size * count`
    characters, into `count` groups of `size` characters.

    * `groupsFrom`: a list cut into groups, with their number, their sizes and
      what they concatenate to;
    * `splitLoop_ok_iff`, `splitLoop_text`: when the loop over the groups ends
      without an exception, and with which text;
    * `paddingLoop_ends`, `padLeft_loop`: the padding loop ends for every filler
      that is not empty, and leaves what `padLeft` computes;
    * `split_completes_iff`, `split_meaning`: the filter of both provisions. -/

namespace H2Split

open CppText H2Convert H2Filter H2Key H2Transformation

/-! ## A list cut into groups -/

section Groups

variable {α : Type}

/-- The `n` groups of a list from group `i` on. -/
def groupsFrom (size : Nat) (xs : List α) : Nat → Nat → List (List α)
  | 0, _ => []
  | n + 1, i => (xs.drop (i * size)).take size :: groupsFrom size xs n (i + 1)

theorem length_groupsFrom (size : Nat) (xs : List α) (n i : Nat) :
    (groupsFrom size xs n i).length = n := by
  induction n generalizing i with
  | zero => rfl
  | succ n ih => rw [groupsFrom, List.length_cons, ih]

/-- Groups within the list are full. -/
theorem size_of_mem_groupsFrom {size : Nat} {xs : List α} {n i : Nat}
    (h : (i + n) * size ≤ xs.length) : ∀ g ∈ groupsFrom size xs n i, g.length = size := by
  induction n generalizing i with
  | zero =>
      intro g hg
      exact nomatch hg
  | succ n ih =>
      intro g hg
      rcases List.mem_cons.mp hg with rfl | hg
      · have hone : (i + 1) * size ≤ xs.length :=
          Nat.le_trans (Nat.mul_le_mul_right size (by omega)) h
        rw [Nat.succ_mul] at hone
        rw [List.length_take, List.length_drop]
        omega
      · refine ih ?_ g hg
        rw [show i + 1 + n = i + (n + 1) by omega]
        exact h

/-- Neighbouring groups make up a stretch of the list. -/
theorem flatten_groupsFrom (size : Nat) (xs : List α) (n i : Nat) :
    (groupsFrom size xs n i).flatten = (xs.drop (i * size)).take (n * size) := by
  induction n generalizing i with
  | zero => simp [groupsFrom]
  | succ n ih =>
      have hsum : (n + 1) * size = size + n * size := by
        rw [Nat.succ_mul, Nat.add_comm]
      rw [groupsFrom, List.flatten_cons, ih, hsum, List.take_add, List.drop_drop, Nat.succ_mul]

end Groups

/-! ## The loop over the groups -/

/-- The loop ends without an exception exactly when every group starts within the
    text. -/
theorem splitLoop_ok_iff (numeric : Bool) (sep : String) (size : Nat) (padded : List Char)
    (n i : Nat) (acc : String) :
    (∃ text, splitLoop numeric sep size padded n i acc = .ok text)
      ↔ ∀ k, i ≤ k → k < i + n → wrapU64 (k * size) ≤ padded.length := by
  induction n generalizing i acc with
  | zero =>
      constructor
      · intro _ k hi hk
        omega
      · intro _
        exact ⟨acc, rfl⟩
  | succ n ih =>
      rw [splitLoop]
      dsimp only
      by_cases hpos : wrapU64 (i * size) > padded.length
      · rw [if_pos hpos]
        constructor
        · rintro ⟨text, htext⟩
          exact nomatch htext
        · intro h
          have hle := h i (Nat.le_refl i) (by omega)
          omega
      · rw [if_neg hpos, ih]
        constructor
        · intro h k hi hk
          rcases Nat.lt_or_ge i k with hlt | hge
          · exact h k hlt (by omega)
          · rw [show k = i by omega]
            exact Nat.not_lt.mp hpos
        · intro h k hi hk
          exact h k (by omega) (by omega)

/-- Behind the first group every group comes with the separator. -/
theorem splitLoop_rest (sep : String) {size : Nat} {padded : List Char} {n i : Nat}
    (acc : String) (hi : 0 < i)
    (h : ∀ k, i ≤ k → k < i + n → k * size ≤ padded.length ∧ wrapU64 (k * size) = k * size) :
    splitLoop false sep size padded n i acc
      = .ok (sep.intercalate (acc :: (groupsFrom size padded n i).map String.ofList)) := by
  induction n generalizing i acc with
  | zero =>
      show Except.ok acc = Except.ok (sep.intercalate [acc])
      rw [String.intercalate_singleton]
  | succ n ih =>
      obtain ⟨hle, hwrap⟩ := h i (Nat.le_refl i) (by omega)
      rw [splitLoop]
      dsimp only
      rw [hwrap, if_neg (by omega), if_pos hi,
        ih _ (Nat.succ_pos i) (fun k hk hk' => h k (by omega) (by omega)), groupsFrom,
        List.map_cons, String.intercalate_cons_cons, String.intercalate_cons_append]
      rfl

/-- Groups within the text are joined by the separator. -/
theorem splitLoop_text (sep : String) {size : Nat} {padded : List Char} {n : Nat}
    (h : ∀ k, k < n → k * size ≤ padded.length ∧ wrapU64 (k * size) = k * size) :
    splitLoop false sep size padded n 0 ""
      = .ok (sep.intercalate ((groupsFrom size padded n 0).map String.ofList)) := by
  cases n with
  | zero =>
      show Except.ok "" = Except.ok (sep.intercalate [])
      rw [String.intercalate_nil]
  | succ n =>
      obtain ⟨hle, hwrap⟩ := h 0 (Nat.succ_pos n)
      rw [splitLoop]
      dsimp only
      rw [hwrap, if_neg (by omega), if_neg (Nat.lt_irrefl 0),
        splitLoop_rest sep _ Nat.one_pos (fun k _ hk => h k (by omega))]
      rw [groupText, if_neg Bool.false_ne_true, String.empty_append]
      rfl

/-! ## Padding -/

/-- The loop that collects fillers until padding and text reach the length; `none`
    when the fuel does not suffice. -/
def paddingLoop (filler : List Char) (textLen totalLen : Nat) :
    Nat → List Char → Option (List Char)
  | 0, _ => none
  | fuel + 1, padding =>
      if padding.length + textLen < totalLen then
        paddingLoop filler textLen totalLen fuel (padding ++ filler)
      else some padding

/-- Truncation and padding as the filter does them, with its loop. -/
def padByLoop (filler : List Char) (totalLen fuel : Nat) (text : List Char) :
    Option (List Char) :=
  if text.length > totalLen then some (text.drop (text.length - totalLen))
  else if text.length < totalLen && !filler.isEmpty then
    (paddingLoop filler text.length totalLen fuel []).map (fun padding =>
      (if padding.length + text.length > totalLen then
          padding.drop (padding.length + text.length - totalLen)
        else padding) ++ text)
  else some text

/-- As many fillers as it takes to reach a length. -/
def timesFor (filler : List Char) (missing : Nat) : Nat :=
  (missing + filler.length - 1) / filler.length

/-- Copies of the filler. -/
def copies (filler : List Char) (n : Nat) : List Char := (List.replicate n filler).flatten

@[simp] theorem length_copies (filler : List Char) (n : Nat) :
    (copies filler n).length = n * filler.length := by
  simp [copies]

theorem copies_append (filler : List Char) (n : Nat) :
    copies filler n ++ filler = copies filler (n + 1) := by
  rw [copies, copies, List.replicate_succ', List.flatten_append, List.flatten_singleton]

section Padding

variable {filler : List Char} (hfiller : filler ≠ [])

include hfiller

/-- A number of fillers is too small exactly when they do not reach the length. -/
theorem lt_timesFor_iff (missing k : Nat) :
    k < timesFor filler missing ↔ k * filler.length < missing := by
  have hpos : 0 < filler.length := List.length_pos_iff.mpr hfiller
  rw [timesFor, Nat.lt_iff_add_one_le, Nat.le_div_iff_mul_le hpos, Nat.succ_mul]
  omega

/-- **THE PADDING LOOP ENDS**: with enough fuel it leaves as many fillers as it
    takes, however many it starts from. -/
theorem paddingLoop_ends (textLen totalLen : Nat) {k fuel : Nat}
    (hk : k ≤ timesFor filler (totalLen - textLen))
    (hfuel : timesFor filler (totalLen - textLen) < k + fuel) :
    paddingLoop filler textLen totalLen fuel (copies filler k)
      = some (copies filler (timesFor filler (totalLen - textLen))) := by
  induction fuel generalizing k with
  | zero => omega
  | succ fuel ih =>
      have hshort := lt_timesFor_iff hfiller (totalLen - textLen) k
      rw [paddingLoop, length_copies]
      by_cases hlt : k < timesFor filler (totalLen - textLen)
      · have hmul := hshort.mp hlt
        rw [if_pos (by omega), copies_append]
        exact ih hlt (by omega)
      · have hmul := fun h => hlt (hshort.mpr h)
        rw [if_neg (by omega), show k = timesFor filler (totalLen - textLen) by omega]

/-- Every step of the loop brings at least one character. -/
theorem timesFor_le (missing : Nat) : timesFor filler missing ≤ missing := by
  have hpos : 0 < filler.length := List.length_pos_iff.mpr hfiller
  by_contra h
  have hmul := (lt_timesFor_iff hfiller missing missing).mp (by omega)
  have hle : missing * 1 ≤ missing * filler.length := Nat.mul_le_mul_left missing hpos
  omega

/-- What a text that is too short gets in front: the end of a row of fillers, of
    the length that is missing. -/
theorem padLeft_short {totalLen : Nat} {text : List Char} (h : text.length < totalLen) :
    ∃ padding, padding <:+ copies filler (timesFor filler (totalLen - text.length))
      ∧ padding.length = totalLen - text.length
      ∧ padLeft filler totalLen text = padding ++ text := by
  have hnot : ¬ text.length > totalLen := by omega
  have hcond : (decide (text.length < totalLen) && !filler.isEmpty) = true := by
    rw [decide_eq_true h, Bool.true_and, Bool.not_eq_true', List.isEmpty_eq_false_iff]
    exact hfiller
  have henough := (lt_timesFor_iff hfiller (totalLen - text.length)
    (timesFor filler (totalLen - text.length))).not.mp (Nat.lt_irrefl _)
  -- the part of the row that is too long goes
  refine ⟨_, List.drop_suffix ((copies filler (timesFor filler (totalLen - text.length))).length
    + text.length - totalLen) _, ?_, ?_⟩
  · rw [List.length_drop, length_copies]
    omega
  · rw [padLeft, if_neg hnot, if_pos hcond]
    rfl

end Padding

/-- A text that is too long loses its front. -/
theorem padLeft_long (filler : List Char) {totalLen : Nat} {text : List Char}
    (h : totalLen ≤ text.length) :
    padLeft filler totalLen text = text.drop (text.length - totalLen) := by
  rw [padLeft]
  by_cases hgt : text.length > totalLen
  · rw [if_pos hgt]
  · have heq : text.length - totalLen = 0 := by omega
    have hnot : ¬ (decide (text.length < totalLen) && !filler.isEmpty) = true := by
      rw [decide_eq_false (by omega), Bool.false_and]
      exact Bool.false_ne_true
    rw [if_neg hgt, if_neg hnot, heq, List.drop_zero]

/-- Without a filler a text that is too short stays as it is. -/
theorem padLeft_no_filler {totalLen : Nat} {text : List Char} (h : text.length < totalLen) :
    padLeft [] totalLen text = text := by
  rw [padLeft, if_neg (by omega), if_neg (by simp)]

/-- The length after padding. -/
theorem length_padLeft (filler : List Char) (totalLen : Nat) (text : List Char) :
    (padLeft filler totalLen text).length
      = if filler = [] then min text.length totalLen else totalLen := by
  rcases Nat.lt_or_ge text.length totalLen with hlt | hge
  · by_cases hfiller : filler = []
    · rw [if_pos hfiller, hfiller, padLeft_no_filler hlt]
      omega
    · obtain ⟨padding, _, hlen, heq⟩ := padLeft_short hfiller hlt
      rw [if_neg hfiller, heq, List.length_append]
      omega
  · rw [padLeft_long filler hge, List.length_drop]
    split
    · omega
    · omega

/-- With enough fuel the loop leaves what `padLeft` computes. -/
theorem padLeft_loop (filler : List Char) {totalLen fuel : Nat} (hfuel : totalLen < fuel)
    (text : List Char) :
    padByLoop filler totalLen fuel text = some (padLeft filler totalLen text) := by
  rw [padByLoop, padLeft]
  by_cases hgt : text.length > totalLen
  · rw [if_pos hgt, if_pos hgt]
  · rw [if_neg hgt, if_neg hgt]
    by_cases hcond : (decide (text.length < totalLen) && !filler.isEmpty) = true
    · rw [if_pos hcond, if_pos hcond]
      have hfiller : filler ≠ [] := by
        rintro rfl
        simp at hcond
      have hle := timesFor_le hfiller (totalLen - text.length)
      have hends := paddingLoop_ends hfiller text.length totalLen (k := 0) (Nat.zero_le _)
        (show timesFor filler (totalLen - text.length) < 0 + fuel by omega)
      -- a row of just the right length loses nothing
      have htrim : ∀ row : List Char,
          (if row.length + text.length > totalLen then
              row.drop (row.length + text.length - totalLen) else row)
            = row.drop (row.length + text.length - totalLen) := by
        intro row
        split
        · rfl
        · rw [show row.length + text.length - totalLen = 0 by omega, List.drop_zero]
      simp only [htrim]
      rw [show ([] : List Char) = copies filler 0 from rfl, hends]
      rfl
    · rw [if_neg hcond, if_neg hcond]

/-! ## The filter -/

/-- Both provisions apply the filter to the text of the value. -/
theorem processFilters_split (env : Env) (vars : TextMap String) (vault : Vault)
    {t : Transformation} {v : TypeConverter} {source : String} (ht : t.filterType = .Split)
    (hs : v.getString env.lib = .ok source) :
    AdminServerProvision.processFilters env vars vault t v = passesText v (splitText t source)
      ∧ AdminClientProvision.processFilters env vars vault t v
        = passesText v (splitText t source) := by
  simp only [AdminServerProvision.processFilters, AdminClientProvision.processFilters,
    withSource, ht, needsString, hs, if_true, sharedFilter, and_self]

/-- `processFilters` returned: no exception left it. -/
def Completes (r : Except Fault Filtered) : Prop := ∃ f, r = .ok f

theorem completes_passesText (v : TypeConverter) (r : Except Fault String) :
    Completes (passesText v r) ↔ ∃ text, r = .ok text := by
  cases r with
  | error e =>
      constructor
      · rintro ⟨f, hf⟩
        exact nomatch hf
      · rintro ⟨text, htext⟩
        exact nomatch htext
  | ok text => exact ⟨fun _ => ⟨text, rfl⟩, fun _ => ⟨_, rfl⟩⟩

/-- Multiples below a product do not wrap when the product does not. -/
theorem wrapU64_multiple {size count k : Nat} (hfit : size * count < 18446744073709551616)
    (hk : k < count) : wrapU64 (k * size) = k * size := by
  have hle : k * size ≤ count * size := Nat.mul_le_mul_right size (Nat.le_of_lt hk)
  rw [Nat.mul_comm count size] at hle
  exact Nat.mod_eq_of_lt (by omega)

/-- Where nothing wraps, the text is cut without an exception exactly when there is
    a filler or the last group starts within the text. -/
theorem splitText_ok_iff {t : Transformation} (source : String)
    (hfit : toU64 t.filterI * t.filterU < 18446744073709551616) :
    (∃ text, splitText t source = .ok text)
      ↔ t.filterFiller ≠ "" ∨ toU64 t.filterI * (t.filterU - 1) ≤ source.length := by
  have htotal : wrapU64 (toU64 t.filterI * t.filterU) = toU64 t.filterI * t.filterU :=
    Nat.mod_eq_of_lt hfit
  have hfiller : t.filterFiller.toList = [] ↔ t.filterFiller = "" := String.toList_eq_nil_iff
  have hlast : toU64 t.filterI * (t.filterU - 1) ≤ toU64 t.filterI * t.filterU :=
    Nat.mul_le_mul_left _ (Nat.sub_le _ _)
  simp only [splitText]
  rw [splitLoop_ok_iff, length_padLeft, htotal]
  simp only [hfiller, String.length_toList]
  constructor
  · intro h
    by_cases hempty : t.filterFiller = ""
    · rw [if_pos hempty] at h
      right
      by_cases hcount : t.filterU = 0
      · rw [hcount]
        simp
      · have hk : t.filterU - 1 < t.filterU := by omega
        have hgroup := h (t.filterU - 1) (Nat.zero_le _) (by omega)
        rw [wrapU64_multiple hfit hk, Nat.mul_comm] at hgroup
        exact Nat.le_trans hgroup (Nat.min_le_left _ _)
    · exact .inl hempty
  · intro h k _ hk
    rw [Nat.zero_add] at hk
    rw [wrapU64_multiple hfit hk]
    have hmul : k * toU64 t.filterI ≤ toU64 t.filterI * (t.filterU - 1) := by
      rw [Nat.mul_comm]
      exact Nat.mul_le_mul_left _ (by omega)
    split
    · rename_i hempty
      have hle := h.resolve_left (fun hne => hne hempty)
      omega
    · omega

/-- **SPLIT WITHOUT EXCEPTIONS**: for every text, size, count, separator, filler and
    numeric flag, the filter of both provisions completes with a product that does
    not wrap if and only if the product is below `2^64` and there is a filler, or
    the text reaches the beginning of the last group. -/
theorem split_completes_iff (env : Env) (vars : TextMap String) (vault : Vault)
    (t : Transformation) (v : TypeConverter) (source : String) (ht : t.filterType = .Split)
    (hs : v.getString env.lib = .ok source) :
    (Completes (AdminServerProvision.processFilters env vars vault t v)
        ∧ toU64 t.filterI * t.filterU < 18446744073709551616
      ↔ toU64 t.filterI * t.filterU < 18446744073709551616
        ∧ (t.filterFiller ≠ "" ∨ toU64 t.filterI * (t.filterU - 1) ≤ source.length))
    ∧ (Completes (AdminClientProvision.processFilters env vars vault t v)
        ∧ toU64 t.filterI * t.filterU < 18446744073709551616
      ↔ toU64 t.filterI * t.filterU < 18446744073709551616
        ∧ (t.filterFiller ≠ "" ∨ toU64 t.filterI * (t.filterU - 1) ≤ source.length)) := by
  obtain ⟨hserver, hclient⟩ := processFilters_split env vars vault ht hs
  rw [hserver, hclient, completes_passesText, and_comm (b := _ < 18446744073709551616)]
  have hiff := and_congr_right (splitText_ok_iff (t := t) source)
  exact ⟨hiff, hiff⟩

/-- A cut into four groups of two, without a filler. -/
def bareSplit : Transformation :=
  { sourceType := .Value, targetType := .TVar, hasFilter := true, filterType := .Split,
    filterI := 2, filterU := 4, filter := "." }

/-- Seven characters reach the last of four groups of two. -/
theorem split_seven_completes :
    Completes (AdminServerProvision.processFilters idleEnv ∅ ∅ bareSplit
        (TypeConverter.fresh.setString "2024123"))
      ∧ toU64 bareSplit.filterI * bareSplit.filterU < 18446744073709551616 := by
  have h := split_completes_iff idleEnv ∅ ∅ bareSplit (TypeConverter.fresh.setString "2024123")
    "2024123" rfl rfl
  exact h.1.mpr ⟨by decide, .inr (by decide)⟩

/-- Without a filler one character leaves the second group of two behind the end of
    the text: both filters throw. -/
theorem split_one_throws :
    bareSplit.filterFiller = "" ∧ 1 ≤ toU64 bareSplit.filterI ∧ 1 ≤ bareSplit.filterU
      ∧ AdminServerProvision.processFilters idleEnv ∅ ∅ bareSplit
          (TypeConverter.fresh.setString "1") = .error .outOfRange
      ∧ AdminClientProvision.processFilters idleEnv ∅ ∅ bareSplit
          (TypeConverter.fresh.setString "1") = .error .outOfRange :=
  ⟨rfl, by decide, by decide, rfl, rfl⟩

/-- **THE MEANING OF SPLIT**: with a filler that is not empty, without the numeric
    flag and with a product below `2^64`, the padding loop ends and both filters
    leave the groups of `size` characters joined by the separator, `count` of them.
    Together they are the end of the text, or the text behind the end of a row of
    fillers, of `size * count` characters. -/
theorem split_meaning (env : Env) (vars : TextMap String) (vault : Vault)
    (t : Transformation) (v : TypeConverter) (source : String) (ht : t.filterType = .Split)
    (hs : v.getString env.lib = .ok source) (hfiller : t.filterFiller ≠ "")
    (hnumeric : t.filterNumberType = 0)
    (hfit : toU64 t.filterI * t.filterU < 18446744073709551616) :
    ∃ (padded : List Char) (groups : List (List Char)),
      (∀ fuel, toU64 t.filterI * t.filterU < fuel →
        padByLoop t.filterFiller.toList (toU64 t.filterI * t.filterU) fuel source.toList
          = some padded)
      ∧ AdminServerProvision.processFilters env vars vault t v
        = passes (v.setString (t.filter.intercalate (groups.map String.ofList)))
      ∧ AdminClientProvision.processFilters env vars vault t v
        = passes (v.setString (t.filter.intercalate (groups.map String.ofList)))
      ∧ groups.length = t.filterU ∧ (∀ g ∈ groups, g.length = toU64 t.filterI)
      ∧ groups.flatten = padded
      ∧ (toU64 t.filterI * t.filterU ≤ source.length →
        padded = source.toList.drop (source.length - toU64 t.filterI * t.filterU))
      ∧ (source.length < toU64 t.filterI * t.filterU →
        ∃ (padding : List Char) (n : Nat),
          padded = padding ++ source.toList
            ∧ padding.length = toU64 t.filterI * t.filterU - source.length
            ∧ padding <:+ (List.replicate n t.filterFiller.toList).flatten) := by
  have htotal : wrapU64 (toU64 t.filterI * t.filterU) = toU64 t.filterI * t.filterU :=
    Nat.mod_eq_of_lt hfit
  have hne : t.filterFiller.toList ≠ [] := fun h => hfiller (String.toList_eq_nil_iff.mp h)
  obtain ⟨hserver, hclient⟩ := processFilters_split env vars vault ht hs
  generalize hp : padLeft t.filterFiller.toList (toU64 t.filterI * t.filterU) source.toList
    = padded
  have hlen : padded.length = toU64 t.filterI * t.filterU := by
    rw [← hp, length_padLeft, if_neg hne]
  -- all groups lie within the padded text
  have htext : splitText t source = .ok (t.filter.intercalate
      ((groupsFrom (toU64 t.filterI) padded t.filterU 0).map String.ofList)) := by
    simp only [splitText]
    rw [htotal, hp, hnumeric]
    refine splitLoop_text t.filter (fun k hk => ⟨?_, wrapU64_multiple hfit hk⟩)
    rw [hlen, Nat.mul_comm]
    exact Nat.mul_le_mul_left _ (Nat.le_of_lt hk)
  rw [htext] at hserver hclient
  refine ⟨padded, groupsFrom (toU64 t.filterI) padded t.filterU 0, ?_, hserver, hclient,
    length_groupsFrom _ _ _ _, ?_, ?_, ?_, ?_⟩
  · intro fuel hfuel
    rw [padLeft_loop _ hfuel, hp]
  · refine size_of_mem_groupsFrom ?_
    rw [hlen, Nat.zero_add, Nat.mul_comm]
  · rw [flatten_groupsFrom, Nat.zero_mul, List.drop_zero, Nat.mul_comm, ← hlen,
      List.take_length]
  · intro hge
    rw [← hp, padLeft_long _ (by rw [String.length_toList]; exact hge), String.length_toList]
  · intro hlt
    rw [← String.length_toList] at hlt
    obtain ⟨padding, hsuffix, hpadding, heq⟩ := padLeft_short hne hlt
    rw [String.length_toList] at hpadding hsuffix
    exact ⟨padding, _, hp.symm.trans heq, hpadding, hsuffix⟩

/-- A cut into three groups of two, with a filler of two characters. -/
def filledSplit : Transformation :=
  { bareSplit with filterU := 3, filterFiller := "ab" }

/-- Five characters get one of the filler in front. -/
theorem split_five_filled :
    ∃ (padded : List Char) (groups : List (List Char)),
      AdminServerProvision.processFilters idleEnv ∅ ∅ filledSplit
          (TypeConverter.fresh.setString "12345")
        = passes ((TypeConverter.fresh.setString "12345").setString
            (".".intercalate (groups.map String.ofList)))
      ∧ groups.length = 3 ∧ groups.flatten = padded
      ∧ ∃ padding : List Char, padded = padding ++ "12345".toList ∧ padding.length = 1 := by
  obtain ⟨padded, groups, _, hserver, _, hcount, _, hflat, _, hshort⟩ :=
    split_meaning idleEnv ∅ ∅ filledSplit (TypeConverter.fresh.setString "12345") "12345" rfl rfl
      (by decide) rfl (by decide)
  obtain ⟨padding, _, hpadded, hlen, _⟩ := hshort (by decide)
  exact ⟨padded, groups, hserver, hcount, hflat, padding, hpadded, hlen⟩

end H2Split
