import H2agent.QueryParametersProofs

/-! # The loop of `extractQueryParameters`

    The loop walks over the query with two positions, the beginning and the end of a pair; both
    may be `npos`, and it goes on as long as one of them is not.  So a query that ends with the
    separator has one more pair, which is empty, and the last pair is followed by a turn that
    sees both positions at `npos`.

    * `extractTurns_eq`: enough turns end the loop, without a position behind the end, and it
      has seen the pieces between the separators;
    * `extractLoop_lookup`: the map it leaves;
    * `query_parsing_exact`: the map is that of the pairs with their values decoded, and the
      literal, where it is not empty, is read back to the same map and the same literal. -/

namespace H2QueryParsing

open H2Convert H2Key H2Query

/-! ## Positions -/

/-- The first place of a character. -/
def firstOf (c : Char) : List Char → Option Nat
  | [] => none
  | d :: cs => if d = c then some 0 else (firstOf c cs).map (· + 1)

/-- `find_first_of(c, pos)`; `none` is `npos`. -/
def findFirstOf (text : List Char) (c : Char) : Option Nat → Option Nat
  | none => none
  | some pos => (firstOf c (text.drop pos)).map (pos + ·)

/-- `substr(pos, count)`. -/
def substr (text : List Char) (pos : Nat) : Option Nat → List Char
  | none => text.drop pos
  | some count => (text.drop pos).take count

theorem firstOf_none {c : Char} {cs : List Char} (h : firstOf c cs = none) : c ∉ cs := by
  induction cs with
  | nil => simp
  | cons d cs ih =>
      rw [firstOf] at h
      by_cases hd : d = c
      · rw [if_pos hd] at h
        cases h
      · rw [if_neg hd, Option.map_eq_none_iff] at h
        rw [List.mem_cons, not_or]
        exact ⟨fun he => hd he.symm, ih h⟩

/-- A text with the character is cut there. -/
theorem firstOf_some {c : Char} {cs : List Char} {n : Nat} (h : firstOf c cs = some n) :
    cs = cs.take n ++ c :: cs.drop (n + 1) ∧ c ∉ cs.take n ∧ n < cs.length := by
  induction cs generalizing n with
  | nil => cases h
  | cons d cs ih =>
      rw [firstOf] at h
      by_cases hd : d = c
      · rw [if_pos hd] at h
        obtain rfl := Option.some.inj h
        exact ⟨by rw [hd]; rfl, by simp, Nat.zero_lt_succ _⟩
      · rw [if_neg hd, Option.map_eq_some_iff] at h
        obtain ⟨m, hm, rfl⟩ := h
        obtain ⟨hcut, hnot, hlt⟩ := ih hm
        refine ⟨congrArg (d :: ·) hcut, ?_, Nat.succ_lt_succ hlt⟩
        rw [List.take_succ_cons, List.mem_cons, not_or]
        exact ⟨fun he => hd he.symm, hnot⟩

/-! ## The loop -/

/-- How the loop ends: a position behind the end, which `substr` does not accept; a key that is
    there already; or the two maps. -/
inductive Outcome where
  | outOfRange
  | repeatedKey
  | collected (result : TextMap String) (resultOriginal : List (String × String))

/-- Key and value of a pair, cut at its divider. -/
def splitPair (qpair : List Char) : String × String :=
  let keyValueDivider := findFirstOf qpair '=' (some 0)
  let key := String.ofList (substr qpair 0 keyValueDivider)
  match keyValueDivider with
  | some d => (key, String.ofList (substr qpair (d + 1) none))
  | none => (key, "")

/-- The value that is kept. -/
def decodedValue (decode : String → String) (value : String) : String :=
  let valueDecoded := decode value
  if valueDecoded != value then valueDecoded else value

/-- The loop, for a number of turns; `none` when it has not ended by then. -/
def extractTurns (decode : String → String) (queryParams : List Char) (separator : Char) :
    Nat → Option Nat → Option Nat → TextMap String → List (String × String) → Option Outcome
  | 0, _, _, _, _ => none
  | _ + 1, none, _, _, _ => some .outOfRange
  | turns + 1, some pos, qpairEnd, result, resultOriginal =>
      if queryParams.length < pos then some .outOfRange
      else
        let qpair := substr queryParams pos (qpairEnd.map (· - pos))
        let (key, value) := splitPair qpair
        if (result.lookup key).isSome then some .repeatedKey
        else
          let result := result.insert key (decodedValue decode value)
          let resultOriginal := emplaceSorted key value resultOriginal
          let pos := qpairEnd.map (· + 1)
          let qpairEnd := findFirstOf queryParams separator pos
          if qpairEnd.isSome || pos.isSome then
            extractTurns decode queryParams separator turns pos qpairEnd result resultOriginal
          else some (.collected result resultOriginal)

/-- `extractQueryParameters` with its loop: `none` when the turns are too few, and `none` in the
    place of the result for an exception. -/
def extractByPosition (decode : String → String) (turns : Nat) (queryParams : String)
    (separator : Char) : Option (Option (TextMap String × String)) :=
  if queryParams.isEmpty then some (some (∅, ""))
  else
    match extractTurns decode queryParams.toList separator turns (some 0)
        (findFirstOf queryParams.toList separator (some 0)) ∅ [] with
    | none => none
    | some .outOfRange => some none
    | some .repeatedKey => some (some (∅, ""))
    | some (.collected result resultOriginal) =>
        some (some (result, sortedLiteral separator resultOriginal))

/-! ## One turn -/

/-- A pair is cut at its first `=`. -/
theorem splitPair_eq (qpair : List Char) : splitPair qpair = cutPair qpair := by
  have hne : ∀ {cs : List Char}, '=' ∉ cs → ∀ c ∈ cs, decide (c ≠ '=') = true :=
    fun h c hc => decide_eq_true (fun he => h (he ▸ hc))
  cases hd : firstOf '=' qpair with
  | none =>
      have hkey := hne (firstOf_none hd)
      have hdivider : findFirstOf qpair '=' (some 0) = none := by
        rw [findFirstOf, List.drop_zero, hd]
        rfl
      rw [splitPair, hdivider, cutPair, List.takeWhile_eq_self_iff.mpr hkey,
        List.dropWhile_eq_nil_iff.mpr hkey]
      rfl
  | some n =>
      obtain ⟨hcut, hnot, -⟩ := firstOf_some hd
      have hkey := hne hnot
      have hdivider : findFirstOf qpair '=' (some 0) = some n := by
        rw [findFirstOf, List.drop_zero, hd, Option.map_some, Nat.zero_add]
      have htake : qpair.takeWhile (· ≠ '=') = qpair.take n := by
        conv_lhs => rw [hcut]
        rw [List.takeWhile_append_of_pos hkey]
        simp
      have hdrop : (qpair.dropWhile (· ≠ '=')).drop 1 = qpair.drop (n + 1) := by
        conv_lhs => rw [hcut]
        rw [List.dropWhile_append_of_pos hkey]
        simp
      rw [splitPair, hdivider, cutPair, htake, hdrop]
      rfl

theorem decodedValue_eq (decode : String → String) (value : String) :
    decodedValue decode value = decode value := by
  simp only [decodedValue]
  by_cases h : decode value = value
  · rw [h, bne_self_eq_false]
    rfl
  · exact if_pos (bne_iff_ne.mpr h)

/-- A text is its first piece, up to the separator, and the pieces behind it. -/
theorem pieces_of_firstOf_none {separator : Char} {cs : List Char}
    (h : firstOf separator cs = none) : pieces separator cs = [cs] :=
  pieces_single (firstOf_none h)

theorem pieces_of_firstOf_some {separator : Char} {cs : List Char} {n : Nat}
    (h : firstOf separator cs = some n) :
    pieces separator cs = cs.take n :: pieces separator (cs.drop (n + 1)) := by
  obtain ⟨hcut, hnot, -⟩ := firstOf_some h
  conv_lhs => rw [hcut]
  exact pieces_append hnot _

/-- How the loop over the pieces ends. -/
def Outcome.ofLoop : Option (TextMap String × List (String × String)) → Outcome
  | none => .repeatedKey
  | some (result, resultOriginal) => .collected result resultOriginal

section Loop

variable (decode : String → String) (queryParams : List Char) (separator : Char)

/-- **STEP LEMMA**: a turn at a position within the text takes the pair that begins there. -/
theorem extractTurns_succ (turns : Nat) {pos : Nat} (hpos : pos ≤ queryParams.length)
    (qpairEnd : Option Nat) (result : TextMap String) (original : List (String × String)) :
    extractTurns decode queryParams separator (turns + 1) (some pos) qpairEnd result original
      = (let pair := cutPair (substr queryParams pos (qpairEnd.map (· - pos)))
        if (result.lookup pair.1).isSome then some .repeatedKey
        else
          let result := result.insert pair.1 (decode pair.2)
          let original := emplaceSorted pair.1 pair.2 original
          let pos := qpairEnd.map (· + 1)
          let qpairEnd := findFirstOf queryParams separator pos
          if qpairEnd.isSome || pos.isSome then
            extractTurns decode queryParams separator turns pos qpairEnd result original
          else some (.collected result original)) := by
  rw [extractTurns, if_neg (Nat.not_lt.mpr hpos)]
  dsimp only
  rw [splitPair_eq, decodedValue_eq]

/-- **LOOP**: with more turns than there are characters behind the position the loop ends, and
    it has taken the pieces from there on. -/
theorem extractTurns_eq (turns : Nat) {pos : Nat} (hpos : pos ≤ queryParams.length)
    (hturns : queryParams.length - pos < turns) (result : TextMap String)
    (original : List (String × String)) :
    extractTurns decode queryParams separator turns (some pos)
        (findFirstOf queryParams separator (some pos)) result original
      = some (.ofLoop (extractLoop decode (pieces separator (queryParams.drop pos)) result
          original)) := by
  induction turns generalizing pos result original with
  | zero => exact absurd hturns (Nat.not_lt_zero _)
  | succ turns ih =>
      rw [extractTurns_succ decode queryParams separator turns hpos, findFirstOf]
      cases hfirst : firstOf separator (queryParams.drop pos) with
      | none =>
          -- the last pair: both positions become `npos`
          rw [pieces_of_firstOf_none hfirst, extractLoop_cons]
          dsimp only [Option.map_none]
          rw [substr]
          split
          · rfl
          · rfl
      | some n =>
          -- the next pair begins behind the separator, at the end of the text at the latest
          obtain ⟨-, -, hlt⟩ := firstOf_some hfirst
          rw [List.length_drop] at hlt
          have hnext := fun result original =>
            @ih (pos + n + 1) (by omega) (by omega) result original
          rw [pieces_of_firstOf_some hfirst, extractLoop_cons, List.drop_drop]
          dsimp only [Option.map_some]
          rw [substr, Nat.add_sub_cancel_left]
          split
          · rfl
          · rw [Option.isSome_some, Bool.or_true, if_pos rfl, hnext]
            rfl

end Loop

/-- The function ends and throws nothing, whatever the query. -/
theorem extractByPosition_eq (decode : String → String) (queryParams : String) (separator : Char)
    {turns : Nat} (hturns : queryParams.length < turns) :
    extractByPosition decode turns queryParams separator
      = some (some (extractQueryParameters decode queryParams separator)) := by
  rw [extractByPosition, extractQueryParameters]
  by_cases hempty : queryParams.isEmpty = true
  · rw [if_pos hempty, if_pos hempty]
  · rw [← String.length_toList] at hturns
    rw [if_neg hempty, if_neg hempty,
      extractTurns_eq decode _ separator turns (Nat.zero_le _) hturns, List.drop_zero]
    cases extractLoop decode (pieces separator queryParams.toList) ∅ [] with
    | none => rfl
    | some collected => rfl

/-! ## The map -/

/-- **THE MAP**: what was there, and the pairs of the pieces with their values decoded. -/
theorem extractLoop_lookup (decode : String → String) (ps : List (List Char))
    {result result' : TextMap String} {original original' : List (String × String)}
    (h : extractLoop decode ps result original = some (result', original')) (k v : String) :
    result'.lookup k = some v
      ↔ result.lookup k = some v ∨ ∃ raw, (k, raw) ∈ ps.map cutPair ∧ v = decode raw := by
  induction ps generalizing result original with
  | nil =>
      obtain ⟨rfl, -⟩ := Prod.mk.inj (Option.some.inj h)
      simp
  | cons p ps ih =>
      rw [extractLoop_cons] at h
      by_cases hseen : (result.lookup (cutPair p).1).isSome = true
      · rw [if_pos hseen] at h
        cases h
      · rw [if_neg hseen] at h
        have hnew : result.lookup (cutPair p).1 = none := Option.not_isSome_iff_eq_none.mp hseen
        have hinsert : (result.insert (cutPair p).1 (decode (cutPair p).2)).lookup k = some v
            ↔ result.lookup k = some v ∨ k = (cutPair p).1 ∧ v = decode (cutPair p).2 := by
          by_cases hk : k = (cutPair p).1
          · rw [hk, AList.lookup_insert, hnew]
            constructor
            · intro hv
              exact .inr ⟨rfl, (Option.some.inj hv).symm⟩
            · rintro (hv | ⟨-, hv⟩)
              · cases hv
              · rw [hv]
          · rw [AList.lookup_insert_ne hk]
            exact ⟨.inl, fun hv => hv.resolve_right (fun hh => hk hh.1)⟩
        rw [ih h, hinsert, or_assoc, List.map_cons]
        refine or_congr_right ?_
        constructor
        · rintro (⟨rfl, rfl⟩ | ⟨raw, hraw, rfl⟩)
          · exact ⟨_, List.mem_cons_self, rfl⟩
          · exact ⟨raw, List.mem_cons_of_mem _ hraw, rfl⟩
        · rintro ⟨raw, hraw, rfl⟩
          rcases List.mem_cons.mp hraw with heq | hraw
          · exact .inl ⟨congrArg Prod.fst heq, congrArg decode (congrArg Prod.snd heq)⟩
          · exact .inr ⟨raw, hraw, rfl⟩

/-! ## Queries without repeated keys -/

/-- The pairs of a query; an empty query has none. -/
def parameters (separator : Char) (queryParams : String) : List (String × String) :=
  if queryParams.isEmpty then [] else pairList separator queryParams

theorem parameters_of_nonempty {separator : Char} {queryParams : String}
    (h : queryParams.isEmpty = false) :
    parameters separator queryParams = pairList separator queryParams :=
  if_neg (by rw [h]; exact Bool.false_ne_true)

/-- No key is repeated. -/
def DistinctParameters (separator : Char) (queryParams : String) : Prop :=
  ((parameters separator queryParams).map Prod.fst).Nodup

instance (separator : Char) (queryParams : String) :
    Decidable (DistinctParameters separator queryParams) :=
  inferInstanceAs (Decidable (List.Nodup _))

theorem distinctKeys_iff {separator : Char} {queryParams : String}
    (h : queryParams.isEmpty = false) :
    DistinctKeys (queryPairs separator queryParams)
      ↔ DistinctParameters separator queryParams := by
  rw [DistinctParameters, parameters_of_nonempty h, DistinctKeys, queryPairs]
  exact Multiset.coe_nodup

/-- Where `=` separates the pairs there are no values. -/
theorem value_of_mem {query : String} {p : String × String} (h : p ∈ pairList '=' query) :
    p.2 = "" := by
  obtain ⟨piece, hpiece, rfl⟩ := List.mem_map.mp h
  have hne : ∀ c ∈ piece, decide (c ≠ '=') = true :=
    fun c hc => decide_eq_true (fun he => not_mem_of_mem_pieces hpiece (he ▸ hc))
  rw [cutPair, List.dropWhile_eq_nil_iff.mpr hne]
  rfl

section Distinct

variable (decode : String → String) {queryParams : String} {separator : Char}

/-- The map of a query is that of its pairs. -/
theorem lookup_extractQueryParameters (h : DistinctParameters separator queryParams)
    (k v : String) :
    (extractQueryParameters decode queryParams separator).1.lookup k = some v
      ↔ ∃ raw, (k, raw) ∈ parameters separator queryParams ∧ v = decode raw := by
  by_cases hempty : queryParams.isEmpty = true
  · rw [extractQueryParameters, if_pos hempty, parameters, if_pos hempty]
    simp
  · rw [DistinctParameters, parameters, if_neg hempty] at h
    obtain ⟨result, original, hloop, -, -⟩ :=
      (extractLoop_spec decode (pieces separator queryParams.toList) Tracks.empty).1
        (by rw [List.append_nil]; exact h)
    rw [extractQueryParameters, if_neg hempty, hloop, parameters, if_neg hempty]
    have hmap := extractLoop_lookup decode _ hloop k v
    rw [AList.lookup_empty] at hmap
    exact hmap.trans (or_iff_right (by simp))

/-- The literal has the pairs of the query, in key order. -/
theorem literal_parameters (h : DistinctParameters separator queryParams)
    (hq : queryParams.isEmpty = false) :
    ∃ l, InOrder separator queryParams l
      ∧ literal decode queryParams separator = sortedLiteral separator l
      ∧ pairList separator (literal decode queryParams separator) = l := by
  rcases literal_cases decode separator hq with ⟨-, l, hin, hl⟩ | ⟨hrepeated, -⟩
  · refine ⟨l, hin, hl, ?_⟩
    rw [hl]
    refine literal_pairs ?_ hin.ne_nil hin.clean
    rintro rfl p hp
    exact value_of_mem (hin.perm.mem_iff.mp hp)
  · exact absurd ((distinctKeys_iff hq).mpr h) hrepeated

/-- **THE LITERAL IS PARSED BACK**: a literal that is not empty has the parameters of its query,
    and itself for a literal. -/
theorem literal_parsed_back (h : DistinctParameters separator queryParams)
    (hne : literal decode queryParams separator ≠ "") :
    (∀ k, (extractQueryParameters decode (literal decode queryParams separator)
          separator).1.lookup k
        = (extractQueryParameters decode queryParams separator).1.lookup k)
      ∧ literal decode (literal decode queryParams separator) separator
        = literal decode queryParams separator := by
  have hq : queryParams.isEmpty = false := by
    rw [← Bool.not_eq_true]
    intro hempty
    refine hne ?_
    rw [literal, extractQueryParameters, if_pos hempty]
  have hliteral : (literal decode queryParams separator).isEmpty = false := by
    rw [← Bool.not_eq_true, String.isEmpty_iff]
    exact hne
  obtain ⟨l, hin, hl, hpairs⟩ := literal_parameters decode h hq
  have hback : DistinctParameters separator (literal decode queryParams separator) := by
    rw [DistinctParameters, parameters_of_nonempty hq] at h
    rw [DistinctParameters, parameters_of_nonempty hliteral, hpairs]
    exact (hin.perm.map Prod.fst).nodup_iff.mpr h
  constructor
  · intro k
    apply Option.ext
    intro v
    rw [lookup_extractQueryParameters decode hback, lookup_extractQueryParameters decode h,
      parameters_of_nonempty hliteral, parameters_of_nonempty hq, hpairs]
    simp only [hin.perm.mem_iff]
  · -- both lists are in key order and hold the same pairs
    obtain ⟨l', hin', hl', -⟩ := literal_parameters decode hback hliteral
    have hperm := hin'.perm
    rw [hpairs] at hperm
    rw [hl', hin'.ordered.eq_of_perm hin.ordered hperm, ← hl]

end Distinct

/-- **EXACT PARSING**: for a query without repeated keys the loop ends, and leaves each key with
    the decoded value of its pair and nothing else; the literal, where it is not empty, is parsed
    to the same parameters and to itself.  So it is for every separator. -/
theorem query_parsing_exact (decode : String → String) (queryParams : String) (separator : Char)
    (h : DistinctParameters separator queryParams) :
    (∀ turns, queryParams.length < turns →
        extractByPosition decode turns queryParams separator
          = some (some (extractQueryParameters decode queryParams separator)))
      ∧ (∀ k v, (extractQueryParameters decode queryParams separator).1.lookup k = some v
          ↔ ∃ raw, (k, raw) ∈ parameters separator queryParams ∧ v = decode raw)
      ∧ (literal decode queryParams separator ≠ "" →
          (∀ k, (extractQueryParameters decode (literal decode queryParams separator)
                separator).1.lookup k
              = (extractQueryParameters decode queryParams separator).1.lookup k)
            ∧ literal decode (literal decode queryParams separator) separator
              = literal decode queryParams separator) :=
  ⟨fun _ hturns => extractByPosition_eq decode queryParams separator hturns,
    lookup_extractQueryParameters decode h, literal_parsed_back decode h⟩

/-- A key without a value, and a separator at the end: the empty key comes first in the
    literal, which therefore begins with the separator. -/
theorem trailing_separator_parsed :
    literal id "b=2&a&" '&' = "&a&b=2"
      ∧ literal id "&a&b=2" '&' = "&a&b=2"
      ∧ (extractQueryParameters id "b=2&a&" '&').1.lookup "b" = some "2" := by
  have hliteral : literal id "b=2&a&" '&' = "&a&b=2" := by decide +kernel
  obtain ⟨-, hlookup, hback⟩ := query_parsing_exact id "b=2&a&" '&' (by decide +kernel)
  rw [hliteral] at hback
  exact ⟨hliteral, (hback (by decide)).2, (hlookup "b" "2").mpr ⟨"2", by decide +kernel, rfl⟩⟩

end H2QueryParsing
