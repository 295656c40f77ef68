import Mathlib.Data.List.TakeWhile
import Mathlib.Data.Multiset.MapFold
import H2agent.TrafficServerProofs

/-! # Normalized query parameters — how far the literal is canonical

    `extractQueryParameters` cuts a query into pairs, keeps them in key order
    and joins them again.  The literal can be cut into the same pairs, so it
    tells two queries apart exactly when their pairs differ, as long as no key
    is repeated.  A repeated key ends the extraction early and leaves no literal
    at all.

    * `extractLoop_spec`: the loop collects the pairs, or ends at a repeated key;
    * `literal_pairs`: the pairs are read back from the literal;
    * `normalized_uris_equal_iff`: when two requests of one path share their
      normalized URI. -/

namespace H2Query

open H2Convert H2Key H2Traffic H2Transformation

/-! ## The pairs of a query -/

/-- The pairs of a query in their order: cut at the separator and then at the
    first `=`. -/
def pairList (separator : Char) (query : String) : List (String × String) :=
  (pieces separator query.toList).map cutPair

/-- The pairs of a query. -/
def queryPairs (separator : Char) (query : String) : Multiset (String × String) :=
  pairList separator query

/-- No key occurs twice. -/
def DistinctKeys (pairs : Multiset (String × String)) : Prop := (pairs.map Prod.fst).Nodup

/-- A query whose literal is empty: a key is repeated, or the only pair has
    neither key nor value. -/
def Collapsed (pairs : Multiset (String × String)) : Prop :=
  ¬ DistinctKeys pairs ∨ pairs = {("", "")}

theorem pieces_ne_nil (separator : Char) (cs : List Char) : pieces separator cs ≠ [] := by
  cases cs with
  | nil => simp [pieces]
  | cons c cs =>
      rw [pieces]
      split
      · simp
      · split <;> simp

theorem pairList_ne_nil (separator : Char) (query : String) : pairList separator query ≠ [] := by
  intro h
  exact pieces_ne_nil separator query.toList (List.map_eq_nil_iff.mp h)

/-- No piece holds the separator. -/
theorem not_mem_of_mem_pieces {separator : Char} {cs p : List Char}
    (h : p ∈ pieces separator cs) : separator ∉ p := by
  induction cs generalizing p with
  | nil =>
      obtain rfl := List.mem_singleton.mp h
      simp
  | cons c cs ih =>
      rw [pieces] at h
      by_cases hc : c = separator
      · rw [if_pos hc] at h
        rcases List.mem_cons.mp h with rfl | h
        · simp
        · exact ih h
      · rw [if_neg hc] at h
        cases hp : pieces separator cs with
        | nil => exact absurd hp (pieces_ne_nil separator cs)
        | cons q qs =>
            rw [hp] at h ih
            rcases List.mem_cons.mp h with rfl | h
            · rw [List.mem_cons, not_or]
              exact ⟨fun he => hc he.symm, ih (by simp)⟩
            · exact ih (by simp [h])

/-- A text without the separator is one piece. -/
theorem pieces_single {separator : Char} {p : List Char} (h : separator ∉ p) :
    pieces separator p = [p] := by
  induction p with
  | nil => rfl
  | cons c p ih =>
      rw [List.mem_cons, not_or] at h
      rw [pieces, if_neg (fun hc => h.1 hc.symm), ih h.2]

/-- The separator ends a piece. -/
theorem pieces_append {separator : Char} {p : List Char} (h : separator ∉ p) (rest : List Char) :
    pieces separator (p ++ separator :: rest) = p :: pieces separator rest := by
  induction p with
  | nil => rw [List.nil_append, pieces, if_pos rfl]
  | cons c p ih =>
      rw [List.mem_cons, not_or] at h
      rw [List.cons_append, pieces, if_neg (fun hc => h.1 hc.symm), ih h.2]

/-- A pair as it comes out of a query: no `=` in the key, no separator in either. -/
structure CleanPair (separator : Char) (p : String × String) : Prop where
  key_eq : '=' ∉ p.1.toList
  key_separator : separator ∉ p.1.toList
  value_separator : separator ∉ p.2.toList

theorem cleanPair_of_mem {separator : Char} {query : String} {p : String × String}
    (h : p ∈ pairList separator query) : CleanPair separator p := by
  obtain ⟨piece, hpiece, rfl⟩ := List.mem_map.mp h
  have hsep := not_mem_of_mem_pieces hpiece
  refine ⟨?_, ?_, ?_⟩
  · simp only [cutPair, String.toList_ofList]
    intro hm
    have hne := List.mem_takeWhile_imp hm
    simp at hne
  · simp only [cutPair, String.toList_ofList]
    exact fun hm => hsep ((List.takeWhile_sublist _).subset hm)
  · simp only [cutPair, String.toList_ofList]
    exact fun hm => hsep ((List.dropWhile_sublist _).subset ((List.drop_sublist _ _).subset hm))

/-! ## The literal -/

/-- A pair as the literal shows it. -/
def render (p : String × String) : String :=
  if p.2.isEmpty then p.1 else p.1 ++ "=" ++ p.2

theorem sortedLiteral_single (separator : Char) (p : String × String) :
    sortedLiteral separator [p] = render p := rfl

theorem sortedLiteral_cons (separator : Char) (p q : String × String)
    (l : List (String × String)) :
    sortedLiteral separator (p :: q :: l)
      = render p ++ separator.toString ++ sortedLiteral separator (q :: l) := rfl

/-- A shown pair has no separator; where `=` separates there is no value. -/
theorem render_separator {separator : Char} {p : String × String}
    (hs : separator = '=' → p.2 = "") (h : CleanPair separator p) :
    separator ∉ (render p).toList := by
  obtain ⟨_, hk, hv⟩ := h
  unfold render
  split
  · exact hk
  · next hvalue =>
      have hne : separator ≠ '=' := fun he => hvalue (String.isEmpty_iff.mpr (hs he))
      simp only [String.toList_append, List.mem_append, not_or]
      refine ⟨⟨hk, ?_⟩, hv⟩
      simpa using hne

/-- The pair is read back from what is shown of it. -/
theorem cutPair_render {separator : Char} {p : String × String} (h : CleanPair separator p) :
    cutPair (render p).toList = p := by
  obtain ⟨k, v⟩ := p
  have hk : ∀ c ∈ k.toList, (decide (c ≠ '=')) = true := by
    intro c hc
    exact decide_eq_true (fun he => h.key_eq (he ▸ hc))
  by_cases hv : v.isEmpty = true
  · have hv' : v = "" := String.isEmpty_iff.mp hv
    rw [render, if_pos hv, cutPair, List.takeWhile_eq_self_iff.mpr hk,
      List.dropWhile_eq_nil_iff.mpr hk, hv']
    simp
  · rw [render, if_neg hv]
    have hlist : (k ++ "=" ++ v).toList = k.toList ++ '=' :: v.toList := by
      simp [String.toList_append]
    rw [cutPair, hlist, List.takeWhile_append_of_pos hk, List.dropWhile_append_of_pos hk]
    simp

/-- **THE LITERAL IS READ BACK**: cutting the literal gives the pairs it was
    made of. -/
theorem literal_pairs {separator : Char} {l : List (String × String)}
    (hs : separator = '=' → ∀ p ∈ l, p.2 = "") (hne : l ≠ [])
    (hl : ∀ p ∈ l, CleanPair separator p) :
    pairList separator (sortedLiteral separator l) = l := by
  induction l with
  | nil => exact absurd rfl hne
  | cons p l ih =>
      have hp := hl p (by simp)
      have hshown := render_separator (fun he => hs he p (by simp)) hp
      cases l with
      | nil =>
          rw [sortedLiteral_single, pairList, pieces_single hshown,
            List.map_cons, cutPair_render hp]
          rfl
      | cons q l =>
          have hlist : (sortedLiteral separator (p :: q :: l)).toList
              = (render p).toList ++ separator :: (sortedLiteral separator (q :: l)).toList := by
            rw [sortedLiteral_cons, String.toList_append, String.toList_append,
              List.append_assoc]
            simp
          have ih' := ih (fun he r hr => hs he r (by simp [hr])) (by simp)
            (fun r hr => hl r (by simp [hr]))
          rw [pairList] at ih'
          rw [pairList, hlist, pieces_append hshown, List.map_cons, cutPair_render hp, ih']

/-! ## The loop -/

/-- The two maps of the loop: the same keys, the original values in key order. -/
structure Tracks (result : TextMap String) (original : List (String × String)) : Prop where
  keys : ∀ k, (result.lookup k).isSome = true ↔ k ∈ original.map Prod.fst
  ordered : KeyOrdered original

theorem Tracks.empty : Tracks ∅ [] :=
  ⟨by simp, List.Pairwise.nil⟩

/-- **STEP LEMMA**: a new key is added to both maps. -/
theorem Tracks.insert {result : TextMap String} {original : List (String × String)}
    (h : Tracks result original) {key : String} (hkey : key ∉ original.map Prod.fst)
    (value decoded : String) :
    Tracks (result.insert key decoded) (emplaceSorted key value original) := by
  refine ⟨?_, emplaceSorted_ordered hkey h.ordered⟩
  intro k
  rw [((emplaceSorted_perm hkey).map Prod.fst).mem_iff, List.map_cons, List.mem_cons, ← h.keys]
  by_cases hk : k = key
  · rw [hk, AList.lookup_insert]
    simp
  · rw [AList.lookup_insert_ne hk]
    simp [hk]

/-- One turn of the loop. -/
theorem extractLoop_cons (decode : String → String) (p : List Char) (ps : List (List Char))
    (result : TextMap String) (original : List (String × String)) :
    extractLoop decode (p :: ps) result original
      = if (result.lookup (cutPair p).1).isSome then none
        else extractLoop decode ps (result.insert (cutPair p).1 (decode (cutPair p).2))
          (emplaceSorted (cutPair p).1 (cutPair p).2 original) := rfl

/-- **LOOP**: pairs with new, distinct keys are collected in key order; any other
    pairs end the extraction early. -/
theorem extractLoop_spec (decode : String → String) (ps : List (List Char))
    {result : TextMap String} {original : List (String × String)}
    (h : Tracks result original) :
    (((ps.map cutPair ++ original).map Prod.fst).Nodup →
      ∃ result' original', extractLoop decode ps result original = some (result', original')
        ∧ KeyOrdered original' ∧ original'.Perm (ps.map cutPair ++ original))
    ∧ (¬ ((ps.map cutPair ++ original).map Prod.fst).Nodup →
      extractLoop decode ps result original = none) := by
  induction ps generalizing result original with
  | nil =>
      refine ⟨fun _ => ⟨result, original, rfl, h.ordered, List.Perm.refl _⟩, ?_⟩
      intro hrep
      refine absurd ?_ hrep
      exact (h.ordered.imp (fun hlt => ne_of_lt hlt)).map Prod.fst (fun _ _ hne => hne)
  | cons p ps ih =>
      rw [extractLoop_cons]
      by_cases hseen : (result.lookup (cutPair p).1).isSome = true
      · -- the key of this pair is there already
        rw [if_pos hseen]
        have hmem := (h.keys _).mp hseen
        refine ⟨fun hnodup => ?_, fun _ => rfl⟩
        rw [List.map_cons, List.cons_append, List.map_cons, List.nodup_cons] at hnodup
        refine absurd ?_ hnodup.1
        rw [List.map_append, List.mem_append]
        exact .inr hmem
      · rw [if_neg hseen]
        have hnew : (cutPair p).1 ∉ original.map Prod.fst := fun hm => hseen ((h.keys _).mpr hm)
        obtain ⟨ihsome, ihnone⟩ := ih (h.insert hnew (cutPair p).2 (decode (cutPair p).2))
        have hperm : (ps.map cutPair ++ emplaceSorted (cutPair p).1 (cutPair p).2 original).Perm
            ((p :: ps).map cutPair ++ original) := by
          refine ((emplaceSorted_perm hnew).append_left _).trans ?_
          rw [List.map_cons, List.cons_append]
          exact List.perm_middle
        have hkeys := (hperm.map Prod.fst).nodup_iff
        refine ⟨fun hnodup => ?_, fun hrep => ihnone (fun hn => hrep (hkeys.mp hn))⟩
        obtain ⟨result', original', heq, hord, hp⟩ := ihsome (hkeys.mpr hnodup)
        exact ⟨result', original', heq, hord, hp.trans hperm⟩

/-! ## Queries and their literals -/

/-- The literal of a query. -/
def literal (decode : String → String) (query : String) (separator : Char) : String :=
  (extractQueryParameters decode query separator).2

/-- The pairs of a query in key order. -/
structure InOrder (separator : Char) (query : String) (l : List (String × String)) : Prop where
  ordered : KeyOrdered l
  perm : l.Perm (pairList separator query)

theorem InOrder.ne_nil {separator : Char} {query : String} {l : List (String × String)}
    (h : InOrder separator query l) : l ≠ [] := by
  intro hl
  have hperm := h.perm
  rw [hl] at hperm
  exact pairList_ne_nil separator query hperm.nil_eq.symm

theorem InOrder.clean {separator : Char} {query : String} {l : List (String × String)}
    (h : InOrder separator query l) : ∀ p ∈ l, CleanPair separator p :=
  fun _ hp => cleanPair_of_mem (h.perm.mem_iff.mp hp)

/-- The literal of a query is that of its pairs in key order, or empty where a
    key is repeated. -/
theorem literal_cases (decode : String → String) {query : String} (separator : Char)
    (hq : query.isEmpty = false) :
    (DistinctKeys (queryPairs separator query)
        ∧ ∃ l, InOrder separator query l
          ∧ literal decode query separator = sortedLiteral separator l)
      ∨ (¬ DistinctKeys (queryPairs separator query) ∧ literal decode query separator = "") := by
  obtain ⟨hsome, hnone⟩ :=
    extractLoop_spec decode (pieces separator query.toList) Tracks.empty
  rw [List.append_nil] at hsome hnone
  have hdistinct : DistinctKeys (queryPairs separator query)
      ↔ (((pieces separator query.toList).map cutPair).map Prod.fst).Nodup := by
    simp [DistinctKeys, queryPairs, pairList]
  by_cases hd : DistinctKeys (queryPairs separator query)
  · obtain ⟨result, original, heq, hord, hperm⟩ := hsome (hdistinct.mp hd)
    refine .inl ⟨hd, original, ⟨hord, hperm⟩, ?_⟩
    rw [literal, extractQueryParameters, hq, heq]
    rfl
  · refine .inr ⟨hd, ?_⟩
    rw [literal, extractQueryParameters, hq, hnone (fun hn => hd (hdistinct.mpr hn))]
    rfl

/-- Only an empty pair shows as nothing. -/
theorem sortedLiteral_eq_empty {separator : Char} (hs : separator ≠ '=')
    {l : List (String × String)} (hne : l ≠ []) (hl : ∀ p ∈ l, CleanPair separator p) :
    sortedLiteral separator l = "" ↔ l = [("", "")] := by
  constructor
  · intro h
    have hback := literal_pairs (fun he => absurd he hs) hne hl
    rw [h] at hback
    rw [← hback]
    rfl
  · intro h
    rw [h]
    rfl

/-- The literal is empty exactly for the collapsed queries. -/
theorem literal_empty_iff (decode : String → String) {separator : Char} (hs : separator ≠ '=')
    {q : String} (hq : q.isEmpty = false) :
    literal decode q separator = "" ↔ Collapsed (queryPairs separator q) := by
  rcases literal_cases decode separator hq with ⟨hd, l, hin, hl⟩ | ⟨hd, hl⟩
  · have hsame : queryPairs separator q = (l : Multiset (String × String)) :=
      (Multiset.coe_eq_coe.mpr hin.perm).symm
    rw [hl, sortedLiteral_eq_empty hs hin.ne_nil hin.clean]
    constructor
    · intro h
      right
      rw [hsame, h]
      rfl
    · rintro (h | h)
      · exact absurd hd h
      · rw [hsame] at h
        exact Multiset.coe_eq_singleton.mp h
  · rw [hl]
    exact ⟨fun _ => .inl hd, fun _ => rfl⟩

/-- Outside the collapsed queries the pairs are those of the literal. -/
theorem queryPairs_literal (decode : String → String) {separator : Char} (hs : separator ≠ '=')
    {q : String} (hq : q.isEmpty = false) (hc : ¬ Collapsed (queryPairs separator q)) :
    queryPairs separator q = queryPairs separator (literal decode q separator) := by
  rcases literal_cases decode separator hq with ⟨_, l, hin, hl⟩ | ⟨hd, _⟩
  · have hback := literal_pairs (fun he => absurd he hs) hin.ne_nil hin.clean
    rw [hl, queryPairs, queryPairs, hback]
    exact (Multiset.coe_eq_coe.mpr hin.perm).symm
  · exact absurd (.inl hd) hc

/-- The same pairs, in any order, give the same literal. -/
theorem literal_eq_of_pairs (decode : String → String) {separator : Char} {q q' : String}
    (hq : q.isEmpty = false) (hq' : q'.isEmpty = false)
    (h : queryPairs separator q = queryPairs separator q') :
    literal decode q separator = literal decode q' separator := by
  have hperm : (pairList separator q).Perm (pairList separator q') := Multiset.coe_eq_coe.mp h
  rcases literal_cases decode separator hq with ⟨hd, l, hin, heq⟩ | ⟨hd, heq⟩
  · rcases literal_cases decode separator hq' with ⟨_, l', hin', heq'⟩ | ⟨hd', _⟩
    · have hll : l = l' :=
        hin.ordered.eq_of_perm hin'.ordered ((hin.perm.trans hperm).trans hin'.perm.symm)
      rw [heq, heq', hll]
    · exact absurd (h ▸ hd) hd'
  · rcases literal_cases decode separator hq' with ⟨hd', _⟩ | ⟨_, heq'⟩
    · exact absurd (h ▸ hd') hd
    · rw [heq, heq']

/-- **CANONICAL LITERALS**: two queries share their literal exactly when they
    have the same pairs, or both are collapsed. -/
theorem literals_equal_iff (decode : String → String) {separator : Char} (hs : separator ≠ '=')
    {q q' : String} (hq : q.isEmpty = false) (hq' : q'.isEmpty = false) :
    literal decode q separator = literal decode q' separator
      ↔ queryPairs separator q = queryPairs separator q'
        ∨ (Collapsed (queryPairs separator q) ∧ Collapsed (queryPairs separator q')) := by
  constructor
  · intro h
    by_cases hc : Collapsed (queryPairs separator q)
    · refine .inr ⟨hc, (literal_empty_iff decode hs hq').mp ?_⟩
      rw [← h]
      exact (literal_empty_iff decode hs hq).mpr hc
    · have hc' : ¬ Collapsed (queryPairs separator q') := by
        intro hc'
        refine hc ((literal_empty_iff decode hs hq).mp ?_)
        rw [h]
        exact (literal_empty_iff decode hs hq').mpr hc'
      left
      rw [queryPairs_literal decode hs hq hc, h, ← queryPairs_literal decode hs hq' hc']
  · rintro (h | ⟨hc, hc'⟩)
    · exact literal_eq_of_pairs decode hq hq' h
    · rw [(literal_empty_iff decode hs hq).mpr hc, (literal_empty_iff decode hs hq').mpr hc']

/-! ## Normalized URIs -/

/-- The separator of a configuration is never `=`. -/
theorem separator_ne_eq (c : Config) : c.separator ≠ '=' := by
  unfold Config.separator
  split <;> decide

/-- A request with a query is normalized to its path and the literal. -/
theorem normalize_uri (lib : Lib) (c : Config) {req : Request}
    (hq : req.uriQuery.isEmpty = false) :
    (normalize lib c req).1
      = req.uriPath ++ "?" ++ literal lib.urlDecode req.uriQuery c.separator := by
  rw [H2Traffic.normalize, hq]
  rfl

/-- **CANONICAL NORMALIZATION**: two requests of one path with queries are
    normalized to one URI if and only if their queries have the same pairs, or
    both queries repeat a key or consist of the empty pair alone; so among the
    queries that repeat no key the URI tells the pairs, and a repeated key
    leaves the path and the question mark. -/
theorem normalized_uris_equal_iff (lib : Lib) (c : Config) (req req' : Request)
    (hpath : req.uriPath = req'.uriPath) (hq : req.uriQuery.isEmpty = false)
    (hq' : req'.uriQuery.isEmpty = false) :
    ((normalize lib c req).1 = (normalize lib c req').1
      ↔ queryPairs c.separator req.uriQuery = queryPairs c.separator req'.uriQuery
        ∨ (Collapsed (queryPairs c.separator req.uriQuery)
          ∧ Collapsed (queryPairs c.separator req'.uriQuery)))
    ∧ (DistinctKeys (queryPairs c.separator req.uriQuery) →
        DistinctKeys (queryPairs c.separator req'.uriQuery) →
        ((normalize lib c req).1 = (normalize lib c req').1
          ↔ queryPairs c.separator req.uriQuery = queryPairs c.separator req'.uriQuery))
    ∧ (¬ DistinctKeys (queryPairs c.separator req.uriQuery) →
        (normalize lib c req).1 = req.uriPath ++ "?") := by
  have hs := separator_ne_eq c
  have hiff : (normalize lib c req).1 = (normalize lib c req').1
      ↔ queryPairs c.separator req.uriQuery = queryPairs c.separator req'.uriQuery
        ∨ (Collapsed (queryPairs c.separator req.uriQuery)
          ∧ Collapsed (queryPairs c.separator req'.uriQuery)) := by
    rw [normalize_uri lib c hq, normalize_uri lib c hq', hpath,
      ← literals_equal_iff lib.urlDecode hs hq hq']
    constructor
    · intro h
      have hl := congrArg String.toList h
      simp only [String.toList_append] at hl
      exact String.toList_inj.mp (List.append_cancel_left hl)
    · intro h
      rw [h]
  refine ⟨hiff, ?_, ?_⟩
  · intro hd hd'
    rw [hiff]
    refine ⟨?_, .inl⟩
    rintro (h | ⟨hc | hc, hc' | hc'⟩)
    · exact h
    · exact absurd hd hc
    · exact absurd hd hc
    · exact absurd hd' hc'
    · rw [hc, hc']
  · intro hd
    rw [normalize_uri lib c hq, (literal_empty_iff lib.urlDecode hs hq).mpr (.inl hd)]
    simp

/-- A request for one path. -/
def requestWith (query : String) : Request :=
  { method := "GET", uriPath := "/app", uriQuery := query }

/-- Two orders of the same pairs share their URI. -/
theorem reordered_pairs_share_uri :
    (normalize idleLib {} (requestWith "b=2&a=1")).1
      = (normalize idleLib {} (requestWith "a=1&b=2")).1 := by
  have h := normalized_uris_equal_iff idleLib {} (requestWith "b=2&a=1") (requestWith "a=1&b=2")
    rfl (by decide) (by decide)
  exact h.1.mpr (.inl (by decide +kernel))

/-- Two queries that repeat different keys have different pairs and one URI. -/
theorem repeated_keys_share_uri :
    (requestWith "a=1&a=2").uriPath = (requestWith "b=1&b=2").uriPath
      ∧ (requestWith "a=1&a=2").uriQuery.isEmpty = false
      ∧ (requestWith "b=1&b=2").uriQuery.isEmpty = false
      ∧ (normalize idleLib {} (requestWith "a=1&a=2")).1
        = (normalize idleLib {} (requestWith "b=1&b=2")).1
      ∧ queryPairs '&' "a=1&a=2" ≠ queryPairs '&' "b=1&b=2" := by
  refine ⟨rfl, by decide, by decide, ?_, by decide +kernel⟩
  have hq : (requestWith "a=1&a=2").uriQuery.isEmpty = false := by decide
  have hq' : (requestWith "b=1&b=2").uriQuery.isEmpty = false := by decide
  have hrep : ¬ DistinctKeys (queryPairs '&' "a=1&a=2") := by
    unfold DistinctKeys
    decide +kernel
  have hrep' : ¬ DistinctKeys (queryPairs '&' "b=1&b=2") := by
    unfold DistinctKeys
    decide +kernel
  rw [normalize_uri idleLib {} hq, normalize_uri idleLib {} hq']
  have hs : ('&' : Char) ≠ '=' := by decide
  have hl := (literal_empty_iff idleLib.urlDecode hs hq).mpr (.inl hrep)
  have hl' := (literal_empty_iff idleLib.urlDecode hs hq').mpr (.inl hrep')
  exact congrArg ("/app" ++ "?" ++ ·) (hl.trans hl'.symm)

end H2Query
