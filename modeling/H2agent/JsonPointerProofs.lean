import Mathlib.Data.List.Basic
import Mathlib.Data.String.Basic
import H2agent.JsonTreeProofs

/-! # Writing through JSON pointers

    `j[pointer] = value` creates what the pointer goes through, and raises an
    exception half way when a token cannot be followed.  What the write leaves
    of the rest of the document is settled here, for documents of any shape.

    * `arrayIndex_eq_some`: the token of an array index is its numeral;
    * `getAt_modifyAt_of_readable`: whatever could be read beside the pointer still
      can be, whether the write goes through or not;
    * `WritesLocally` and `Neat`, `writesLocally_iff`: when the write changes
      nothing but what the pointer addresses, and changes nothing at all when it
      fails. -/

namespace JsonValue

namespace Json

open CppText

/-! ## Tokens -/

theorem digits_of_allDigits {token : String} (h : allDigits token = true) :
    ∀ c ∈ token.toList, '0' ≤ c ∧ c ≤ '9' := by
  intro c hc
  simpa using (List.all_eq_true.mp h) c hc

/-- No numeral but zero begins with a zero. -/
theorem head_toDigits {n : Nat} (hn : 0 < n) : (Nat.toDigits 10 n).head? ≠ some '0' := by
  induction n using Nat.strongRecOn with
  | ind n ih =>
      by_cases hlt : n < 10
      · rw [Nat.toDigits_of_lt_base hlt]
        simp only [List.head?_cons, ne_eq, Option.some.injEq, Nat.digitChar_eq_zero]
        omega
      · have hhead := ih (n / 10) (by omega) (by omega)
        rw [Nat.toDigits_of_base_le (by decide) (by omega), List.head?_append]
        cases h : (Nat.toDigits 10 (n / 10)).head? with
        | none => exact absurd (List.head?_eq_none_iff.mp h) Nat.toDigits_ne_nil
        | some c =>
            rw [h] at hhead
            simpa using hhead

/-- Array indexes are the numerals, without leading zeros, below `2^64 - 1`. -/
theorem arrayIndex_eq_some {token : String} {n : Nat} :
    arrayIndex token = some n ↔ token = n.repr ∧ n < 18446744073709551615 := by
  constructor
  · intro h
    unfold arrayIndex at h
    cases hlist : token.toList with
    | nil => simp [hlist] at h
    | cons c cs =>
        simp only [hlist] at h
        split at h
        · cases h
        · next hplain =>
          simp only [not_or, not_and, Bool.not_eq_true', Bool.not_eq_false] at hplain
          have hds := digits_of_allDigits hplain.2
          rw [hlist] at hds
          rw [ofDigitList_digits hds] at h
          split at h
          · next hlt =>
            cases h
            refine ⟨?_, hlt⟩
            have hzero : c = '0' → cs = [] := fun h0 => not_not.mp (hplain.1 h0)
            rw [Nat.repr_eq_ofList_toDigits, toDigits_decimal hds hzero, ← hlist,
              String.ofList_toList]
          · cases h
  · rintro ⟨rfl, hlt⟩
    have hds : ∀ c ∈ n.repr.toList, '0' ≤ c ∧ c ≤ '9' := by
      intro c hc
      rw [Nat.toList_repr] at hc
      exact digit_of_isDigit (Nat.isDigit_of_mem_toDigits (by decide) (by decide) hc)
    have hall : allDigits n.repr = true := by
      rw [allDigits, List.all_eq_true]
      intro c hc
      simpa using hds c hc
    have hvalue : ofDigitList 10 (digitsOf 10 n.repr.toList) = n := by
      rw [ofDigitList_digits hds, Nat.toList_repr, Nat.ofDigitChars_ten_toDigits]
    unfold arrayIndex
    cases hlist : n.repr.toList with
    | nil =>
        rw [Nat.toList_repr] at hlist
        exact absurd hlist Nat.toDigits_ne_nil
    | cons c cs =>
        have hplain : ¬ ((c = '0' ∧ cs ≠ []) ∨ !allDigits n.repr) := by
          rintro (⟨rfl, hcs⟩ | hdigit)
          · have hpos : 0 < n := by
              rcases Nat.eq_zero_or_pos n with rfl | hpos
              · rw [Nat.toList_repr, Nat.toDigits_zero] at hlist
                cases hlist
                exact absurd rfl hcs
              · exact hpos
            apply head_toDigits hpos
            rw [← Nat.toList_repr, hlist, List.head?_cons]
          · rw [hall] at hdigit
            cases hdigit
        rw [hlist] at hvalue
        simp only [hplain, if_false, hvalue, hlt, if_true]

theorem arrayIndex_injective {s t : String} {n : Nat} (hs : arrayIndex s = some n)
    (ht : arrayIndex t = some n) : s = t := by
  rw [(arrayIndex_eq_some.mp hs).1, (arrayIndex_eq_some.mp ht).1]

theorem arrayIndex_dash : arrayIndex "-" = none := by decide

/-! ## One token -/

/-- The value one token below. -/
def child (t : String) : Json → Option Json
  | .obj fields => field t fields
  | .arr l => (arrayIndex t).bind fun n => l[n]?
  | _ => none

theorem getAt_cons (t : String) (ts : List String) (j : Json) :
    getAt (t :: ts) j = (child t j).bind (getAt ts) := by
  cases j with
  | arr l =>
      rw [getAt, child]
      by_cases ht : t = "-"
      · rw [if_pos ht, ht, arrayIndex_dash]
        rfl
      · rw [if_neg ht]
  | _ => rfl

/-- A value put one token below, in what the token makes of the value. -/
def place (t : String) (c : Json) (j : Json) : Option Json :=
  match promote t j with
  | .obj fields => some (.obj (setField t c fields))
  | .arr l =>
      if t = "-" then some (.arr (l ++ [c]))
      else (arrayIndex t).map fun n => .arr ((padTo (n + 1) l).set n c)
  | _ => none

theorem getElem?_padTo (l : List Json) (m n : Nat) :
    (padTo n l)[m]? = if m < l.length then l[m]? else if m < n then some .null else none := by
  rw [padTo, List.getElem?_append]
  by_cases hm : m < l.length
  · rw [if_pos hm, if_pos hm]
  · rw [if_neg hm, if_neg hm, List.getElem?_replicate]
    by_cases hn : m < n
    · rw [if_pos hn, if_pos (by omega)]
    · rw [if_neg hn, if_neg (by omega)]

/-- A null that becomes a container has nothing below it. -/
theorem child_promote (s t : String) (j : Json) : child s (promote t j) = child s j := by
  cases j with
  | null =>
      rw [promote]
      split
      · cases h : arrayIndex s <;> simp [child, h]
      · rfl
  | _ => rfl

/-- A change below: the value one token below is changed and put back. -/
theorem modifyAt_cons (change : Json → Json × Bool) (t : String) (ts : List String) (j : Json) :
    modifyAt change (t :: ts) j
      = match place t (modifyAt change ts ((child t j).getD .null)).1 j with
        | some j' => (j', (modifyAt change ts ((child t j).getD .null)).2)
        | none => (promote t j, false) := by
  rw [modifyAt, place, ← child_promote t t j]
  cases promote t j with
  | obj fields => rfl
  | arr l =>
      dsimp only
      by_cases ht : t = "-"
      · rw [if_pos ht, if_pos ht, child, ht, arrayIndex_dash]
        rfl
      · rw [if_neg ht, if_neg ht, child]
        cases arrayIndex t with
        | none => rfl
        | some n =>
            have hnull : ((padTo (n + 1) l)[n]?).getD .null = (l[n]?).getD .null := by
              rw [getElem?_padTo]
              by_cases hn : n < l.length
              · rw [if_pos hn]
              · rw [if_neg hn, if_pos (Nat.lt_succ_self n), List.getElem?_eq_none (by omega)]
                rfl
            simp only [hnull, Option.map_some, Option.bind_some]
  | _ => rfl

/-- What was put below is found there, unless it was appended: no token is read as the
    end of an array. -/
theorem child_place {t : String} {c j j' : Json} (h : place t c j = some j') :
    child t j' = some c ∨ (child t j = none ∧ child t j' = none) := by
  rw [place] at h
  rw [← child_promote t t j]
  cases hp : promote t j with
  | obj fields =>
      simp only [hp, Option.some.injEq] at h
      rw [← h, child, field_setField, if_pos rfl]
      exact Or.inl rfl
  | arr l =>
      simp only [hp] at h
      by_cases ht : t = "-"
      · rw [if_pos ht, Option.some.injEq] at h
        rw [← h, child, child, ht, arrayIndex_dash]
        exact Or.inr ⟨rfl, rfl⟩
      · rw [if_neg ht, Option.map_eq_some_iff] at h
        obtain ⟨n, hn, rfl⟩ := h
        have hlen : n < (padTo (n + 1) l).length := by
          rw [padTo, List.length_append, List.length_replicate]
          omega
        left
        rw [child, hn, Option.bind_some, List.getElem?_set_self hlen]
  | _ => simp [hp] at h

/-- What could be found below another token still is. -/
theorem child_place_ne {s t : String} {c j j' v : Json} (h : place t c j = some j') (hst : s ≠ t)
    (hs : child s j = some v) : child s j' = some v := by
  rw [place] at h
  rw [← child_promote s t j] at hs
  cases hp : promote t j with
  | obj fields =>
      simp only [hp, Option.some.injEq] at h
      rw [hp, child] at hs
      rw [← h, child, field_setField, if_neg hst]
      exact hs
  | arr l =>
      rw [hp, child, Option.bind_eq_some_iff] at hs
      obtain ⟨m, hm, hget⟩ := hs
      obtain ⟨hlt, -⟩ := List.getElem?_eq_some_iff.mp hget
      simp only [hp] at h
      by_cases ht : t = "-"
      · rw [if_pos ht, Option.some.injEq] at h
        rw [← h, child, hm, Option.bind_some, List.getElem?_append_left hlt, hget]
      · rw [if_neg ht, Option.map_eq_some_iff] at h
        obtain ⟨n, hn, rfl⟩ := h
        have hne : n ≠ m := by
          rintro rfl
          exact hst (arrayIndex_injective hm hn)
        rw [child, hm, Option.bind_some, List.getElem?_set_ne hne, getElem?_padTo, if_pos hlt, hget]
  | _ => simp [hp] at h

/-! ## What stays readable -/

/-- One of two pointers leads through the other. -/
def Comparable (p q : List String) : Prop := p <+: q ∨ q <+: p

theorem comparable_cons {t : String} {p q : List String} :
    Comparable (t :: p) (t :: q) ↔ Comparable p q := by
  simp only [Comparable, List.cons_prefix_cons, true_and]

/-- Whatever could be read beside the pointer can be read after the change, whether it
    went through or not. -/
theorem getAt_modifyAt_of_readable (change : Json → Json × Bool) {p q : List String} {j v : Json}
    (hq : ¬ Comparable q p) (hv : getAt q j = some v) :
    getAt q (modifyAt change p j).1 = some v := by
  induction p generalizing j q with
  | nil => exact absurd (Or.inr List.nil_prefix) hq
  | cons t ts ih =>
      cases q with
      | nil => exact absurd (Or.inl List.nil_prefix) hq
      | cons s qs =>
          rw [getAt_cons, Option.bind_eq_some_iff] at hv
          obtain ⟨w, hw, hv⟩ := hv
          rw [modifyAt_cons]
          cases hplace : place t (modifyAt change ts ((child t j).getD .null)).1 j with
          | none =>
              show getAt (s :: qs) (promote t j) = some v
              rw [getAt_cons, child_promote, hw]
              exact hv
          | some j' =>
              show getAt (s :: qs) j' = some v
              rw [getAt_cons]
              by_cases hst : s = t
              · subst hst
                rcases child_place hplace with hchild | ⟨hnone, -⟩
                · rw [hchild, hw]
                  exact ih (fun h => hq (comparable_cons.mpr h)) hv
                · rw [hnone] at hw
                  cases hw
              · rw [child_place_ne hplace hst hw]
                exact hv

/-! ## Writes that change nothing else -/

/-- `j[p] = x` for a value that may be missing: when it goes through, `p` reads `x` and
    every pointer beside `p` reads as before; when it fails, nothing has changed. -/
def WritesLocally (x : Json) (o : Option Json) (p : List String) : Prop :=
  if ((o.getD .null).setAt p x).2 = true then
    getAt p ((o.getD .null).setAt p x).1 = some x ∧
      ∀ q, ¬ Comparable q p → getAt q ((o.getD .null).setAt p x).1 = o.bind (getAt q)
  else o = some ((o.getD .null).setAt p x).1

/-- The pointer makes nothing beside what it addresses: it enters an array at one of its
    elements or right after the last one, and whatever it has to create it can follow to
    its end. -/
def Neat : Option Json → List String → Prop
  | _, [] => True
  | some (.obj fields), t :: ts => Neat (field t fields) ts
  | some (.arr l), t :: ts =>
      t ≠ "-" ∧ ∀ n, arrayIndex t = some n → n ≤ l.length ∧ Neat l[n]? ts
  | some .null, t :: ts | none, t :: ts =>
      ((allDigits t || t == "-") = true → t = "0") ∧ Neat none ts
  | some _, _ :: _ => True

/-- A token that leads into a value: whatever is put below is found there, the rest is
    as before, and nothing changes when what is put below was there. -/
def Enters (o : Option Json) (t : String) : Prop :=
  ∀ c, ∃ j', place t c (o.getD .null) = some j' ∧ child t j' = some c ∧
    (∀ s, s ≠ t → child s j' = o.bind (child s)) ∧ (o = some j' ↔ o.bind (child t) = some c)

theorem child_getD (t : String) (o : Option Json) : child t (o.getD .null) = o.bind (child t) := by
  cases o <;> rfl

theorem bind_getAt_cons (t : String) (ts : List String) (o : Option Json) :
    o.bind (getAt (t :: ts)) = (o.bind (child t)).bind (getAt ts) := by
  cases o with
  | none => rfl
  | some j => exact getAt_cons t ts j

/-- Below a token that leads into the value, the write is that of the value below. -/
theorem writesLocally_cons {x : Json} {o : Option Json} {t : String} (h : Enters o t)
    (ts : List String) : WritesLocally x o (t :: ts) ↔ WritesLocally x (o.bind (child t)) ts := by
  obtain ⟨j', hplace, hsame, hother, heq⟩ := h (((o.bind (child t)).getD .null).setAt ts x).1
  have hset : (o.getD .null).setAt (t :: ts) x
      = (j', (((o.bind (child t)).getD .null).setAt ts x).2) := by
    rw [setAt, modifyAt_cons, child_getD]
    rw [setAt] at hplace
    rw [hplace]
    rfl
  rw [WritesLocally, WritesLocally, hset]
  by_cases hok : (((o.bind (child t)).getD .null).setAt ts x).2 = true
  · rw [if_pos hok, if_pos hok, getAt_cons, hsame, Option.bind_some]
    refine and_congr_right fun _ => ⟨fun hframe q hq => ?_, fun hframe q hq => ?_⟩
    · have hread := hframe (t :: q) (fun hc => hq (comparable_cons.mp hc))
      rw [getAt_cons, hsame, Option.bind_some, bind_getAt_cons] at hread
      exact hread
    · cases q with
      | nil => exact absurd (Or.inl List.nil_prefix) hq
      | cons s qs =>
          rw [getAt_cons, bind_getAt_cons]
          by_cases hst : s = t
          · subst hst
            rw [hsame, Option.bind_some]
            exact hframe qs (fun hc => hq (comparable_cons.mpr hc))
          · rw [hother s hst]
  · rw [if_neg hok, if_neg hok]
    exact heq

/-- Objects are maps that keep their keys in order. -/
def Ordered (j : Json) : Prop :=
  ∀ fields, Inside (.obj fields) j → (fields.map Prod.fst).Pairwise (· < ·)

theorem Ordered.member {fields : List (String × Json)} (h : Ordered (.obj fields)) {t : String}
    {c : Json} (hc : field t fields = some c) : Ordered c :=
  fun fs hin => h fs (.member (mem_of_field hc) hin)

theorem Ordered.element {l : List Json} (h : Ordered (.arr l)) {c : Json} (hc : c ∈ l) : Ordered c :=
  fun fs hin => h fs (.element hc hin)

theorem Ordered.child {j : Json} (h : Ordered j) {t : String} {c : Json} (hc : Json.child t j = some c) :
    Ordered c := by
  cases j with
  | obj fields => exact h.member hc
  | arr l =>
      rw [Json.child, Option.bind_eq_some_iff] at hc
      obtain ⟨n, -, hget⟩ := hc
      exact h.element (List.mem_of_getElem? hget)
  | _ => cases hc

/-- A member that is set to its own value. -/
theorem setField_self {fields : List (String × Json)}
    (hordered : (fields.map Prod.fst).Pairwise (· < ·)) {t : String} {c : Json}
    (h : field t fields = some c) : setField t c fields = fields := by
  induction fields with
  | nil => cases h
  | cons kv rest ih =>
      obtain ⟨k, v⟩ := kv
      rw [List.map_cons, List.pairwise_cons] at hordered
      rw [field_cons] at h
      rw [setField]
      by_cases hk : k = t
      · rw [if_pos hk, Option.some.injEq] at h
        rw [if_pos hk, h]
      · rw [if_neg hk] at h
        have hlt : k < t := hordered.1 t (List.mem_map.mpr ⟨(t, c), mem_of_field h, rfl⟩)
        rw [if_neg hk, if_neg (lt_asymm hlt), ih hordered.2 h]

theorem enters_obj {fields : List (String × Json)} (hordered : Ordered (.obj fields)) (t : String) :
    Enters (some (.obj fields)) t := by
  intro c
  refine ⟨.obj (setField t c fields), rfl, ?_, ?_, ?_⟩
  · rw [child, field_setField, if_pos rfl]
  · intro s hst
    rw [child, field_setField, if_neg hst]
    rfl
  · rw [Option.some.injEq, Json.obj.injEq]
    show fields = setField t c fields ↔ field t fields = some c
    constructor
    · intro h
      rw [h, field_setField, if_pos rfl]
    · intro h
      exact (setField_self (hordered fields .here) h).symm

/-- The elements after one was set at an index up to the end. -/
theorem getElem?_set_padTo {l : List Json} {n : Nat} (hn : n ≤ l.length) (c : Json) (m : Nat) :
    ((padTo (n + 1) l).set n c)[m]? = if m = n then some c else l[m]? := by
  have hlen : n < (padTo (n + 1) l).length := by
    rw [padTo, List.length_append, List.length_replicate]
    omega
  by_cases hm : m = n
  · rw [if_pos hm, hm, List.getElem?_set_self hlen]
  · rw [if_neg hm, List.getElem?_set_ne (Ne.symm hm), getElem?_padTo]
    by_cases hlt : m < l.length
    · rw [if_pos hlt]
    · rw [if_neg hlt, if_neg (by omega), List.getElem?_eq_none (by omega)]

theorem enters_arr {l : List Json} {t : String} {n : Nat} (hindex : arrayIndex t = some n)
    (hn : n ≤ l.length) : Enters (some (.arr l)) t := by
  have hdash : t ≠ "-" := by
    rintro rfl
    rw [arrayIndex_dash] at hindex
    cases hindex
  intro c
  refine ⟨.arr ((padTo (n + 1) l).set n c), ?_, ?_, ?_, ?_⟩
  · simp only [place, promote, Option.getD_some, if_neg hdash, hindex, Option.map_some]
  · rw [child, hindex, Option.bind_some, getElem?_set_padTo hn, if_pos rfl]
  · intro s hst
    simp only [child, Option.bind_some]
    cases hs : arrayIndex s with
    | none => rfl
    | some m =>
        have hm : m ≠ n := by
          rintro rfl
          exact hst (arrayIndex_injective hs hindex)
        rw [Option.bind_some, getElem?_set_padTo hn, if_neg hm]
        rfl
  · rw [Option.some.injEq, Json.arr.injEq, Option.bind_some, child, hindex, Option.bind_some]
    constructor
    · intro h
      rw [h, getElem?_set_padTo hn, if_pos rfl]
    · intro h
      apply List.ext_getElem?
      intro m
      rw [getElem?_set_padTo hn]
      by_cases hm : m = n
      · rw [if_pos hm, hm, h]
      · rw [if_neg hm]

theorem place_null_arr {t : String} (h : (allDigits t || t == "-") = true) (c : Json) :
    place t c .null = place t c (.arr []) := by
  rw [place, place, promote, if_pos h]
  rfl

theorem place_null_obj {t : String} (h : ¬ (allDigits t || t == "-") = true) (c : Json) :
    place t c .null = some (.obj [(t, c)]) := by
  rw [place, promote, if_neg h]
  rfl

theorem bind_child_null {o : Option Json} (ho : o = none ∨ o = some .null) (s : String) :
    o.bind (child s) = none := by
  rcases ho with rfl | rfl <;> rfl

theorem getD_null {o : Option Json} (ho : o = none ∨ o = some .null) : o.getD .null = .null := by
  rcases ho with rfl | rfl <;> rfl

/-- What is missing, or null, becomes what the token asks for. -/
theorem enters_null {o : Option Json} (ho : o = none ∨ o = some .null) {t : String}
    (ht : (allDigits t || t == "-") = true → t = "0") : Enters o t := by
  intro c
  rw [getD_null ho, bind_child_null ho]
  by_cases hdigits : (allDigits t || t == "-") = true
  · obtain rfl := ht hdigits
    obtain ⟨j', hplace, hsame, hother, -⟩ := enters_arr (l := []) (t := "0") (n := 0) rfl le_rfl c
    rw [place_null_arr hdigits]
    refine ⟨j', hplace, hsame, fun s hst => ?_, ?_⟩
    · rw [hother s hst, bind_child_null ho, Option.bind_some, child]
      cases arrayIndex s <;> rfl
    · constructor
      · rintro rfl
        rcases ho with ho | ho <;> cases ho
        cases hsame
      · intro h
        cases h
  · rw [place_null_obj hdigits]
    refine ⟨.obj [(t, c)], rfl, ?_, fun s hst => ?_, ?_⟩
    · rw [child, field_cons, if_pos rfl]
    · rw [child, field_cons, if_neg (Ne.symm hst), bind_child_null ho]
      rfl
    · constructor
      · rintro rfl
        rcases ho with ho | ho <;> cases ho
      · intro h
        cases h

/-- A token that leads nowhere, with nothing changed. -/
theorem writesLocally_stuck (x : Json) {o : Option Json} {t : String}
    (hplace : ∀ c, place t c (o.getD .null) = none) (ho : o = some (promote t (o.getD .null)))
    (ts : List String) : WritesLocally x o (t :: ts) := by
  have hset : (o.getD .null).setAt (t :: ts) x = (promote t (o.getD .null), false) := by
    rw [setAt, modifyAt_cons, hplace]
  rw [WritesLocally, hset, if_neg Bool.false_ne_true]
  exact ho

/-- A token that leaves more than it was to write. -/
theorem not_writesLocally (x : Json) {o : Option Json} {t : String}
    (hplace : ∀ c j', place t c (o.getD .null) = some j' →
      o ≠ some j' ∧ (child t j' = none ∨ ∃ s, s ≠ t ∧ child s j' ≠ o.bind (child s)))
    (hstuck : ∀ c, place t c (o.getD .null) = none → o ≠ some (promote t (o.getD .null)))
    (ts : List String) : ¬ WritesLocally x o (t :: ts) := by
  intro h
  rw [WritesLocally, setAt, modifyAt_cons] at h
  generalize modifyAt (fun _ => (x, true)) ts ((child t (o.getD .null)).getD .null) = r at h
  cases hp : place t r.1 (o.getD .null) with
  | none =>
      simp only [hp, if_neg Bool.false_ne_true] at h
      exact hstuck r.1 hp h
  | some j' =>
      obtain ⟨hne, hbad⟩ := hplace r.1 j' hp
      simp only [hp] at h
      by_cases hok : r.2 = true
      · rw [if_pos hok] at h
        rcases hbad with hnone | ⟨s, hst, hdiff⟩
        · rw [getAt_cons, hnone] at h
          cases h.1
        · apply hdiff
          have hbeside : ¬ Comparable [s] (t :: ts) := by
            rintro (hc | hc)
            · exact hst (List.cons_prefix_cons.mp hc).1
            · exact hst (List.cons_prefix_cons.mp hc).1.symm
          have hread := h.2 [s] hbeside
          rw [getAt_cons, bind_getAt_cons] at hread
          simpa [getAt] using hread
      · rw [if_neg hok] at h
        exact hne h

theorem place_arr (t : String) (c : Json) (l : List Json) :
    place t c (.arr l) = if t = "-" then some (.arr (l ++ [c]))
      else (arrayIndex t).map fun n => .arr ((padTo (n + 1) l).set n c) := rfl

/-- An array that is lengthened by more than the element addressed: the end is not
    readable through the token, and padding is readable beside it. -/
theorem place_arr_grows {l : List Json} {t : String} {c j' : Json}
    (h : place t c (.arr l) = some j')
    (ht : t = "-" ∨ ∃ n, arrayIndex t = some n ∧ l.length < n) :
    j' ≠ .arr l ∧ (child t j' = none ∨ ∃ s, s ≠ t ∧ child s (.arr l) = none ∧ child s j' = some .null) := by
  rw [place_arr] at h
  rcases ht with rfl | ⟨n, hindex, hn⟩
  · rw [if_pos rfl, Option.some.injEq] at h
    subst h
    refine ⟨?_, Or.inl (by rw [child, arrayIndex_dash]; rfl)⟩
    intro heq
    have hlen := congrArg Json.size heq
    simp [size] at hlen
  · have hdash : t ≠ "-" := by
      rintro rfl
      rw [arrayIndex_dash] at hindex
      cases hindex
    rw [if_neg hdash, hindex, Option.map_some, Option.some.injEq] at h
    subst h
    have hbound := (arrayIndex_eq_some.mp hindex).2
    have hend : arrayIndex l.length.repr = some l.length :=
      arrayIndex_eq_some.mpr ⟨rfl, by omega⟩
    refine ⟨?_, Or.inr ⟨l.length.repr, ?_, ?_, ?_⟩⟩
    · intro heq
      have hlen := congrArg Json.size heq
      simp only [size, List.length_set, padTo, List.length_append, List.length_replicate] at hlen
      omega
    · rintro rfl
      rw [hend, Option.some.injEq] at hindex
      omega
    · rw [child, hend, Option.bind_some, List.getElem?_eq_none le_rfl]
    · rw [child, hend, Option.bind_some, List.getElem?_set_ne (by omega), getElem?_padTo,
        if_neg (Nat.lt_irrefl _), if_pos (by omega)]

theorem not_writesLocally_arr (x : Json) {l : List Json} {t : String}
    (ht : t = "-" ∨ ∃ n, arrayIndex t = some n ∧ l.length < n) (ts : List String) :
    ¬ WritesLocally x (some (.arr l)) (t :: ts) := by
  apply not_writesLocally
  · intro c j' hplace
    obtain ⟨hne, hchild⟩ := place_arr_grows hplace ht
    refine ⟨fun h => hne (Option.some.inj h).symm, hchild.imp_right ?_⟩
    rintro ⟨s, hst, hnone, hsome⟩
    refine ⟨s, hst, ?_⟩
    rw [Option.bind_some, hnone, hsome]
    exact Option.some_ne_none _
  · intro c hplace
    rw [Option.getD_some, place_arr] at hplace
    rcases ht with rfl | ⟨n, hindex, -⟩
    · rw [if_pos rfl] at hplace
      cases hplace
    · rw [hindex] at hplace
      split at hplace <;> cases hplace

/-- A new array is only entered at its first element. -/
theorem not_writesLocally_null (x : Json) {o : Option Json} (ho : o = none ∨ o = some .null)
    {t : String} (hdigits : (allDigits t || t == "-") = true) (ht : t ≠ "0") (ts : List String) :
    ¬ WritesLocally x o (t :: ts) := by
  have hnoArr : ∀ l, o ≠ some (.arr l) := by
    rintro l rfl
    rcases ho with ho | ho <;> cases ho
  apply not_writesLocally
  · intro c j' hplace
    rw [getD_null ho, place_null_arr hdigits] at hplace
    have hgrows : t = "-" ∨ ∃ n, arrayIndex t = some n ∧ ([] : List Json).length < n := by
      by_cases hdash : t = "-"
      · exact Or.inl hdash
      · rw [place_arr, if_neg hdash, Option.map_eq_some_iff] at hplace
        obtain ⟨n, hindex, -⟩ := hplace
        refine Or.inr ⟨n, hindex, Nat.pos_of_ne_zero ?_⟩
        rintro rfl
        exact ht (arrayIndex_eq_some.mp hindex).1
    refine ⟨?_, (place_arr_grows hplace hgrows).2.imp_right ?_⟩
    · intro heq
      rw [place_arr] at hplace
      split at hplace
      · cases hplace
        exact hnoArr _ heq
      · rw [Option.map_eq_some_iff] at hplace
        obtain ⟨n, -, rfl⟩ := hplace
        exact hnoArr _ heq
    · rintro ⟨s, hst, -, hsome⟩
      refine ⟨s, hst, ?_⟩
      rw [bind_child_null ho, hsome]
      exact Option.some_ne_none _
  · intro c _
    rw [getD_null ho, promote, if_pos hdigits]
    exact hnoArr []

/-- The writes that change nothing else are the neat ones. -/
theorem writesLocally_iff (x : Json) {o : Option Json} (hordered : ∀ j, o = some j → Ordered j)
    (p : List String) : WritesLocally x o p ↔ Neat o p := by
  induction p generalizing o with
  | nil =>
      have hlocal : WritesLocally x o [] := by
        rw [WritesLocally, setAt, modifyAt, if_pos rfl]
        exact ⟨rfl, fun q hq => absurd (Or.inr List.nil_prefix) hq⟩
      have hneat : Neat o [] := by
        cases o <;> simp [Neat]
      exact iff_of_true hlocal hneat
  | cons t ts ih =>
      have hnull : ∀ {o : Option Json}, (o = none ∨ o = some .null) →
          (WritesLocally x o (t :: ts) ↔ ((allDigits t || t == "-") = true → t = "0") ∧ Neat none ts) := by
        intro o ho
        by_cases ht : (allDigits t || t == "-") = true → t = "0"
        · rw [writesLocally_cons (enters_null ho ht), bind_child_null ho, ih (by simp)]
          exact (and_iff_right ht).symm
        · refine iff_of_false ?_ (fun h => ht h.1)
          obtain ⟨hdigits, hzero⟩ := Classical.not_imp.mp ht
          exact not_writesLocally_null x ho hdigits hzero ts
      cases o with
      | none =>
          rw [hnull (Or.inl rfl)]
          simp [Neat]
      | some j =>
          cases j with
          | null =>
              rw [hnull (Or.inr rfl)]
              simp [Neat]
          | obj fields =>
              rw [writesLocally_cons (enters_obj (hordered _ rfl) t), Neat]
              exact ih fun c hc => (hordered _ rfl).member hc
          | arr l =>
              rw [Neat]
              by_cases hdash : t = "-"
              · exact iff_of_false (not_writesLocally_arr x (Or.inl hdash) ts) (fun h => h.1 hdash)
              · rw [and_iff_right hdash]
                cases hindex : arrayIndex t with
                | none =>
                    have hplace : ∀ c, place t c ((some (.arr l)).getD .null) = none := by
                      intro c
                      rw [Option.getD_some, place_arr, if_neg hdash, hindex]
                      rfl
                    exact iff_of_true (writesLocally_stuck x hplace rfl ts) (by simp)
                | some n =>
                    by_cases hn : n ≤ l.length
                    · have hchild : (some (Json.arr l)).bind (child t) = l[n]? := by
                        rw [Option.bind_some, child, hindex, Option.bind_some]
                      rw [writesLocally_cons (enters_arr hindex hn), hchild,
                        ih fun c hc => (hordered _ rfl).element (List.mem_of_getElem? hc)]
                      simp [hn]
                    · refine iff_of_false
                        (not_writesLocally_arr x (Or.inr ⟨n, hindex, by omega⟩) ts) ?_
                      intro h
                      exact hn (h n rfl).1
          | _ =>
              refine iff_of_true (writesLocally_stuck x (fun c => rfl) rfl ts) ?_
              simp [Neat]

end Json

end JsonValue
