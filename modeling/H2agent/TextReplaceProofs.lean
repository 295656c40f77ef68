import Mathlib.Data.List.Basic

/-! # Replacing all occurrences, and only the marked ones

    A global replacement puts a text in the place of every occurrence of a
    pattern, from left to right.  A marked text says of every character whether
    an occurrence is meant to be replaced there.  For a pattern that does not
    overlap itself, both replacements give the same text exactly when every
    occurrence is marked, unless the replacement is the pattern itself.

    What a global replacement is can also be said without a loop: `Replaced` takes
    the first occurrence away and goes on behind it (`replaced_iff`).

    Over an arbitrary alphabet.  `marked_induction` walks a marked text by
    characters and whole occurrences; with the lemmas that say how the two
    loops pass one, `replaceAll_eq_iff` is an induction of four cases. -/

namespace TextReplace

variable {α : Type}

/-! ## Marked texts -/

/-- The characters of a marked text. -/
def chars (m : List (α × Bool)) : List α := m.map Prod.fst

/-- A text without marks. -/
def unmarked (cs : List α) : List (α × Bool) := cs.map (fun c => (c, false))

@[simp] theorem chars_nil : chars ([] : List (α × Bool)) = [] := rfl

@[simp] theorem chars_cons (c : α) (mark : Bool) (m : List (α × Bool)) :
    chars ((c, mark) :: m) = c :: chars m := rfl

@[simp] theorem chars_append (m m' : List (α × Bool)) : chars (m ++ m') = chars m ++ chars m' :=
  List.map_append

@[simp] theorem chars_unmarked (cs : List α) : chars (unmarked cs) = cs := by
  induction cs with
  | nil => rfl
  | cons c cs ih => exact congrArg (c :: ·) ih

@[simp] theorem unmarked_nil : unmarked ([] : List α) = [] := rfl

@[simp] theorem unmarked_cons (c : α) (cs : List α) :
    unmarked (c :: cs) = (c, false) :: unmarked cs := rfl

/-- Marks stand at occurrences of the pattern. -/
def MarksAt (pattern : List α) : List (α × Bool) → Prop
  | [] => True
  | (c, mark) :: m => (mark = true → pattern <+: c :: chars m) ∧ MarksAt pattern m

/-- Every occurrence of the pattern has its mark. -/
def OnlyMarked (pattern : List α) : List (α × Bool) → Prop
  | [] => True
  | (c, mark) :: m => (pattern <+: c :: chars m → mark = true) ∧ OnlyMarked pattern m

/-- No end of the pattern is a beginning of it. -/
def Unbordered (pattern : List α) : Prop :=
  ∀ a b, pattern = a ++ b → a ≠ [] → b ≠ [] → ¬ b <+: pattern

variable {p : List α}

/-- Behind the first character of an occurrence its text has no mark. -/
theorem inside_unmarked (hu : Unbordered p) {a b : List α} (hp : p = a ++ b) (ha : a ≠ [])
    {m : List (α × Bool)} (hm : MarksAt p m) (hb : b <+: chars m) :
    ∃ m', m = unmarked b ++ m' ∧ MarksAt p m' := by
  induction b generalizing a m with
  | nil => exact ⟨m, rfl, hm⟩
  | cons x b ih =>
      cases m with
      | nil =>
          obtain ⟨z, hz⟩ := hb
          cases hz
      | cons y m =>
          obtain ⟨c, mark⟩ := y
          obtain ⟨hmark, hm⟩ := hm
          obtain ⟨z, hz⟩ := hb
          injection hz with hxc hz
          obtain rfl : x = c := hxc
          have hnot : mark = false := by
            -- a mark here would start a second occurrence inside the first
            by_contra hne
            have hocc := hmark (Bool.not_eq_false _ ▸ hne)
            have hend : x :: b <+: x :: chars m := ⟨z, congrArg (x :: ·) hz⟩
            have hlen : (x :: b).length ≤ p.length := by
              rw [hp, List.length_append]
              omega
            exact hu a (x :: b) hp ha (by simp) (List.prefix_of_prefix_length_le hend hocc hlen)
          obtain ⟨m', rfl, hm'⟩ := ih (a := a ++ [x]) (by rw [hp]; simp) (by simp) hm ⟨z, hz⟩
          exact ⟨m', by rw [hnot]; rfl, hm'⟩

/-- **INDUCTION ON MARKED TEXTS**: a text whose marks stand at occurrences is
    built from characters where no occurrence starts and from whole occurrences,
    marked or not. -/
theorem marked_induction (hne : p ≠ []) (hu : Unbordered p) {P : List (α × Bool) → Prop}
    (nil : P [])
    (char : ∀ c m, ¬ p <+: c :: chars m → P m → P ((c, false) :: m))
    (occurrence : ∀ mark c b m, p = c :: b → MarksAt p m → P m →
      P ((c, mark) :: (unmarked b ++ m))) :
    ∀ m, MarksAt p m → P m := by
  have hall : ∀ n, ∀ m : List (α × Bool), m.length = n → MarksAt p m → P m := by
    intro n
    induction n using Nat.strongRecOn with
    | _ n ih =>
        intro m hlen hm
        cases m with
        | nil => exact nil
        | cons y m =>
            obtain ⟨c, mark⟩ := y
            obtain ⟨hmark, hm⟩ := hm
            rw [List.length_cons] at hlen
            by_cases hocc : p <+: c :: chars m
            · obtain ⟨d, b, rfl⟩ := List.exists_cons_of_ne_nil hne
              obtain ⟨z, hz⟩ := hocc
              injection hz with hdc hz
              obtain rfl : d = c := hdc
              obtain ⟨m', rfl, hm'⟩ := inside_unmarked hu (a := [d]) rfl (by simp) hm ⟨z, hz⟩
              rw [List.length_append] at hlen
              exact occurrence mark d b m' rfl hm' (ih m'.length (by omega) m' rfl hm')
            · have hfalse : mark = false := by
                by_contra h
                exact hocc (hmark (Bool.not_eq_false _ ▸ h))
              rw [hfalse]
              exact char c m hocc (ih m.length (by omega) m rfl hm)
  intro m hm
  exact hall m.length m rfl hm

/-! ## The two loops -/

/-- Replace what is marked; each mark stands for `length` characters. -/
def replaceMarked (length : Nat) (replacement : List α) : Nat → List (α × Bool) → List α
  | _, [] => []
  | skip + 1, _ :: m => replaceMarked length replacement skip m
  | 0, (c, mark) :: m =>
      if mark then replacement ++ replaceMarked length replacement (length - 1) m
      else c :: replaceMarked length replacement 0 m

theorem replaceMarked_skip (length : Nat) (r : List α) (b m : List (α × Bool)) :
    replaceMarked length r b.length (b ++ m) = replaceMarked length r 0 m := by
  induction b with
  | nil => rfl
  | cons x b ih => exact ih

/-- Text without marks stays. -/
theorem replaceMarked_unmarked (length : Nat) (r cs : List α) (m : List (α × Bool)) :
    replaceMarked length r 0 (unmarked cs ++ m) = cs ++ replaceMarked length r 0 m := by
  induction cs with
  | nil => rfl
  | cons c cs ih =>
      rw [unmarked_cons, List.cons_append, replaceMarked, if_neg (by decide), ih]
      rfl

/-- A marked occurrence is replaced. -/
theorem replaceMarked_mark (r : List α) (c : α) (b : List α) (m : List (α × Bool)) :
    replaceMarked (c :: b).length r 0 ((c, true) :: (unmarked b ++ m))
      = r ++ replaceMarked (c :: b).length r 0 m := by
  have hlen : (c :: b).length - 1 = (unmarked b).length := by simp [unmarked]
  rw [replaceMarked, if_pos rfl, hlen, replaceMarked_skip]

/-- No occurrence starts behind the first character of one. -/
theorem onlyMarked_inside (hu : Unbordered p) {a b : List α} (hp : p = a ++ b) (ha : a ≠ [])
    (m : List (α × Bool)) : OnlyMarked p (unmarked b ++ m) ↔ OnlyMarked p m := by
  induction b generalizing a with
  | nil => rfl
  | cons x b ih =>
      have hrest := ih (a := a ++ [x]) (by rw [hp]; simp) (by simp)
      have hno : ¬ p <+: x :: chars (unmarked b ++ m) := by
        intro hocc
        rw [chars_append, chars_unmarked] at hocc
        have hend : x :: b <+: x :: (b ++ chars m) := ⟨chars m, rfl⟩
        have hlen : (x :: b).length ≤ p.length := by
          rw [hp, List.length_append]
          omega
        exact hu a (x :: b) hp ha (by simp) (List.prefix_of_prefix_length_le hend hocc hlen)
      rw [unmarked_cons, List.cons_append, OnlyMarked, hrest]
      exact ⟨fun h => h.2, fun h => ⟨fun hocc => absurd hocc hno, h⟩⟩

variable [DecidableEq α]

/-- Replace every occurrence; `skip` characters belong to one that was replaced. -/
def replaceAll (pattern replacement : List α) : Nat → List α → List α
  | _, [] => []
  | skip + 1, _ :: cs => replaceAll pattern replacement skip cs
  | 0, c :: cs =>
      if pattern.isPrefixOf (c :: cs) then
        replacement ++ replaceAll pattern replacement (pattern.length - 1) cs
      else c :: replaceAll pattern replacement 0 cs

theorem replaceAll_skip (p r a z : List α) :
    replaceAll p r a.length (a ++ z) = replaceAll p r 0 z := by
  induction a with
  | nil => rfl
  | cons x a ih => exact ih

/-- An occurrence is replaced. -/
theorem replaceAll_occurrence (r : List α) (c : α) (b z : List α) :
    replaceAll (c :: b) r 0 (c :: (b ++ z)) = r ++ replaceAll (c :: b) r 0 z := by
  have hpre : (c :: b).isPrefixOf (c :: (b ++ z)) = true :=
    List.isPrefixOf_iff_prefix.mpr ⟨z, rfl⟩
  rw [replaceAll, if_pos hpre]
  exact congrArg (r ++ ·) (replaceAll_skip (c :: b) r b z)

/-- A character where no occurrence starts stays. -/
theorem replaceAll_char {p : List α} (r : List α) {c : α} {z : List α} (h : ¬ p <+: c :: z) :
    replaceAll p r 0 (c :: z) = c :: replaceAll p r 0 z := by
  rw [replaceAll, if_neg]
  rw [List.isPrefixOf_iff_prefix]
  exact h

/-! ## When they agree -/

/-- Each occurrence without a mark lengthens the one text by the replacement
    and the other by the pattern. -/
theorem length_replaceAll {p : List α} (hne : p ≠ []) (hu : Unbordered p) (r : List α) :
    ∀ m, MarksAt p m → ∃ e,
      (replaceAll p r 0 (chars m)).length + e * p.length
        = (replaceMarked p.length r 0 m).length + e * r.length := by
  refine marked_induction hne hu ⟨0, by simp [replaceAll, replaceMarked]⟩ ?_ ?_
  · rintro c m hno ⟨e, he⟩
    refine ⟨e, ?_⟩
    rw [chars_cons, replaceAll_char r hno, replaceMarked, if_neg (by decide)]
    simp only [List.length_cons]
    omega
  · rintro mark c b m rfl _ ⟨e, he⟩
    rw [chars_cons, chars_append, chars_unmarked, replaceAll_occurrence]
    cases mark with
    | true =>
        refine ⟨e, ?_⟩
        rw [replaceMarked_mark, List.length_append, List.length_append]
        omega
    | false =>
        refine ⟨e + 1, ?_⟩
        rw [replaceMarked, if_neg (by decide), replaceMarked_unmarked, Nat.add_mul, Nat.add_mul]
        simp only [List.length_append, List.length_cons, Nat.one_mul] at he ⊢
        omega

/-- **REPLACING ALL IS REPLACING THE MARKED**: for a pattern without borders and
    another text in its place, exactly when every occurrence is marked. -/
theorem replaceAll_eq_iff {p r : List α} (hne : p ≠ []) (hu : Unbordered p) (hr : r ≠ p) :
    ∀ m, MarksAt p m →
      (replaceAll p r 0 (chars m) = replaceMarked p.length r 0 m ↔ OnlyMarked p m) := by
  refine marked_induction hne hu ?_ ?_ ?_
  · exact ⟨fun _ => True.intro, fun _ => by simp [replaceAll, replaceMarked]⟩
  · intro c m hno ih
    rw [chars_cons, replaceAll_char r hno, replaceMarked, if_neg (by decide), OnlyMarked, ← ih]
    constructor
    · intro h
      exact ⟨fun hocc => absurd hocc hno, (List.cons.inj h).2⟩
    · rintro ⟨_, h⟩
      rw [h]
  · rintro mark c b m rfl hm ih
    have hhere : c :: b <+: c :: chars (unmarked b ++ m) :=
      ⟨chars m, by rw [chars_append, chars_unmarked]; rfl⟩
    have honly : OnlyMarked (c :: b) ((c, mark) :: (unmarked b ++ m))
        ↔ mark = true ∧ OnlyMarked (c :: b) m := by
      rw [OnlyMarked, onlyMarked_inside hu (a := [c]) rfl (by simp)]
      exact and_congr_left (fun _ => ⟨fun h => h hhere, fun h _ => h⟩)
    rw [honly, chars_cons, chars_append, chars_unmarked, replaceAll_occurrence]
    cases mark with
    | true =>
        rw [replaceMarked_mark, ← ih]
        exact ⟨fun h => ⟨rfl, List.append_cancel_left h⟩, fun h => by rw [h.2]⟩
    | false =>
        -- equal texts would have equal lengths, and then the replacement is the pattern
        rw [replaceMarked, if_neg (by decide), replaceMarked_unmarked]
        refine ⟨fun h => absurd ?_ hr, fun h => by cases h.1⟩
        obtain ⟨e, he⟩ := length_replaceAll hne hu r m hm
        have hlen := congrArg List.length h
        simp only [List.length_append, List.length_cons] at hlen he
        have hsame : r.length = (c :: b).length := by
          rw [List.length_cons]
          rcases Nat.lt_trichotomy r.length (b.length + 1) with hlt | heq | hgt
          · have hmul := Nat.mul_le_mul_left e (Nat.le_of_lt hlt)
            omega
          · exact heq
          · have hmul := Nat.mul_le_mul_left e (Nat.le_of_lt hgt)
            omega
        exact (List.append_inj h hsame).1

/-- A pattern in its own place changes nothing. -/
theorem replaceAll_self {p : List α} (hne : p ≠ []) (hu : Unbordered p) :
    ∀ m, MarksAt p m → replaceAll p p 0 (chars m) = replaceMarked p.length p 0 m := by
  refine marked_induction hne hu ?_ ?_ ?_
  · simp [replaceAll, replaceMarked]
  · intro c m hno ih
    rw [chars_cons, replaceAll_char p hno, replaceMarked, if_neg (by decide), ih]
  · rintro mark c b m rfl _ ih
    rw [chars_cons, chars_append, chars_unmarked, replaceAll_occurrence, ih]
    cases mark with
    | true => rw [replaceMarked_mark]
    | false =>
        rw [replaceMarked, if_neg (by decide), replaceMarked_unmarked]
        rfl

/-! ## Occurrences, one after the other -/

/-- The first place where the pattern starts. -/
def firstOccurrence (p : List α) : List α → Option Nat
  | [] => if p = [] then some 0 else none
  | c :: cs => if p.isPrefixOf (c :: cs) then some 0 else (firstOccurrence p cs).map (· + 1)

/-- Replacement from left to right: the first occurrence goes, and the text behind it is
    replaced; what was put in is not looked at again. -/
inductive Replaced (p r : List α) : List α → List α → Prop
  | rest {s : List α} (h : ∀ k, k ≤ s.length → ¬ p <+: s.drop k) : Replaced p r s s
  | occurrence {a b t : List α} (hfirst : ∀ k < a.length, ¬ p <+: (a ++ p ++ b).drop k)
      (h : Replaced p r b t) : Replaced p r (a ++ p ++ b) (a ++ r ++ t)

theorem firstOccurrence_here {p : List α} {c : α} {cs : List α} (h : p <+: c :: cs) :
    firstOccurrence p (c :: cs) = some 0 := by
  rw [firstOccurrence, if_pos (List.isPrefixOf_iff_prefix.mpr h)]

theorem firstOccurrence_later {p : List α} {c : α} {cs : List α} (h : ¬ p <+: c :: cs) :
    firstOccurrence p (c :: cs) = (firstOccurrence p cs).map (· + 1) := by
  rw [firstOccurrence, if_neg (fun hp => h (List.isPrefixOf_iff_prefix.mp hp))]

/-- It starts where `firstOccurrence` says, and not before; or nowhere. -/
theorem firstOccurrence_spec (p s : List α) :
    (∀ n, firstOccurrence p s = some n →
        n ≤ s.length ∧ p <+: s.drop n ∧ ∀ k < n, ¬ p <+: s.drop k)
      ∧ (firstOccurrence p s = none → ∀ k, k ≤ s.length → ¬ p <+: s.drop k) := by
  induction s with
  | nil =>
      rw [firstOccurrence]
      by_cases hp : p = []
      · rw [if_pos hp, hp]
        refine ⟨fun n hn => ?_, fun h => by cases h⟩
        obtain rfl := Option.some.inj hn
        exact ⟨Nat.le_refl 0, List.prefix_refl _, fun k hk => absurd hk (Nat.not_lt_zero k)⟩
      · rw [if_neg hp]
        refine ⟨fun n hn => absurd hn (by simp), fun _ k _ hk => hp ?_⟩
        rw [List.drop_nil] at hk
        exact List.prefix_nil.mp hk
  | cons c cs ih =>
      by_cases hhere : p <+: c :: cs
      · rw [firstOccurrence_here hhere]
        refine ⟨fun n hn => ?_, fun h => by cases h⟩
        obtain rfl := Option.some.inj hn
        exact ⟨Nat.zero_le _, hhere, fun k hk => absurd hk (Nat.not_lt_zero k)⟩
      · rw [firstOccurrence_later hhere]
        constructor
        · intro n hn
          obtain ⟨m, hm, rfl⟩ := Option.map_eq_some_iff.mp hn
          obtain ⟨hle, hat, hbefore⟩ := ih.1 m hm
          refine ⟨Nat.succ_le_succ hle, hat, fun k hk => ?_⟩
          cases k with
          | zero => exact hhere
          | succ k => exact hbefore k (Nat.lt_of_succ_lt_succ hk)
        · intro hn k hk
          cases k with
          | zero => exact hhere
          | succ k => exact ih.2 (Option.map_eq_none_iff.mp hn) k (Nat.le_of_succ_le_succ hk)

theorem firstOccurrence_eq_none {p s : List α} (h : ∀ k, k ≤ s.length → ¬ p <+: s.drop k) :
    firstOccurrence p s = none := by
  cases hf : firstOccurrence p s with
  | none => rfl
  | some n =>
      obtain ⟨hle, hat, -⟩ := (firstOccurrence_spec p s).1 n hf
      exact absurd hat (h n hle)

theorem firstOccurrence_eq_some {p s : List α} {n : Nat} (hle : n ≤ s.length) (hat : p <+: s.drop n)
    (hbefore : ∀ k < n, ¬ p <+: s.drop k) : firstOccurrence p s = some n := by
  cases hf : firstOccurrence p s with
  | none => exact absurd hat ((firstOccurrence_spec p s).2 hf n hle)
  | some m =>
      obtain ⟨-, hat', hbefore'⟩ := (firstOccurrence_spec p s).1 m hf
      rcases Nat.lt_trichotomy m n with hlt | rfl | hlt
      · exact absurd hat' (hbefore m hlt)
      · rfl
      · exact absurd hat (hbefore' n hlt)

/-- Without an occurrence nothing is replaced. -/
theorem replaceAll_of_firstOccurrence_none {p : List α} (r : List α) {s : List α}
    (h : firstOccurrence p s = none) : replaceAll p r 0 s = s := by
  induction s with
  | nil => rfl
  | cons c cs ih =>
      have hnot : ¬ p <+: c :: cs := (firstOccurrence_spec p (c :: cs)).2 h 0 (Nat.zero_le _)
      rw [firstOccurrence_later hnot, Option.map_eq_none_iff] at h
      rw [replaceAll_char r hnot, ih h]

/-- The first occurrence is replaced, and what is behind it. -/
theorem replaceAll_of_firstOccurrence_some {p : List α} (hp : p ≠ []) (r : List α) {s : List α}
    {n : Nat} (h : firstOccurrence p s = some n) :
    replaceAll p r 0 s = s.take n ++ r ++ replaceAll p r 0 (s.drop (n + p.length)) := by
  induction s generalizing n with
  | nil =>
      rw [firstOccurrence, if_neg hp] at h
      cases h
  | cons c cs ih =>
      by_cases hhere : p <+: c :: cs
      · rw [firstOccurrence_here hhere] at h
        obtain rfl := Option.some.inj h
        obtain ⟨z, hz⟩ := hhere
        obtain ⟨d, b, rfl⟩ := List.exists_cons_of_ne_nil hp
        rw [← hz, Nat.zero_add, List.drop_left, List.cons_append, replaceAll_occurrence]
        rfl
      · rw [firstOccurrence_later hhere] at h
        obtain ⟨m, hm, rfl⟩ := Option.map_eq_some_iff.mp h
        rw [replaceAll_char r hhere, ih hm, Nat.add_right_comm]
        rfl

/-- **REPLACEMENT FROM LEFT TO RIGHT** gives one text, that of `replaceAll`. -/
theorem replaced_iff {p : List α} (hp : p ≠ []) (r s t : List α) :
    Replaced p r s t ↔ t = replaceAll p r 0 s := by
  constructor
  · intro h
    induction h with
    | rest h => rw [replaceAll_of_firstOccurrence_none r (firstOccurrence_eq_none h)]
    | @occurrence a b t hfirst h ih =>
        have hfind : firstOccurrence p (a ++ p ++ b) = some a.length := by
          refine firstOccurrence_eq_some ?_ ?_ hfirst
          · rw [List.append_assoc, List.length_append]
            exact Nat.le_add_right _ _
          · rw [List.append_assoc, List.drop_left]
            exact List.prefix_append p b
        rw [replaceAll_of_firstOccurrence_some hp r hfind, List.append_assoc a p b, List.take_left,
          ← List.append_assoc a p b, ← List.length_append, List.drop_left, ← ih]
  · -- what is behind an occurrence is shorter
    rintro rfl
    generalize hn : s.length = n
    induction n using Nat.strongRecOn generalizing s with
    | _ n ih =>
        cases hf : firstOccurrence p s with
        | none =>
            rw [replaceAll_of_firstOccurrence_none r hf]
            exact .rest ((firstOccurrence_spec p s).2 hf)
        | some m =>
            obtain ⟨hle, ⟨b, hb⟩, hbefore⟩ := (firstOccurrence_spec p s).1 m hf
            have hs : s = s.take m ++ p ++ b := by
              rw [List.append_assoc, hb, List.take_append_drop]
            have hrest : s.drop (m + p.length) = b := by
              rw [← List.drop_drop, ← hb, List.drop_left]
            have hlength : b.length < n := by
              have hpos := List.length_pos_of_ne_nil hp
              rw [← hn, hs, List.length_append, List.length_append]
              omega
            rw [replaceAll_of_firstOccurrence_some hp r hf, hrest]
            have hmin : (s.take m).length = m := List.length_take_of_le hle
            have hstep := Replaced.occurrence (p := p) (r := r) (a := s.take m) (b := b)
              (by rw [← hs, hmin]; exact hbefore) (ih b.length hlength b rfl)
            rwa [← hs] at hstep

end TextReplace
