import Mathlib.Data.List.Basic

/-! # Regular expressions as a backtracking matcher tries them

    A small language of expressions over character classes, with its matcher:
    `run` lists, in the order a backtracking matcher tries them, the captured
    groups and the text left over.  A full match is the first of these that
    leaves nothing; a search from the start is satisfied by any of them.

    Each constructor has one lemma that says what it takes (`takes_seq`,
    `takes_many`, …); they are the simp set of the library, and no proof above
    it unfolds the matcher.  `Cascade` is a chain of tests of one text against
    expressions, the first full match deciding. -/

namespace Regex

/-- An expression.  Repetition is of a single class. -/
inductive Re where
  | eps
  | one (cls : Char → Bool)
  | many (cls : Char → Bool)
  | atEnd
  | seq (r s : Re)
  | alt (r s : Re)
  | group (r : Re)

namespace Re

/-- How many groups an expression captures. -/
def groups : Re → Nat
  | .eps | .one _ | .many _ | .atEnd => 0
  | .seq r s => r.groups + s.groups
  | .alt r s => r.groups + s.groups
  | .group r => r.groups + 1

/-- What a greedy repetition can leave, the longest repetition first. -/
def leftovers (cls : Char → Bool) : List Char → List (List Char)
  | [] => [[]]
  | c :: cs => if cls c then leftovers cls cs ++ [c :: cs] else [c :: cs]

/-- Groups and leftover text of every way to match a beginning of the text, in
    the order they are tried.  A group that takes no part captures nothing. -/
def run : Re → List Char → List (List (List Char) × List Char)
  | .eps, cs => [([], cs)]
  | .one _, [] => []
  | .one cls, c :: cs => if cls c then [([], cs)] else []
  | .many cls, cs => (leftovers cls cs).map (fun rest => ([], rest))
  | .atEnd, [] => [([], [])]
  | .atEnd, _ :: _ => []
  | .seq r s, cs =>
      (run r cs).flatMap (fun a => (run s a.2).map (fun b => (a.1 ++ b.1, b.2)))
  | .alt r s, cs =>
      (run r cs).map (fun a => (a.1 ++ List.replicate s.groups [], a.2))
        ++ (run s cs).map (fun a => (List.replicate r.groups [] ++ a.1, a.2))
  | .group r, cs =>
      (run r cs).map (fun a => (cs.take (cs.length - a.2.length) :: a.1, a.2))

/-- `regex_match`: the groups of the first way that leaves nothing. -/
def fullMatch (r : Re) (cs : List Char) : Option (List (List Char)) :=
  (run r cs).findSome? (fun a => if a.2 = [] then some a.1 else none)

/-- `regex_search` with an expression anchored at the start. -/
def found (r : Re) (cs : List Char) : Bool := !(run r cs).isEmpty

/-! ## Derived forms -/

/-- `r?`. -/
def opt (r : Re) : Re := .alt r .eps

/-- `[..]+`. -/
def some (cls : Char → Bool) : Re := .seq (.one cls) (.many cls)

/-- Literal text. -/
def lit : List Char → Re
  | [] => .eps
  | c :: cs => .seq (.one (· == c)) (lit cs)

/-- `.`: anything but a line terminator. -/
def dot (c : Char) : Bool := c != '\n' && c != '\x0d'

/-- Text whose dots are not escaped. -/
def dotted : List Char → Re
  | [] => .eps
  | c :: cs => .seq (.one (if c = '.' then dot else (· == c))) (dotted cs)

/-! ## What each form takes -/

/-- The expression can match a beginning of `cs`, capturing `g` and leaving
    `rest`. -/
def Takes (r : Re) (cs : List Char) (g : List (List Char)) (rest : List Char) : Prop :=
  (g, rest) ∈ run r cs

variable {r s : Re} {cls : Char → Bool} {cs rest : List Char} {g : List (List Char)}

@[simp] theorem takes_eps : Takes .eps cs g rest ↔ g = [] ∧ rest = cs := by
  simp [Takes, run]

@[simp] theorem takes_one :
    Takes (.one cls) cs g rest ↔ g = [] ∧ ∃ c, cls c = true ∧ cs = c :: rest := by
  cases cs with
  | nil => simp [Takes, run]
  | cons c cs =>
      by_cases hc : cls c = true
      · simp only [Takes, run, hc, if_true, List.mem_singleton, Prod.mk.injEq, List.cons.injEq]
        constructor
        · rintro ⟨h1, h2⟩
          exact ⟨h1, c, hc, rfl, h2.symm⟩
        · rintro ⟨h1, _, _, _, h2⟩
          exact ⟨h1, h2.symm⟩
      · simp only [Takes, run, hc, List.cons.injEq]
        constructor
        · intro h
          cases h
        · rintro ⟨_, d, hd, rfl, _⟩
          exact absurd hd hc

@[simp] theorem takes_atEnd : Takes .atEnd cs g rest ↔ g = [] ∧ cs = [] ∧ rest = [] := by
  cases cs with
  | nil => simp [Takes, run]
  | cons c cs => simp [Takes, run]

/-- A repetition leaves what is left after some beginning of its class. -/
theorem mem_leftovers :
    rest ∈ leftovers cls cs ↔ ∃ pre, cs = pre ++ rest ∧ ∀ c ∈ pre, cls c = true := by
  induction cs with
  | nil =>
      simp only [leftovers, List.mem_singleton]
      constructor
      · rintro rfl
        exact ⟨[], rfl, by simp⟩
      · rintro ⟨pre, h, _⟩
        exact (List.append_eq_nil_iff.mp h.symm).2
  | cons c cs ih =>
      rw [leftovers]
      by_cases hc : cls c = true
      · rw [if_pos hc, List.mem_append, ih, List.mem_singleton]
        constructor
        · rintro (⟨pre, rfl, hpre⟩ | rfl)
          · refine ⟨c :: pre, rfl, ?_⟩
            intro d hd
            rcases List.mem_cons.mp hd with rfl | hd
            · exact hc
            · exact hpre d hd
          · exact ⟨[], rfl, by simp⟩
        · rintro ⟨pre, h, hpre⟩
          cases pre with
          | nil => exact .inr h.symm
          | cons d pre =>
              injection h with _ h
              exact .inl ⟨pre, h, fun e he => hpre e (by simp [he])⟩
      · rw [if_neg hc, List.mem_singleton]
        constructor
        · rintro rfl
          exact ⟨[], rfl, by simp⟩
        · rintro ⟨pre, h, hpre⟩
          cases pre with
          | nil => exact h.symm
          | cons d pre =>
              injection h with h1 _
              exact absurd (hpre d (by simp)) (h1 ▸ hc)

@[simp] theorem takes_many :
    Takes (.many cls) cs g rest ↔ g = [] ∧ ∃ pre, cs = pre ++ rest ∧ ∀ c ∈ pre, cls c = true := by
  simp only [Takes, run, List.mem_map, Prod.mk.injEq]
  constructor
  · rintro ⟨_, hm, rfl, rfl⟩
    exact ⟨rfl, mem_leftovers.mp hm⟩
  · rintro ⟨rfl, h⟩
    exact ⟨rest, mem_leftovers.mpr h, rfl, rfl⟩

@[simp] theorem takes_seq :
    Takes (.seq r s) cs g rest
      ↔ ∃ g1 mid g2, Takes r cs g1 mid ∧ Takes s mid g2 rest ∧ g = g1 ++ g2 := by
  simp only [Takes, run, List.mem_flatMap, List.mem_map, Prod.mk.injEq, Prod.exists]
  constructor
  · rintro ⟨g1, mid, h1, g2, _, h2, rfl, rfl⟩
    exact ⟨g1, mid, g2, h1, h2, rfl⟩
  · rintro ⟨g1, mid, g2, h1, h2, rfl⟩
    exact ⟨g1, mid, h1, g2, rest, h2, rfl, rfl⟩

@[simp] theorem takes_alt :
    Takes (.alt r s) cs g rest
      ↔ (∃ g1, Takes r cs g1 rest ∧ g = g1 ++ List.replicate s.groups [])
        ∨ ∃ g2, Takes s cs g2 rest ∧ g = List.replicate r.groups [] ++ g2 := by
  simp only [Takes, run, List.mem_append, List.mem_map, Prod.mk.injEq, Prod.exists]
  constructor
  · rintro (⟨g1, _, h, rfl, rfl⟩ | ⟨g2, _, h, rfl, rfl⟩)
    · exact .inl ⟨g1, h, rfl⟩
    · exact .inr ⟨g2, h, rfl⟩
  · rintro (⟨g1, h, rfl⟩ | ⟨g2, h, rfl⟩)
    · exact .inl ⟨g1, rest, h, rfl, rfl⟩
    · exact .inr ⟨g2, rest, h, rfl, rfl⟩

/-- What is left is the end of the text. -/
theorem Takes.split (h : Takes r cs g rest) : ∃ pre, cs = pre ++ rest := by
  induction r generalizing cs g rest with
  | eps => exact ⟨[], (takes_eps.mp h).2.symm⟩
  | one cls =>
      obtain ⟨_, c, _, rfl⟩ := takes_one.mp h
      exact ⟨[c], rfl⟩
  | many cls =>
      obtain ⟨_, pre, hpre, _⟩ := takes_many.mp h
      exact ⟨pre, hpre⟩
  | atEnd =>
      obtain ⟨_, rfl, rfl⟩ := takes_atEnd.mp h
      exact ⟨[], rfl⟩
  | seq r s ihr ihs =>
      obtain ⟨_, _, _, h1, h2, _⟩ := takes_seq.mp h
      obtain ⟨p1, rfl⟩ := ihr h1
      obtain ⟨p2, rfl⟩ := ihs h2
      exact ⟨p1 ++ p2, (List.append_assoc _ _ _).symm⟩
  | alt r s ihr ihs =>
      rcases takes_alt.mp h with ⟨_, h1, _⟩ | ⟨_, h2, _⟩
      · exact ihr h1
      · exact ihs h2
  | group r ih =>
      obtain ⟨⟨g1, rest1⟩, hm, heq⟩ := List.mem_map.mp h
      obtain ⟨_, rfl⟩ := Prod.mk.inj heq
      exact ih hm

@[simp] theorem takes_group :
    Takes (.group r) cs g rest
      ↔ ∃ pre g1, Takes r cs g1 rest ∧ cs = pre ++ rest ∧ g = pre :: g1 := by
  constructor
  · intro h
    obtain ⟨⟨g1, rest1⟩, hm, heq⟩ := List.mem_map.mp h
    obtain ⟨rfl, rfl⟩ := Prod.mk.inj heq
    obtain ⟨pre, rfl⟩ := Takes.split hm
    refine ⟨pre, g1, hm, rfl, ?_⟩
    simp
  · rintro ⟨pre, g1, h, rfl, rfl⟩
    refine List.mem_map.mpr ⟨(g1, rest), h, ?_⟩
    simp

@[simp] theorem takes_lit (l : List Char) :
    Takes (lit l) cs g rest ↔ g = [] ∧ cs = l ++ rest := by
  induction l generalizing cs g with
  | nil =>
      simp only [lit, takes_eps, List.nil_append]
      exact and_congr_right (fun _ => eq_comm)
  | cons c l ih =>
      simp only [lit, takes_seq, takes_one, ih, beq_iff_eq]
      constructor
      · rintro ⟨_, _, _, ⟨rfl, _, rfl, rfl⟩, ⟨rfl, rfl⟩, rfl⟩
        exact ⟨rfl, rfl⟩
      · rintro ⟨rfl, rfl⟩
        exact ⟨[], l ++ rest, [], ⟨rfl, c, rfl, rfl⟩, ⟨rfl, rfl⟩, rfl⟩

/-- A literal beginning. -/
theorem takes_lit_seq {l : List Char} :
    Takes (.seq (lit l) r) cs g rest ↔ ∃ mid, cs = l ++ mid ∧ Takes r mid g rest := by
  rw [takes_seq]
  constructor
  · rintro ⟨_, mid, _, h1, h2, rfl⟩
    obtain ⟨rfl, rfl⟩ := (takes_lit l).mp h1
    exact ⟨mid, rfl, h2⟩
  · rintro ⟨mid, rfl, h⟩
    exact ⟨[], mid, g, (takes_lit l).mpr ⟨rfl, rfl⟩, h, rfl⟩

/-- An expression that goes to the end of the text. -/
theorem takes_seq_atEnd :
    Takes (.seq r .atEnd) cs g rest ↔ rest = [] ∧ Takes r cs g [] := by
  rw [takes_seq]
  constructor
  · rintro ⟨g1, _, _, h1, h2, rfl⟩
    obtain ⟨rfl, rfl, rfl⟩ := takes_atEnd.mp h2
    rw [List.append_nil]
    exact ⟨rfl, h1⟩
  · rintro ⟨rfl, h⟩
    exact ⟨g, [], [], h, takes_atEnd.mpr ⟨rfl, rfl, rfl⟩, (List.append_nil g).symm⟩

@[simp] theorem takes_some :
    Takes (some cls) cs g rest
      ↔ g = [] ∧ ∃ pre, pre ≠ [] ∧ cs = pre ++ rest ∧ ∀ c ∈ pre, cls c = true := by
  simp only [some, takes_seq, takes_one, takes_many]
  constructor
  · rintro ⟨_, _, _, ⟨rfl, c, hc, rfl⟩, ⟨rfl, pre, rfl, hpre⟩, rfl⟩
    refine ⟨rfl, c :: pre, List.cons_ne_nil _ _, rfl, ?_⟩
    intro d hd
    rcases List.mem_cons.mp hd with rfl | hd
    · exact hc
    · exact hpre d hd
  · rintro ⟨rfl, pre, hne, rfl, hpre⟩
    cases pre with
    | nil => exact absurd rfl hne
    | cons c pre =>
        exact ⟨[], pre ++ rest, [], ⟨rfl, c, hpre c List.mem_cons_self, rfl⟩,
          ⟨rfl, pre, rfl, fun d hd => hpre d (List.mem_cons_of_mem _ hd)⟩, rfl⟩

/-- Text with unescaped dots takes itself. -/
theorem takes_dotted_self (l rest : List Char) : Takes (dotted l) (l ++ rest) [] rest := by
  induction l with
  | nil => simp [dotted]
  | cons c l ih =>
      rw [dotted, takes_seq]
      refine ⟨[], l ++ rest, [], takes_one.mpr ⟨rfl, c, ?_, rfl⟩, ih, rfl⟩
      by_cases hc : c = '.'
      · rw [if_pos hc, hc]
        decide
      · rw [if_neg hc]
        simp

/-- As many groups are captured as the expression has. -/
theorem Takes.groups_length (h : Takes r cs g rest) : g.length = r.groups := by
  induction r generalizing cs g rest with
  | eps => rw [(takes_eps.mp h).1]; rfl
  | one cls => rw [(takes_one.mp h).1]; rfl
  | many cls => rw [(takes_many.mp h).1]; rfl
  | atEnd => rw [(takes_atEnd.mp h).1]; rfl
  | seq r s ihr ihs =>
      obtain ⟨_, _, _, h1, h2, rfl⟩ := takes_seq.mp h
      rw [List.length_append, ihr h1, ihs h2]
      rfl
  | alt r s ihr ihs =>
      rcases takes_alt.mp h with ⟨_, h1, rfl⟩ | ⟨_, h2, rfl⟩
      · rw [List.length_append, List.length_replicate, ihr h1]
        rfl
      · rw [List.length_append, List.length_replicate, ihs h2]
        rfl
  | group r ih =>
      obtain ⟨_, _, h1, _, rfl⟩ := takes_group.mp h
      rw [List.length_cons, ih h1]
      rfl

/-! ## Matching and searching -/

/-- A full match is a way to leave nothing. -/
theorem fullMatch_takes (h : fullMatch r cs = Option.some g) : Takes r cs g [] := by
  obtain ⟨⟨g1, rest⟩, hm, heq⟩ := List.exists_of_findSome?_eq_some h
  dsimp only at heq
  by_cases hrest : rest = []
  · rw [if_pos hrest] at heq
    obtain rfl := Option.some.inj heq
    rw [hrest] at hm
    exact hm
  · rw [if_neg hrest] at heq
    cases heq

/-- There is a full match as soon as there is a way to leave nothing. -/
theorem fullMatch_of_takes (h : Takes r cs g []) : ∃ g', fullMatch r cs = Option.some g' := by
  refine Option.isSome_iff_exists.mp ?_
  rw [fullMatch, List.findSome?_isSome_iff]
  exact ⟨(g, []), h, rfl⟩

/-- A search from the start succeeds where there is a way to match. -/
theorem found_iff : found r cs = true ↔ ∃ g rest, Takes r cs g rest := by
  simp only [found, Takes, Bool.not_eq_true', List.isEmpty_eq_false_iff_exists_mem, Prod.exists]

/-! ## How a matched text starts -/

/-- Two texts differ at a place both have. -/
def clash (l start : List Char) : Bool := (l.zip start).any (fun x => x.1 != x.2)

theorem not_clash_append (l cs rest : List Char) (start : List Char) (h : l ++ rest = start ++ cs) :
    clash l start = false := by
  induction l generalizing start with
  | nil => rfl
  | cons c l ih =>
      cases start with
      | nil => rfl
      | cons d start =>
          obtain ⟨rfl, htail⟩ := List.cons.inj h
          have hrest := ih start htail
          unfold clash at *
          rw [List.zip_cons_cons, List.any_cons, hrest]
          simp

theorem not_prefix_of_clash {l start : List Char} (h : clash l start = true) :
    ¬ l <+: start ++ cs := by
  rintro ⟨tail, heq⟩
  have hno := not_clash_append l cs tail start heq
  rw [h] at hno
  cases hno

/-- A literal text takes no text that clashes with it. -/
theorem not_takes_lit {l start : List Char} (h : clash l start = true) :
    ¬ Takes (lit l) (start ++ cs) g rest := by
  intro ht
  exact not_prefix_of_clash h ⟨rest, ((takes_lit l).mp ht).2.symm⟩

theorem not_takes_lit_seq {l start : List Char} (h : clash l start = true) :
    ¬ Takes (.seq (lit l) r) (start ++ cs) g rest := by
  intro ht
  obtain ⟨mid, heq, _⟩ := takes_lit_seq.mp ht
  exact not_prefix_of_clash h ⟨mid, heq.symm⟩

/-- Two texts differ at a place both have where the first has no dot. -/
def dottedClash (l start : List Char) : Bool :=
  (l.zip start).any (fun x => x.1 != '.' && x.1 != x.2)

theorem not_takes_dotted {l start : List Char} (h : dottedClash l start = true) :
    ¬ Takes (dotted l) (start ++ cs) g rest := by
  intro ht
  induction l generalizing start g with
  | nil => cases h
  | cons c l ih =>
      cases start with
      | nil => cases h
      | cons d start =>
          obtain ⟨_, _, _, h1, h2, _⟩ := takes_seq.mp ht
          obtain ⟨_, e, he, heq⟩ := takes_one.mp h1
          obtain ⟨rfl, rfl⟩ := List.cons.inj heq
          unfold dottedClash at *
          rw [List.zip_cons_cons, List.any_cons, Bool.or_eq_true] at h
          rcases h with h | h
          · obtain ⟨hdot, hne⟩ := Bool.and_eq_true_iff.mp h
            rw [if_neg (bne_iff_ne.mp hdot)] at he
            exact bne_iff_ne.mp hne (beq_iff_eq.mp he).symm
          · exact ih h h2

theorem not_takes_dotted_seq {l start : List Char} (h : dottedClash l start = true) :
    ¬ Takes (.seq (dotted l) r) (start ++ cs) g rest := by
  intro ht
  obtain ⟨_, _, _, h1, _, _⟩ := takes_seq.mp ht
  exact not_takes_dotted h h1

end Re

/-! ## Cascades -/

/-- One test of a cascade: an expression, and what is done with the groups of
    its full match. -/
structure Rule (ε β : Type) where
  pattern : Re
  action : List (List Char) → Except ε (Option β)

variable {ε β : Type}

/-- The first rule whose expression matches the whole text decides; a text no
    rule matches has no result. -/
def cascade : List (Rule ε β) → List Char → Except ε (Option β)
  | [], _ => .ok none
  | rule :: rules, cs =>
      match rule.pattern.fullMatch cs with
      | Option.some g => rule.action g
      | none => cascade rules cs

/-- The rule cannot fail on this text. -/
def Rule.Total (rule : Rule ε β) (cs : List Char) : Prop :=
  ∀ g, Re.Takes rule.pattern cs g [] → ∃ b, rule.action g = .ok (Option.some b)

/-- A text some rule matches has a result when no matching rule fails on it. -/
theorem cascade_succeeds {rules : List (Rule ε β)} {cs : List Char}
    (htotal : ∀ rule ∈ rules, rule.Total cs)
    (hmatch : ∃ rule ∈ rules, ∃ g, Re.Takes rule.pattern cs g []) :
    ∃ b, cascade rules cs = .ok (Option.some b) := by
  induction rules with
  | nil =>
      obtain ⟨_, hmem, _⟩ := hmatch
      cases hmem
  | cons rule rules ih =>
      rw [cascade]
      cases hm : rule.pattern.fullMatch cs with
      | some g => exact htotal rule (by simp) g (Re.fullMatch_takes hm)
      | none =>
          refine ih (fun r hr => htotal r (by simp [hr])) ?_
          obtain ⟨r, hr, g, hg⟩ := hmatch
          rcases List.mem_cons.mp hr with rfl | hr
          · obtain ⟨g', hg'⟩ := Re.fullMatch_of_takes hg
            rw [hm] at hg'
            cases hg'
          · exact ⟨r, hr, g, hg⟩

/-- A text with a result is matched by a rule that does not fail on it. -/
theorem cascade_result {rules : List (Rule ε β)} {cs : List Char} {b : β}
    (h : cascade rules cs = .ok (Option.some b)) :
    ∃ rule ∈ rules, ∃ g, Re.Takes rule.pattern cs g [] ∧ rule.action g = .ok (Option.some b) := by
  induction rules with
  | nil => cases h
  | cons rule rules ih =>
      rw [cascade] at h
      cases hm : rule.pattern.fullMatch cs with
      | some g =>
          rw [hm] at h
          exact ⟨rule, List.mem_cons_self, g, Re.fullMatch_takes hm, h⟩
      | none =>
          rw [hm] at h
          obtain ⟨r, hr, g, hg⟩ := ih h
          exact ⟨r, List.mem_cons_of_mem _ hr, g, hg⟩

end Regex
