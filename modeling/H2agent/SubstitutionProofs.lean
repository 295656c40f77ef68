import Mathlib.Data.List.Induction
import Mathlib.Data.List.TakeWhile
import H2agent.TextReplaceProofs
import H2agent.TransformationLoadProofs

/-! # Variable substitution — when the loop is one pass

    `collectVariablePatterns` finds the variables of a template, and
    `replaceVariables` replaces their patterns one after the other in the whole
    text.  The meaning intended is one pass over the template: each of its
    patterns is replaced by the value of its variable, and what was inserted is
    left alone.  The loop does that as long as no pattern still to come occurs
    in the text outside the places the template has it.

    * `parse`, `render`: a template as characters and variables, and the one
      pass over it;
    * `collect_spec`: the patterns collected are those of the template;
    * `stage_iff`: one turn of the loop is one more variable of the pass exactly
      when the pattern occurs only where the template has it;
    * `stages_of_contained`, `turn_of_stages`: every stage of the loop;
    * `substitution_one_pass_iff`: the whole loop. -/

namespace H2Subst

open H2Convert H2Key H2Load H2Transformation JsonValue TextReplace

/-! ## Templates -/

/-- A template is made of characters and variables. -/
inductive Segment where
  | char (c : Char)
  | token (name : List Char)

/-- The segments of a text; `skip` characters belong to a variable already found. -/
def segments : Nat → List Char → List Segment
  | _, [] => []
  | skip + 1, _ :: cs => segments skip cs
  | 0, c :: cs =>
      match tokenAt (c :: cs) with
      | some name => .token name :: segments (name.length + 2) cs
      | none => .char c :: segments 0 cs

/-- The segments of a template. -/
def parse (template : String) : List Segment := segments 0 template.toList

/-- Values of variables by their names. -/
abbrev Values := List Char → Option (List Char)

/-- A segment with the variables replaced that have a value. -/
def Segment.text (σ : Values) : Segment → List Char
  | .char c => [c]
  | .token name => (σ name).getD (pattern name)

/-- One pass over the segments. -/
def render (σ : Values) (segs : List Segment) : List Char := segs.flatMap (Segment.text σ)

/-- The template with its variables replaced in one pass. -/
def onePass (σ : Values) (template : String) : String := String.ofList (render σ (parse template))

/-- The value of a name: a local variable, or else the text of a vault entry. -/
def resolve (lib : Lib) (vars : TextMap String) (vault : Vault) (name : String) :
    Except Fault (Option String) :=
  match vars.lookup name with
  | some value => .ok (some value)
  | none =>
      match vault.lookup name with
      | none => .ok none
      | some j => (jsonToString lib j).map some

/-- The values of all names. -/
def values (lib : Lib) (vars : TextMap String) (vault : Vault) : Values := fun name =>
  match resolve lib vars vault (String.ofList name) with
  | .ok (some value) => some value.toList
  | _ => none

/-- The values of some names only. -/
def restrict (σ : Values) (names : List String) : Values := fun name =>
  if String.ofList name ∈ names then σ name else none

/-- A segment with marks where a variable without a value stands. -/
def Segment.marked (σ : Values) (name : List Char) : Segment → List (Char × Bool)
  | .char c => [(c, false)]
  | .token other =>
      match σ other with
      | some value => unmarked value
      | none =>
          if other = name then ('@', true) :: unmarked ('\x7b' :: name ++ ['\x7d'])
          else unmarked (pattern other)

/-- The text under some values, with marks where the template has the variable. -/
def markedText (σ : Values) (name : List Char) (segs : List Segment) : List (Char × Bool) :=
  segs.flatMap (Segment.marked σ name)

/-! ## Segments and patterns -/

/-- A variable that starts a text is its pattern, and its name has no braces. -/
theorem tokenAt_spec {cs name : List Char} (h : tokenAt cs = some name) :
    (∃ rest, cs = pattern name ++ rest) ∧ ∀ c ∈ name, inName c = true := by
  unfold tokenAt at h
  split at h
  · rename_i cs
    split at h
    · rename_i rest hrest
      obtain rfl := Option.some.inj h
      refine ⟨⟨rest, ?_⟩, fun c hc => List.mem_takeWhile_imp hc⟩
      have hsplit := List.takeWhile_append_dropWhile (p := inName) (l := cs)
      rw [hrest] at hsplit
      simp only [pattern, List.cons_append, List.append_assoc, List.nil_append]
      rw [hsplit]
    · cases h
  · cases h

/-- The variables of segments. -/
def tokens (segs : List Segment) : List (List Char) :=
  segs.filterMap (fun
    | .char _ => none
    | .token name => some name)

/-- A text is its segments with nothing replaced. -/
theorem render_segments (skip : Nat) (cs : List Char) :
    render (fun _ => none) (segments skip cs) = cs.drop skip := by
  fun_induction segments skip cs with
  | case1 skip => simp [render]
  | case2 skip c cs ih => exact ih
  | case3 c cs name htoken ih =>
      obtain ⟨⟨rest, hrest⟩, _⟩ := tokenAt_spec htoken
      have hcs : cs = '\x7b' :: name ++ '\x7d' :: rest := by
        have h := (List.cons.inj hrest).2
        simpa [pattern] using h
      have hdrop : cs.drop (name.length + 2) = rest := by
        rw [hcs]
        simp
      rw [hdrop] at ih
      show pattern name ++ render (fun _ => none) (segments (name.length + 2) cs) = _
      rw [ih, List.drop_zero, hrest]
  | case4 c cs htoken ih =>
      show [c] ++ render (fun _ => none) (segments 0 cs) = _
      rw [ih]
      rfl

/-- The names of a template have no braces. -/
theorem tokens_inName (skip : Nat) (cs : List Char) :
    ∀ name ∈ tokens (segments skip cs), ∀ c ∈ name, inName c = true := by
  fun_induction segments skip cs with
  | case1 skip => simp [tokens]
  | case2 skip c cs ih => exact ih
  | case3 c cs name htoken ih =>
      intro other hother
      rcases List.mem_cons.mp hother with rfl | hother
      · exact (tokenAt_spec htoken).2
      · exact ih other hother
  | case4 c cs htoken ih => exact ih

/-- A pattern does not overlap itself: it has one closing brace, at its end. -/
theorem pattern_unbordered {name : List Char} (h : ∀ c ∈ name, inName c = true) :
    Unbordered (pattern name) := by
  intro a b hab ha hb hpre
  have hlast : '\x7d' ∈ b := by
    have hp : (pattern name).getLast? = some '\x7d' :=
      List.getLast?_concat (l := '@' :: '\x7b' :: name)
    rw [hab, List.getLast?_append_of_ne_nil _ hb] at hp
    exact List.mem_of_getLast? hp
  have hlen : b.length < (pattern name).length := by
    rw [hab, List.length_append]
    have := List.length_pos_of_ne_nil ha
    omega
  obtain ⟨z, hz⟩ := hpre
  have hinit : '\x7d' ∈ ('@' :: '\x7b' :: name) := by
    have hp : pattern name = ('@' :: '\x7b' :: name) ++ ['\x7d'] := rfl
    have hb' : b <+: '@' :: '\x7b' :: name := by
      refine List.prefix_of_prefix_length_le ⟨z, hz⟩ ⟨_, hp.symm⟩ ?_
      rw [hp, List.length_append] at hlen
      simp only [List.length_cons, List.length_nil] at hlen ⊢
      omega
    exact hb'.subset hlast
  rcases List.mem_cons.mp hinit with h1 | h1
  · exact absurd h1 (by decide)
  · rcases List.mem_cons.mp h1 with h2 | h2
    · exact absurd h2 (by decide)
    · exact absurd (h _ h2) (by decide)

/-! ## The patterns collected -/

/-- The entry of a variable. -/
def entry (name : List Char) : String × String := (String.ofList (pattern name), String.ofList name)

/-- The entries of some variables, added one by one. -/
def addAll (names : List (List Char)) (patterns : List (String × String)) :
    List (String × String) :=
  names.foldl (fun acc name => emplaceSorted (entry name).1 (entry name).2 acc) patterns

theorem collectLoop_eq (skip : Nat) (cs : List Char) (patterns : List (String × String)) :
    collectLoop skip cs patterns = addAll (tokens (segments skip cs)) patterns := by
  fun_induction collectLoop skip cs patterns with
  | case1 skip patterns => rw [segments]; rfl
  | case2 skip c cs patterns ih => rw [ih, segments]
  | case3 c cs patterns name htoken ih =>
      rw [ih, segments, htoken]
      rfl
  | case4 c cs patterns htoken ih =>
      rw [ih, segments, htoken]
      rfl

theorem pattern_injective {name other : List Char} (h : pattern name = pattern other) :
    name = other := by
  have h1 := (List.cons.inj (List.cons.inj h).2).2
  exact (List.append_inj_left' h1 rfl)

theorem entry_injective {name other : List Char} (h : (entry name).1 = (entry other).1) :
    name = other :=
  pattern_injective (String.ofList_injective h)

/-- One variable more keeps the order, and adds its entry when it is not there. -/
theorem emplaceSorted_entry (name : List Char) {patterns : List (String × String)}
    (hord : KeyOrdered patterns) (hentries : ∀ e ∈ patterns, ∃ other, e = entry other) :
    KeyOrdered (emplaceSorted (entry name).1 (entry name).2 patterns)
      ∧ ∀ e, e ∈ emplaceSorted (entry name).1 (entry name).2 patterns
        ↔ e = entry name ∨ e ∈ patterns := by
  by_cases hthere : (entry name).1 ∈ patterns.map Prod.fst
  · rw [emplaceSorted_of_mem hord hthere]
    refine ⟨hord, fun e => ⟨.inr, ?_⟩⟩
    rintro (rfl | he)
    · obtain ⟨e, he, hkey⟩ := List.mem_map.mp hthere
      obtain ⟨other, rfl⟩ := hentries e he
      rw [← entry_injective hkey]
      exact he
    · exact he
  · refine ⟨emplaceSorted_ordered hthere hord, fun e => ?_⟩
    rw [(emplaceSorted_perm hthere).mem_iff, List.mem_cons]

/-- Adding variables keeps the order, and has the entries of all of them. -/
theorem addAll_spec (names : List (List Char)) {patterns : List (String × String)}
    (hord : KeyOrdered patterns) (hentries : ∀ e ∈ patterns, ∃ name, e = entry name) :
    KeyOrdered (addAll names patterns)
      ∧ (∀ name, entry name ∈ addAll names patterns ↔ entry name ∈ patterns ∨ name ∈ names)
      ∧ ∀ e ∈ addAll names patterns, ∃ name, e = entry name := by
  induction names generalizing patterns with
  | nil => exact ⟨hord, fun name => by simp [addAll], hentries⟩
  | cons name names ih =>
      obtain ⟨hord', hmem'⟩ := emplaceSorted_entry name hord hentries
      have hentries' : ∀ e ∈ emplaceSorted (entry name).1 (entry name).2 patterns,
          ∃ other, e = entry other := by
        intro e he
        rcases (hmem' e).mp he with rfl | he
        · exact ⟨name, rfl⟩
        · exact hentries e he
      obtain ⟨h1, h2, h3⟩ := ih hord' hentries'
      refine ⟨h1, fun other => (h2 other).trans ?_, h3⟩
      rw [hmem', List.mem_cons]
      constructor
      · rintro ((h | h) | h)
        · exact .inr (.inl (entry_injective (congrArg Prod.fst h)))
        · exact .inl h
        · exact .inr (.inr h)
      · rintro (h | rfl | h)
        · exact .inl (.inr h)
        · exact .inl (.inl rfl)
        · exact .inr h

/-- **COLLECTED PATTERNS**: one entry for each variable of the template, no key
    twice. -/
theorem collect_spec (template : String) :
    KeyOrdered (collectVariablePatterns template)
      ∧ (∀ name, entry name ∈ collectVariablePatterns template ↔ name ∈ tokens (parse template))
      ∧ ∀ e ∈ collectVariablePatterns template, ∃ name, e = entry name := by
  have heq : collectVariablePatterns template = addAll (tokens (parse template)) [] :=
    collectLoop_eq 0 template.toList []
  have hnil : KeyOrdered [] := List.Pairwise.nil
  obtain ⟨h1, h2, h3⟩ := addAll_spec (tokens (parse template)) hnil nofun
  rw [heq]
  exact ⟨h1, fun name => (h2 name).trans ⟨fun h => h.resolve_left nofun, .inr⟩, h3⟩

/-! ## Marked texts of templates -/

variable {σ : Values} {name : List Char}

/-- The marks do not change the text. -/
theorem chars_markedText (segs : List Segment) : chars (markedText σ name segs) = render σ segs := by
  induction segs with
  | nil => rfl
  | cons seg segs ih =>
      have hseg : chars (seg.marked σ name) = seg.text σ := by
        cases seg with
        | char c => rfl
        | token other =>
            simp only [Segment.marked, Segment.text]
            cases hv : σ other with
            | some value => simp
            | none =>
                by_cases ho : other = name
                · rw [if_pos ho, ho]
                  simp [pattern]
                · rw [if_neg ho]
                  simp
      show chars (seg.marked σ name ++ markedText σ name segs) = _
      rw [chars_append, hseg, ih]
      rfl

theorem marksAt_unmarked {p : List Char} (cs : List Char) {m : List (Char × Bool)}
    (h : MarksAt p m) : MarksAt p (unmarked cs ++ m) := by
  induction cs with
  | nil => exact h
  | cons c cs ih =>
      show (false = true → _) ∧ MarksAt p (unmarked cs ++ m)
      exact ⟨nofun, ih⟩

/-- Marks stand at the pattern of the variable. -/
theorem marksAt_markedText (segs : List Segment) :
    MarksAt (pattern name) (markedText σ name segs) := by
  induction segs with
  | nil => exact True.intro
  | cons seg segs ih =>
      show MarksAt _ (seg.marked σ name ++ markedText σ name segs)
      cases seg with
      | char c => exact marksAt_unmarked [c] ih
      | token other =>
          simp only [Segment.marked]
          cases σ other with
          | some value => exact marksAt_unmarked value ih
          | none =>
              by_cases ho : other = name
              · rw [if_pos ho]
                refine ⟨fun _ => ?_, marksAt_unmarked _ ih⟩
                refine ⟨chars (markedText σ name segs), ?_⟩
                show pattern name ++ _ = '@' :: chars (unmarked _ ++ _)
                rw [chars_append, chars_unmarked]
                rfl
              · rw [if_neg ho]
                exact marksAt_unmarked _ ih

/-- The values with one more. -/
def withValue (σ : Values) (name value : List Char) : Values := fun other =>
  if other = name then some value else σ other

/-- Replacing what is marked is the pass with one more value. -/
theorem replaceMarked_markedText (hσ : σ name = none) (value : List Char) (segs : List Segment) :
    replaceMarked (pattern name).length value 0 (markedText σ name segs)
      = render (withValue σ name value) segs := by
  induction segs with
  | nil => rfl
  | cons seg segs ih =>
      show replaceMarked _ value 0 (seg.marked σ name ++ markedText σ name segs)
        = seg.text (withValue σ name value) ++ render (withValue σ name value) segs
      cases seg with
      | char c =>
          show replaceMarked _ value 0 (unmarked [c] ++ markedText σ name segs) = _
          rw [replaceMarked_unmarked, ih]
          rfl
      | token other =>
          simp only [Segment.marked, Segment.text, withValue]
          by_cases ho : other = name
          · rw [if_pos ho, if_pos ho, ho, hσ]
            have hmark := replaceMarked_mark value '@' ('\x7b' :: name ++ ['\x7d'])
              (markedText σ name segs)
            rw [List.cons_append]
            exact hmark.trans (congrArg (value ++ ·) ih)
          · rw [if_neg ho, if_neg ho]
            cases hv : σ other with
            | some v =>
                dsimp only
                rw [replaceMarked_unmarked, ih]
                rfl
            | none =>
                dsimp only
                rw [replaceMarked_unmarked, ih]
                rfl

/-! ## One turn of the loop -/

theorem replaceLoop_eq (p r : List Char) (skip : Nat) (cs : List Char) :
    replaceLoop p r skip cs = replaceAll p r skip cs := by
  fun_induction replaceLoop p r skip cs with
  | case1 skip => rfl
  | case2 skip c cs ih => exact ih
  | case3 c cs hpre ih => rw [ih, replaceAll, if_pos hpre]
  | case4 c cs hpre ih => rw [ih, replaceAll, if_neg hpre]

/-- **STEP LEMMA**: replacing the pattern of a variable in the whole text gives
    the pass with one more value exactly when the pattern occurs only where the
    template has it, or is its own value. -/
theorem stage_iff (hname : ∀ c ∈ name, inName c = true) (hσ : σ name = none) (value : String)
    (segs : List Segment) :
    searchReplaceAll (String.ofList (render σ segs)) (String.ofList (pattern name)) value
        = String.ofList (render (withValue σ name value.toList) segs)
      ↔ value.toList = pattern name ∨ OnlyMarked (pattern name) (markedText σ name segs) := by
  have hne : pattern name ≠ [] := List.cons_ne_nil _ _
  have hu := pattern_unbordered hname
  have hmarks : MarksAt (pattern name) (markedText σ name segs) := marksAt_markedText segs
  have htext : chars (markedText σ name segs) = render σ segs := chars_markedText segs
  rw [searchReplaceAll, String.ofList_inj, String.toList_ofList, String.toList_ofList,
    replaceLoop_eq, ← replaceMarked_markedText hσ, ← htext]
  by_cases hv : value.toList = pattern name
  · rw [hv]
    exact ⟨fun _ => .inl rfl, fun _ => replaceAll_self hne hu _ hmarks⟩
  · rw [replaceAll_eq_iff hne hu hv _ hmarks]
    exact ⟨.inr, fun h => h.resolve_left hv⟩

/-- The pass looks at the values of the template's variables only. -/
theorem render_congr {σ σ' : Values} {segs : List Segment}
    (h : ∀ name ∈ tokens segs, σ name = σ' name) : render σ segs = render σ' segs := by
  induction segs with
  | nil => rfl
  | cons seg segs ih =>
      have hrest : render σ segs = render σ' segs := by
        refine ih (fun name hname => h name ?_)
        cases seg with
        | char c => exact hname
        | token other => exact List.mem_cons_of_mem _ hname
      show seg.text σ ++ render σ segs = seg.text σ' ++ render σ' segs
      rw [hrest]
      cases seg with
      | char c => rfl
      | token other =>
          simp only [Segment.text]
          rw [h other List.mem_cons_self]

/-! ## The whole loop -/

section Loop

variable (lib : Lib) (vars : TextMap String) (vault : Vault)

/-- One pattern: replaced when its name has a value. -/
def turn (str : String) (e : String × String) : Except Fault String :=
  (resolve lib vars vault e.2).map (fun
    | some value => searchReplaceAll str e.1 value
    | none => str)

theorem replaceEach_cons (e : String × String) (rest : List (String × String)) (str : String) :
    replaceEach lib vars vault (e :: rest) str
      = (turn lib vars vault str e).bind (replaceEach lib vars vault rest) := by
  obtain ⟨p, n⟩ := e
  rw [replaceEach, turn, resolve]
  cases vars.lookup n with
  | some value => rfl
  | none =>
      cases vault.lookup n with
      | none => rfl
      | some j =>
          dsimp only
          cases jsonToString lib j with
          | error e => rfl
          | ok value => rfl

theorem replaceEach_concat (pre : List (String × String)) (e : String × String) (str : String) :
    replaceEach lib vars vault (pre ++ [e]) str
      = (replaceEach lib vars vault pre str).bind (fun t => turn lib vars vault t e) := by
  induction pre generalizing str with
  | nil =>
      rw [List.nil_append, replaceEach_cons]
      show (turn lib vars vault str e).bind .ok = turn lib vars vault str e
      cases turn lib vars vault str e with
      | error _ => rfl
      | ok _ => rfl
  | cons d pre ih =>
      rw [List.cons_append, replaceEach_cons, replaceEach_cons]
      cases turn lib vars vault str d with
      | error e => rfl
      | ok t => exact ih t

/-- Without variables and vault entries the loop leaves the text. -/
theorem replaceEach_empty (hvars : vars.entries = []) (hvault : vault.entries = [])
    (patterns : List (String × String)) (str : String) :
    replaceEach lib vars vault patterns str = .ok str := by
  induction patterns generalizing str with
  | nil => rfl
  | cons e rest ih =>
      have hv : vars.lookup e.2 = none := by simp [AList.lookup, hvars]
      have hw : vault.lookup e.2 = none := by simp [AList.lookup, hvault]
      rw [replaceEach_cons, turn, resolve, hv, hw]
      exact ih str

/-- `replaceVariables` is the loop; its early returns skip turns that would change
    nothing. -/
theorem replaceVariables_eq (str : String) (patterns : List (String × String)) :
    replaceVariables lib str patterns vars vault = replaceEach lib vars vault patterns str := by
  unfold replaceVariables
  by_cases hp : patterns.isEmpty = true
  · rw [if_pos hp, List.isEmpty_iff.mp hp]
    rfl
  · rw [if_neg hp]
    by_cases hboth : (vars.entries.isEmpty && vault.entries.isEmpty) = true
    · rw [if_pos hboth]
      obtain ⟨h1, h2⟩ := Bool.and_eq_true_iff.mp hboth
      exact (replaceEach_empty lib vars vault (List.isEmpty_iff.mp h1) (List.isEmpty_iff.mp h2)
        patterns str).symm
    · rw [if_neg hboth]

/-- The substitution is one pass: its result is, and so is every stage of it, which
    is to say that no inserted value was expanded on the way. -/
structure OnePass (template : String) : Prop where
  result : replaceVariables lib template (collectVariablePatterns template) vars vault
    = .ok (onePass (values lib vars vault) template)
  stages : ∀ pre post, collectVariablePatterns template = pre ++ post →
    replaceEach lib vars vault pre template
      = .ok (onePass (restrict (values lib vars vault) (pre.map Prod.snd)) template)

/-- The condition: every value in use has a string form, and in the template with
    the earlier variables replaced the pattern of the next one that has a value
    occurs only where the template has it (or is its own value). -/
structure Contained (template : String) : Prop where
  forms : ∀ e ∈ collectVariablePatterns template, ∃ r, resolve lib vars vault e.2 = .ok r
  only : ∀ pre name post value, collectVariablePatterns template = pre ++ entry name :: post →
    resolve lib vars vault (String.ofList name) = .ok (some value) →
    value.toList = pattern name
      ∨ OnlyMarked (pattern name)
          (markedText (restrict (values lib vars vault) (pre.map Prod.snd)) name (parse template))

variable {lib vars vault} {template : String}

/-- The values with the value of one more name, if it has one. -/
theorem restrict_concat (σ : Values) (names : List String) (name : List Char) :
    restrict σ (names ++ [String.ofList name])
      = fun other => if other = name then σ name else restrict σ names other := by
  funext other
  by_cases ho : other = name
  · rw [restrict, if_pos (by simp [ho]), if_pos ho, ho]
  · have hne : String.ofList other ≠ String.ofList name := fun h => ho (String.ofList_injective h)
    have hmem : String.ofList other ∈ names ++ [String.ofList name] ↔ String.ofList other ∈ names := by
      rw [List.mem_append, List.mem_singleton]
      exact or_iff_left hne
    simp only [restrict, hmem, if_neg ho]

/-- The next variable of the loop is one of the template, and not an earlier one. -/
theorem next_fresh {pre post : List (String × String)} {name : List Char}
    (hsplit : collectVariablePatterns template = pre ++ entry name :: post) :
    name ∈ tokens (parse template) ∧ String.ofList name ∉ pre.map Prod.snd := by
  obtain ⟨hord, hmem, hentries⟩ := collect_spec template
  rw [hsplit] at hord hmem hentries
  refine ⟨(hmem name).mp (by simp), fun hin => ?_⟩
  obtain ⟨e, he, hkey⟩ := List.mem_map.mp hin
  obtain ⟨other, rfl⟩ := hentries e (List.mem_append_left _ he)
  obtain rfl : other = name := String.ofList_injective hkey
  exact absurd ((List.pairwise_append.mp hord).2.2 _ he _ List.mem_cons_self) (lt_irrefl _)

/-- The condition on one turn. -/
def TurnContained (lib : Lib) (vars : TextMap String) (vault : Vault) (template : String)
    (names : List String) (name : List Char) : Prop :=
  (∃ r, resolve lib vars vault (String.ofList name) = .ok r)
    ∧ ∀ value, resolve lib vars vault (String.ofList name) = .ok (some value) →
      value.toList = pattern name
        ∨ OnlyMarked (pattern name)
            (markedText (restrict (values lib vars vault) names) name (parse template))

/-- **RUN STEP**: the turn of a variable after the earlier ones went as one pass. -/
theorem turn_iff {names : List String} {name : List Char}
    (hname : ∀ c ∈ name, inName c = true) (hfresh : String.ofList name ∉ names) :
    turn lib vars vault (onePass (restrict (values lib vars vault) names) template) (entry name)
        = .ok (onePass (restrict (values lib vars vault) (names ++ [String.ofList name])) template)
      ↔ TurnContained lib vars vault template names name := by
  have hnone : restrict (values lib vars vault) names name = none := if_neg hfresh
  rw [turn, show (entry name).2 = String.ofList name from rfl, restrict_concat, TurnContained]
  cases hres : resolve lib vars vault (String.ofList name) with
  | error e => exact ⟨nofun, fun h => nomatch h.1.choose_spec⟩
  | ok r =>
      cases r with
      | none =>
          -- without a value the turn leaves the text alone
          refine ⟨fun _ => ⟨⟨_, rfl⟩, nofun⟩, fun _ => ?_⟩
          have hval : values lib vars vault name = none := by rw [values, hres]
          have hsame : (fun other => if other = name then values lib vars vault name
              else restrict (values lib vars vault) names other)
              = restrict (values lib vars vault) names := by
            funext other
            by_cases ho : other = name
            · rw [if_pos ho, ho, hval, hnone]
            · rw [if_neg ho]
          rw [hsame]
          rfl
      | some value =>
          have hval : values lib vars vault name = some value.toList := by rw [values, hres]
          have hstage := stage_iff hname hnone value (parse template)
          rw [hval]
          constructor
          · intro h
            refine ⟨⟨_, rfl⟩, fun v hv => ?_⟩
            obtain rfl : value = v := Option.some.inj (Except.ok.inj hv)
            exact hstage.mp (Except.ok.inj h)
          · intro h
            exact congrArg Except.ok (hstage.mpr (h.2 value rfl))

/-- With all the variables of the template, the restriction drops nothing. -/
theorem onePass_all (σ : Values) (template : String) :
    onePass (restrict σ ((collectVariablePatterns template).map Prod.snd)) template
      = onePass σ template := by
  refine congrArg String.ofList (render_congr (fun name hname => ?_))
  refine if_pos (List.mem_map.mpr ⟨entry name, ?_, rfl⟩)
  exact ((collect_spec template).2.1 name).mpr hname

/-- **RUN LEMMA**: under the condition every stage of the loop is one pass. -/
theorem stages_of_contained (h : Contained lib vars vault template)
    (pre post : List (String × String)) (hsplit : collectVariablePatterns template = pre ++ post) :
    replaceEach lib vars vault pre template
      = .ok (onePass (restrict (values lib vars vault) (pre.map Prod.snd)) template) := by
  induction pre using List.reverseRecOn generalizing post with
  | nil =>
      have hnone : restrict (values lib vars vault) [] = fun _ => none := rfl
      have hempty := render_segments 0 template.toList
      rw [List.map_nil, hnone, onePass, parse, hempty]
      simp [replaceEach]
  | append_singleton pre e ih =>
      obtain ⟨name, rfl⟩ := (collect_spec template).2.2 e (by rw [hsplit]; simp)
      have hsplit' : collectVariablePatterns template = pre ++ entry name :: post := by
        rw [hsplit, List.append_assoc]
        rfl
      obtain ⟨htoken, hfresh⟩ := next_fresh hsplit'
      have hturn : TurnContained lib vars vault template (pre.map Prod.snd) name :=
        ⟨h.forms (entry name) (by rw [hsplit']; simp), fun value => h.only pre name post value hsplit'⟩
      rw [replaceEach_concat, ih _ hsplit', List.map_append]
      exact (turn_iff (tokens_inName 0 template.toList name htoken) hfresh).mpr hturn

/-- When the stages are one pass, so is each turn between them. -/
theorem turn_of_stages (h : OnePass lib vars vault template) {pre post : List (String × String)}
    {name : List Char} (hsplit : collectVariablePatterns template = pre ++ entry name :: post) :
    TurnContained lib vars vault template (pre.map Prod.snd) name := by
  obtain ⟨htoken, hfresh⟩ := next_fresh hsplit
  have hbefore := h.stages pre _ hsplit
  have hafter := h.stages (pre ++ [entry name]) post (by rw [hsplit, List.append_assoc]; rfl)
  rw [replaceEach_concat, hbefore, List.map_append] at hafter
  exact (turn_iff (tokens_inName 0 template.toList name htoken) hfresh).mp hafter

/-- **ONE PASS, EXACTLY**: for every template, variables and vault, the loop over the
    collected patterns is one simultaneous pass over the template, with no inserted
    value expanded, exactly when no pattern still to come occurs in the text
    outside the places the template has it. -/
theorem substitution_one_pass_iff (lib : Lib) (vars : TextMap String) (vault : Vault)
    (template : String) :
    OnePass lib vars vault template ↔ Contained lib vars vault template := by
  constructor
  · intro h
    refine ⟨fun e he => ?_, fun pre name post value hsplit => (turn_of_stages h hsplit).2 value⟩
    obtain ⟨pre, post, hsplit⟩ := List.append_of_mem he
    obtain ⟨name, rfl⟩ := (collect_spec template).2.2 e he
    exact (turn_of_stages h hsplit).1
  · intro h
    have hstages := stages_of_contained h
    refine ⟨?_, hstages⟩
    rw [replaceVariables_eq, hstages _ [] (List.append_nil _).symm, onePass_all]

end Loop

/-- Two variables, the value of the second given by the first. -/
def twoVariables (name other : String) : TextMap String :=
  (AList.insert name ("@\x7b" ++ other ++ "\x7d") ∅).insert other "x"

/-- The value of `a` is the pattern of `b`, which is replaced next: the text of the
    one pass is not the result.  With the names exchanged it is. -/
theorem inserted_pattern_expanded :
    replaceVariables idleLib "@\x7ba\x7d@\x7bb\x7d"
        (collectVariablePatterns "@\x7ba\x7d@\x7bb\x7d") (twoVariables "a" "b") ∅ = .ok "xx"
      ∧ onePass (values idleLib (twoVariables "a" "b") ∅) "@\x7ba\x7d@\x7bb\x7d" = "@\x7bb\x7dx"
      ∧ replaceVariables idleLib "@\x7bb\x7d@\x7ba\x7d"
        (collectVariablePatterns "@\x7bb\x7d@\x7ba\x7d") (twoVariables "b" "a") ∅
          = .ok "@\x7ba\x7dx"
      ∧ ¬ OnePass idleLib (twoVariables "a" "b") ∅ "@\x7ba\x7d@\x7bb\x7d" := by
  have hcode : replaceVariables idleLib "@\x7ba\x7d@\x7bb\x7d"
      (collectVariablePatterns "@\x7ba\x7d@\x7bb\x7d") (twoVariables "a" "b") ∅ = .ok "xx" := by
    decide
  have hpass : onePass (values idleLib (twoVariables "a" "b") ∅) "@\x7ba\x7d@\x7bb\x7d"
      = "@\x7bb\x7dx" := by
    decide
  refine ⟨hcode, hpass, by decide, fun h => ?_⟩
  have hresult := h.result
  rw [hcode, hpass] at hresult
  exact absurd (Except.ok.inj hresult) (by decide)

end H2Subst
