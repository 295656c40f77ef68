import H2agent.SearchReplaceProofs
import H2agent.StepRunProofs
import H2agent.UdpRequestProofs

/-! # Numbered datagrams

    `udp-client` sends one datagram for each number of a range: a template, taken at random,
    with the number in the place of `@\x7bseq\x7d`, and the number with an offset in the place of
    `@\x7bseq+5\x7d` and the like.  The patterns are replaced by a loop that looks again from the
    position of what it has just put in.

    * `rescan_some` — that loop ends, since no numeral has an `@`, and leaves what one pass
      leaves;
    * `turn_ok` — each turn of the client's loop comes to its end;
    * `datagrams_generated` — what is sent, for every range and every choice of templates: a
      range up to the largest number has no end. -/

namespace H2UdpClient

open CppText H2Convert H2Key H2Load H2SearchReplace H2Subst H2Udp StepRun TextReplace

/-! ## Replacing without moving on -/

/-- The loop over the occurrences of a pattern, for a number of turns: `pos` is moved by the
    length of a text that is always empty. -/
def rescanFrom (sought value : List Char) : Nat → List Char → Nat → Option (List Char)
  | 0, _, _ => none
  | turns + 1, str, pos =>
      match findFrom sought str pos with
      | none => some str
      | some found => rescanFrom sought value turns (replaceAt str found sought.length value) found

section Rescan

variable {c : Char} {p value : List Char}

/-- A text without the first character of the pattern is passed over. -/
theorem firstOccurrence_skip {r : List Char} (hc : c ∉ r) (s : List Char) :
    firstOccurrence (c :: p) (r ++ s) = (firstOccurrence (c :: p) s).map (r.length + ·) := by
  induction r with
  | nil =>
      cases hs : firstOccurrence (c :: p) s with
      | none => rw [List.nil_append, hs]; rfl
      | some n => rw [List.nil_append, hs]; simp
  | cons d r ih =>
      rw [List.mem_cons, not_or] at hc
      have hnot : ¬ c :: p <+: d :: (r ++ s) := fun h => hc.1 (List.cons_prefix_cons.mp h).1
      rw [List.cons_append, firstOccurrence_later hnot, ih hc.2]
      cases firstOccurrence (c :: p) s with
      | none => rfl
      | some n =>
          show some (r.length + n + 1) = some (r.length + 1 + n)
          rw [Nat.add_right_comm]

/-- Looking from the beginning of what was put in is looking from its end. -/
theorem findFrom_replaced (hc : c ∉ value) {str : List Char} {found : Nat}
    (h : found + (c :: p).length ≤ str.length) :
    findFrom (c :: p) (replaceAt str found (c :: p).length value) found
      = findFrom (c :: p) (replaceAt str found (c :: p).length value) (found + value.length) := by
  obtain ⟨-, hdrop⟩ := replaceAt_parts value h
  have hlen : found + value.length ≤ (replaceAt str found (c :: p).length value).length := by
    rw [replaceAt, List.length_append, List.length_append, List.length_take_of_le (by omega)]
    exact Nat.le_add_right _ _
  have hfrom : (replaceAt str found (c :: p).length value).drop found
      = value ++ str.drop (found + (c :: p).length) := by
    have htake : (str.take found).length = found := List.length_take_of_le (by omega)
    rw [replaceAt, List.append_assoc]
    exact List.drop_left' htake
  rw [findFrom, findFrom, if_pos hlen, if_pos (by omega), hfrom, hdrop, firstOccurrence_skip hc,
    Option.map_map]
  congr 1
  funext n
  exact (Nat.add_assoc _ _ _).symm

/-- The same turns, from the same text. -/
theorem rescanFrom_congr {turns : Nat} {str : List Char} {pos pos' : Nat}
    (h : findFrom p str pos = findFrom p str pos') :
    rescanFrom p value turns str pos = rescanFrom p value turns str pos' := by
  cases turns with
  | zero => rfl
  | succ turns => rw [rescanFrom, rescanFrom, h]

/-- Not moving on makes no difference. -/
theorem rescanFrom_eq (hc : c ∉ value) (turns : Nat) (str : List Char) (pos : Nat) :
    rescanFrom (c :: p) value turns str pos = replaceFrom (c :: p) value turns str pos := by
  induction turns generalizing str pos with
  | zero => rfl
  | succ turns ih =>
      rw [rescanFrom, replaceFrom]
      cases hfound : findFrom (c :: p) str pos with
      | none => rfl
      | some found =>
          obtain ⟨n, rfl, -, hend⟩ := findFrom_eq_some hfound
          show rescanFrom _ _ turns _ (pos + n) = replaceFrom _ _ turns _ (pos + n + value.length)
          rw [rescanFrom_congr (findFrom_replaced hc hend), ih]

end Rescan

/-- The loop with as many turns as it can need. -/
def rescan (str sought value : String) : Option String :=
  (rescanFrom sought.toList value.toList (str.length + 1) str.toList 0).map String.ofList

/-- **LOOP**: replacing a pattern by a text without `@` ends, with what one pass leaves. -/
theorem rescan_some (str : String) {sought : List Char} {value : String}
    (hat : '@' ∉ value.toList) :
    rescan str (String.ofList ('@' :: sought)) value
      = some (searchReplaceAll str (String.ofList ('@' :: sought)) value) := by
  have hloop := replaceFrom_eq value.toList (List.cons_ne_nil '@' sought) (str.length + 1)
    (Nat.zero_le str.toList.length) (by rw [String.length_toList]; omega)
  rw [rescan, String.toList_ofList, rescanFrom_eq hat, hloop, searchReplaceAll, replaceLoop_eq,
    String.toList_ofList]
  rfl

/-! ## The client -/

/-- What stands for the offset in the name of a variable, as the regular expression takes it
    out: nothing, or a sign and digits. -/
def numberStr : List Char → Option String
  | 's' :: 'e' :: 'q' :: [] => some "0"
  | 's' :: 'e' :: 'q' :: sign :: digits =>
      if (sign = '+' ∨ sign = '-') ∧ digits ≠ [] ∧ digits.all Char.isDigit then
        some (String.ofList (sign :: digits))
      else none
  | _ => none

/-- The offset, where `std::stoll` can read it. -/
def offset (name : List Char) : Option Int := (numberStr name).bind stoll

/-- The command line: the range, and the templates with their default. -/
structure Options where
  initialValue : Nat
  finalValue : Nat
  templates : List String
  initial_lt : initialValue < 18446744073709551616
  final_lt : finalValue < 18446744073709551616
  templates_ne : templates ≠ []

/-- The variables of a template that are numbers. -/
def seqNames (template : String) : List (List Char) :=
  (tokens (parse template)).filter fun name => (numberStr name).isSome

/-- The patterns of all templates, with their names. -/
def collected (o : Options) : List (String × String) := addAll (o.templates.flatMap seqNames) []

/-- `patterns`: they have their offsets, unless one is too large for `std::stoll`. -/
def patterns (o : Options) : Option (List (String × Int)) :=
  (collected o).mapM fun e => (offset e.2.toList).map (Prod.mk e.1)

/-- `initialValue + sequence + it.second`, as text. -/
def numeral (o : Options) (sequence : Nat) (offset : Int) : String :=
  Nat.repr (toU64 (wrapU64 (o.initialValue + sequence) + offset))

/-- The loop over the patterns. -/
def substitute (o : Options) (sequence : Nat) : List (String × Int) → String → Option String
  | [], udpData => some udpData
  | (sought, offset) :: rest, udpData =>
      match rescan udpData sought (numeral o sequence offset) with
      | none => none
      | some udpData => substitute o sequence rest udpData

/-- The template of a turn, by what `rand` gives. -/
def Options.template (o : Options) (pick : Nat) : String :=
  let templatePos := if o.templates.length ≠ 1 then pick % o.templates.length else 0
  o.templates[templatePos]?.getD ""

structure Client where
  sequence : Nat := 0
  sent : List String := []
  exited : Bool := false

/-- A turn of the main loop; it fails when a loop over a pattern has not ended. -/
def turn (o : Options) (patterns : List (String × Int)) (s : Client) (pick : Nat) :
    Except Unit Client :=
  if s.exited then .ok s
  else
    match substitute o s.sequence patterns (o.template pick) with
    | none => .error ()
    | some udpData =>
        if o.finalValue < wrapU64 (o.initialValue + s.sequence) then
          .ok { s with exited := true }
        else
          .ok { s with sequence := wrapU64 (s.sequence + 1), sent := s.sent ++ [udpData] }

/-! ## Each turn comes to its end -/

/-- The patterns replaced one after the other. -/
def replaced (o : Options) (sequence : Nat) (patterns : List (String × Int)) (udpData : String) :
    String :=
  patterns.foldl (fun text e => searchReplaceAll text e.1 (numeral o sequence e.2)) udpData

theorem replaced_cons (o : Options) (sequence : Nat) (sought : String) (shift : Int)
    (rest : List (String × Int)) (udpData : String) :
    replaced o sequence ((sought, shift) :: rest) udpData
      = replaced o sequence rest (searchReplaceAll udpData sought (numeral o sequence shift)) :=
  rfl

/-- A turn that comes to its end. -/
def next (o : Options) (patterns : List (String × Int)) (s : Client) (pick : Nat) : Client :=
  if s.exited then s
  else if o.finalValue < wrapU64 (o.initialValue + s.sequence) then { s with exited := true }
  else
    { s with
      sequence := wrapU64 (s.sequence + 1)
      sent := s.sent ++ [replaced o s.sequence patterns (o.template pick)] }

theorem numeral_plain (o : Options) (sequence : Nat) (offset : Int) :
    '@' ∉ (numeral o sequence offset).toList := by
  intro hat
  rw [numeral, Nat.toList_repr] at hat
  have hdigit := Nat.isDigit_of_mem_toDigits (by omega) (by omega) hat
  exact absurd hdigit (by decide)

/-- The value of a number under its variable. -/
def numbers (o : Options) (sequence : Nat) : Values := fun name =>
  (offset name).map fun shift => (numeral o sequence shift).toList

theorem numbers_plain (o : Options) (sequence : Nat) :
    ∀ name value, numbers o sequence name = some value → '@' ∉ value := by
  intro name value h
  obtain ⟨shift, -, rfl⟩ := Option.map_eq_some_iff.mp h
  exact numeral_plain o sequence shift

/-- The entry of a variable in the map of patterns. -/
def HasOffset (name : List Char) (e : String × Int) : Prop :=
  ∃ shift, offset name = some shift ∧ e = (String.ofList (pattern name), shift)

section Turns

variable {o : Options} {pats : List (String × Int)}

theorem hasOffset_of_mapM {names : List (List Char)}
    (h : (names.map entry).mapM (fun e => (offset e.2.toList).map (Prod.mk e.1)) = some pats) :
    List.Forall₂ HasOffset names pats := by
  induction names generalizing pats with
  | nil =>
      obtain rfl : [] = pats := Option.some.inj h
      exact .nil
  | cons name names ih =>
      rw [List.map_cons, List.mapM_cons] at h
      obtain ⟨e, he, h⟩ := Option.bind_eq_some_iff.mp h
      obtain ⟨rest, hrest, h⟩ := Option.bind_eq_some_iff.mp h
      obtain rfl := Option.some.inj h
      obtain ⟨shift, hshift, rfl⟩ := Option.map_eq_some_iff.mp he
      refine .cons ⟨shift, ?_, rfl⟩ (ih hrest)
      rw [← hshift, entry, String.toList_ofList]

/-- The patterns are those of the numbers of all templates. -/
theorem names_of_patterns (h : patterns o = some pats) :
    ∃ names : List (List Char), names.Nodup
      ∧ (∀ name, name ∈ names ↔ name ∈ o.templates.flatMap seqNames)
      ∧ List.Forall₂ HasOffset names pats := by
  have hnil : KeyOrdered [] := List.Pairwise.nil
  obtain ⟨hord, hmem, hentries⟩ := addAll_spec (o.templates.flatMap seqNames) hnil
    (fun e he => absurd he List.not_mem_nil)
  obtain ⟨names, hnames, hnodup⟩ := names_of_entries hord hentries
  refine ⟨names, hnodup, fun name => ?_, ?_⟩
  · have hiff := hmem name
    rw [hnames, List.mem_map_of_injective fun _ _ h => entry_injective (congrArg Prod.fst h)]
      at hiff
    exact hiff.trans ⟨fun h => h.resolve_left List.not_mem_nil, .inr⟩
  · rw [patterns, collected, hnames] at h
    exact hasOffset_of_mapM h

/-- The loops over the patterns end. -/
theorem substitute_some {names : List (List Char)} (hpats : List.Forall₂ HasOffset names pats)
    (sequence : Nat) (udpData : String) :
    substitute o sequence pats udpData = some (replaced o sequence pats udpData) := by
  induction hpats generalizing udpData with
  | nil => rfl
  | @cons name e names rest hone hrest ih =>
      obtain ⟨shift, -, rfl⟩ := hone
      have hloop : rescan udpData (String.ofList (pattern name)) (numeral o sequence shift)
          = some (searchReplaceAll udpData (String.ofList (pattern name))
            (numeral o sequence shift)) :=
        rescan_some udpData (numeral_plain o sequence shift)
      rw [substitute, replaced_cons, hloop]
      exact ih _

/-- **TURN**: a turn of the main loop comes to its end. -/
theorem turn_ok (h : patterns o = some pats) (s : Client) (pick : Nat) :
    turn o pats s pick = .ok (next o pats s pick) := by
  obtain ⟨names, -, -, hpats⟩ := names_of_patterns h
  rw [turn, next]
  by_cases hexited : s.exited = true
  · rw [if_pos hexited, if_pos hexited]
  · rw [if_neg hexited, if_neg hexited, substitute_some hpats]
    dsimp only
    split
    · rfl
    · rfl

/-- The loop over the patterns is one pass with their numbers. -/
theorem replaced_onePass {template : String} (hplain : Plain template) (sequence : Nat)
    {names : List (List Char)} (hpats : List.Forall₂ HasOffset names pats)
    (hnames : ∀ name ∈ names, ∀ c ∈ name, inName c = true) (hnodup : names.Nodup)
    (done : List String) (hfresh : ∀ name ∈ names, String.ofList name ∉ done) :
    replaced o sequence pats (onePass (restrict (numbers o sequence) done) template)
      = onePass (restrict (numbers o sequence) (done ++ names.map String.ofList)) template := by
  induction hpats generalizing done with
  | nil =>
      rw [List.map_nil, List.append_nil]
      rfl
  | @cons name e names rest hone hrest ih =>
      obtain ⟨shift, hshift, rfl⟩ := hone
      obtain ⟨hnot, hnodup'⟩ := List.nodup_cons.mp hnodup
      have hval : numbers o sequence name = some (numeral o sequence shift).toList := by
        rw [numbers, hshift]
        rfl
      have hnext := onePass_next hplain (numbers_plain o sequence)
        (hnames name List.mem_cons_self) (hfresh name List.mem_cons_self) hval
      rw [replaced_cons, hnext, ih (fun n hn => hnames n (List.mem_cons_of_mem _ hn)) hnodup' _
        (fresh_concat hnot hfresh), List.append_assoc]
      rfl

/-- What a turn makes of a template in which every `@` begins a variable. -/
theorem replaced_template (h : patterns o = some pats) {template : String}
    (hmem : template ∈ o.templates) (hplain : Plain template) (sequence : Nat) :
    replaced o sequence pats template = onePass (numbers o sequence) template := by
  obtain ⟨names, hnodup, hnames, hpats⟩ := names_of_patterns h
  have hbraces : ∀ name ∈ names, ∀ c ∈ name, inName c = true := by
    intro name hname
    obtain ⟨other, -, htoken⟩ := List.mem_flatMap.mp ((hnames name).mp hname)
    exact tokens_inName 0 other.toList name (List.mem_filter.mp htoken).1
  have hloop := replaced_onePass (o := o) hplain sequence hpats hbraces hnodup []
    (fun _ _ => List.not_mem_nil)
  rw [onePass_nothing, List.nil_append] at hloop
  rw [hloop]
  refine congrArg String.ofList (render_congr fun name hname => ?_)
  show (if String.ofList name ∈ names.map String.ofList then numbers o sequence name else none) = _
  by_cases hin : String.ofList name ∈ names.map String.ofList
  · rw [if_pos hin]
  · -- a variable of the template without a pattern is no number
    rw [if_neg hin]
    cases hnumber : numberStr name with
    | none => rw [numbers, offset, hnumber]; rfl
    | some text =>
        have htoken : name ∈ seqNames template :=
          List.mem_filter.mpr ⟨hname, by rw [hnumber]; rfl⟩
        have hthere := (hnames name).mpr (List.mem_flatMap.mpr ⟨template, hmem, htoken⟩)
        exact absurd (List.mem_map_of_mem hthere) hin

theorem template_mem (o : Options) (pick : Nat) : o.template pick ∈ o.templates := by
  have hpos : 0 < o.templates.length := List.length_pos_of_ne_nil o.templates_ne
  have hat : ∀ n < o.templates.length, o.templates[n]?.getD "" ∈ o.templates := by
    intro n hn
    rw [List.getElem?_eq_getElem hn]
    exact List.getElem_mem hn
  unfold Options.template
  split
  · exact hat _ (Nat.mod_lt _ hpos)
  · exact hat _ hpos

/-! ## Every run -/

/-- How far the client has come after some turns. -/
structure Progress (o : Options) (pats : List (String × Int)) (picks : List Nat) (s : Client) :
    Prop where
  sequence_eq : s.sequence = wrapU64 s.sent.length
  length_eq : s.sent.length
    = if s.exited then o.finalValue + 1 - o.initialValue else picks.length
  ended : s.exited = true → o.finalValue ≠ 18446744073709551615
    ∧ o.finalValue + 1 - o.initialValue < picks.length
  going : s.exited = false → o.finalValue = 18446744073709551615
    ∨ picks.length ≤ o.finalValue + 1 - o.initialValue
  texts : ∀ k pick, k < s.sent.length → picks[k]? = some pick →
    s.sent[k]? = some (replaced o (wrapU64 k) pats (o.template pick))

theorem progress_start (o : Options) (pats : List (String × Int)) : Progress o pats [] {} where
  sequence_eq := rfl
  length_eq := rfl
  ended h := by cases h
  going _ := .inr (Nat.zero_le _)
  texts k pick hk := absurd hk (Nat.not_lt_zero k)

/-- **STEP LEMMA**: one turn more. -/
theorem progress_next {picks : List Nat} {s : Client} (h : Progress o pats picks s) (pick : Nat) :
    Progress o pats (picks ++ [pick]) (next o pats s pick) := by
  have hlen : (picks ++ [pick]).length = picks.length + 1 := List.length_append
  have hinitial := o.initial_lt
  have hfinal := o.final_lt
  by_cases hexited : s.exited = true
  · have hended := h.ended hexited
    have hsent := h.length_eq
    rw [if_pos hexited] at hsent
    rw [next, if_pos hexited]
    refine ⟨h.sequence_eq, ?_, fun _ => ⟨hended.1, by omega⟩, ?_, ?_⟩
    · rw [if_pos hexited, hsent]
    · intro hgo
      rw [hexited] at hgo
      cases hgo
    · intro k p hk hp
      rw [List.getElem?_append_left (by omega)] at hp
      exact h.texts k p hk hp
  · have hgoing := h.going (Bool.eq_false_iff.mpr hexited)
    have hsent := h.length_eq
    rw [if_neg hexited] at hsent
    have hsequence : s.sequence = picks.length % 18446744073709551616 := by
      rw [h.sequence_eq, hsent]
      rfl
    rw [next, if_neg hexited]
    by_cases hout : o.finalValue < wrapU64 (o.initialValue + s.sequence)
    · -- past the end of the range
      rw [if_pos hout]
      rw [wrapU64, hsequence] at hout
      refine ⟨h.sequence_eq, ?_, fun _ => ⟨by omega, by omega⟩, ?_, ?_⟩
      · show s.sent.length = o.finalValue + 1 - o.initialValue
        omega
      · intro hgo
        cases hgo
      · intro k p hk hp
        have hk' : k < picks.length := hsent ▸ hk
        rw [List.getElem?_append_left hk'] at hp
        exact h.texts k p hk hp
    · rw [if_neg hout]
      rw [wrapU64, hsequence] at hout
      refine ⟨?_, ?_, fun hend => absurd hend hexited, fun _ => ?_, ?_⟩
      · show wrapU64 (s.sequence + 1) = wrapU64 (s.sent ++ [_]).length
        rw [List.length_append, hsent, hsequence]
        exact Nat.mod_add_mod _ _ _
      · show (s.sent ++ [_]).length = if s.exited then _ else _
        rw [if_neg hexited, hlen, List.length_append, hsent]
        rfl
      · rw [hlen]
        omega
      · intro k p hk hp
        show (s.sent ++ [replaced o s.sequence pats (o.template pick)])[k]? = _
        have hk' : k < s.sent.length + 1 := by
          have : k < (s.sent ++ [replaced o s.sequence pats (o.template pick)]).length := hk
          rwa [List.length_append] at this
        by_cases hlast : k < s.sent.length
        · rw [List.getElem?_append_left (hsent ▸ hlast)] at hp
          rw [List.getElem?_append_left hlast]
          exact h.texts k p hlast hp
        · obtain rfl : k = s.sent.length := by omega
          rw [hsent, List.getElem?_concat_length] at hp
          obtain rfl := Option.some.inj hp
          rw [List.getElem?_concat_length, hsequence, hsent]
          rfl

/-- What the client sends in some turns, by the templates taken. -/
structure Generated (o : Options) (picks : List Nat) (s : Client) : Prop where
  unlimited : o.finalValue = 18446744073709551615 →
    s.exited = false ∧ s.sent.length = picks.length
  limited : o.finalValue ≠ 18446744073709551615 →
    s.sent.length = min picks.length (o.finalValue + 1 - o.initialValue)
      ∧ (s.exited = true ↔ o.finalValue + 1 - o.initialValue < picks.length)
  texts : ∀ k pick, k < s.sent.length → picks[k]? = some pick → Plain (o.template pick) →
    s.sent[k]? = some (onePass (numbers o k) (o.template pick))

/-- The sequence counts modulo 2^64, and so do the numbers. -/
theorem numbers_wrap (o : Options) (k : Nat) : numbers o (wrapU64 k) = numbers o k := by
  have hsum : wrapU64 (o.initialValue + wrapU64 k) = wrapU64 (o.initialValue + k) :=
    Nat.add_mod_mod _ _ _
  funext name
  rw [numbers, numbers]
  simp only [numeral, hsum]

/-- **NUMBERED DATAGRAMS**: for every range and templates whose offsets can be read, however
    templates are chosen, every turn comes to its end; the client sends one datagram for each
    number of the range, in their order, and then exits, unless the range ends at the largest
    64-bit number: then it never does, and goes on from 0. -/
theorem datagrams_generated (h : patterns o = some pats) (picks : List Nat) :
    ∃ s, runUntil (turn o pats) {} picks = .ok s ∧ Generated o picks s := by
  have hprogress : Progress o pats picks (run (next o pats) {} picks) := by
    induction picks using List.reverseRecOn with
    | nil => exact progress_start o pats
    | append_singleton picks pick ih =>
        rw [run_append]
        exact progress_next ih pick
  refine ⟨_, runUntil_of_ok (turn_ok h) picks {}, ?_⟩
  generalize run (next o pats) {} picks = s at hprogress
  refine ⟨fun hmax => ?_, fun hlimit => ?_, fun k pick hk hpick hplain => ?_⟩
  · have hgo : s.exited = false :=
      Bool.eq_false_iff.mpr fun hend => (hprogress.ended hend).1 hmax
    have hsent := hprogress.length_eq
    rw [hgo, if_neg Bool.false_ne_true] at hsent
    exact ⟨hgo, hsent⟩
  · have hsent := hprogress.length_eq
    by_cases hend : s.exited = true
    · have hbeyond := (hprogress.ended hend).2
      rw [if_pos hend] at hsent
      exact ⟨by omega, iff_of_true hend hbeyond⟩
    · have hwithin := (hprogress.going (Bool.eq_false_iff.mpr hend)).resolve_left hlimit
      rw [if_neg hend] at hsent
      exact ⟨by omega, iff_of_false hend (by omega)⟩
  · rw [hprogress.texts k pick hk hpick, replaced_template h (template_mem o pick) hplain,
      numbers_wrap]

end Turns

/-- Two numbers, each with the one after it. -/
def pairOfNumbers : Options where
  initialValue := 7
  finalValue := 8
  templates := ["@\x7bseq\x7d|@\x7bseq+1\x7d"]
  initial_lt := by omega
  final_lt := by omega
  templates_ne := List.cons_ne_nil _ _

/-- Three turns send the two datagrams, and the client exits. -/
theorem pair_generated : ∃ s,
    runUntil (turn pairOfNumbers [("@\x7bseq+1\x7d", 1), ("@\x7bseq\x7d", 0)]) {} [0, 0, 0] = .ok s
      ∧ s.exited = true ∧ s.sent[1]? = some "8|9" := by
  have hpatterns : patterns pairOfNumbers
      = some [("@\x7bseq+1\x7d", 1), ("@\x7bseq\x7d", 0)] := by decide +kernel
  obtain ⟨s, hrun, hgenerated⟩ := datagrams_generated hpatterns [0, 0, 0]
  obtain ⟨hlength, hexited⟩ := hgenerated.limited (by decide)
  refine ⟨s, hrun, hexited.mpr (by decide), ?_⟩
  rw [hgenerated.texts 1 0 (by rw [hlength]; decide) rfl (by decide)]
  decide +kernel

end H2UdpClient
