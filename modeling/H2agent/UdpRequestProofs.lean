import Std.Data.String.ToNat
import H2agent.SubstitutionProofs

/-! # The request of a datagram

    `udp-server-h2client` makes one request of each datagram.  Its variables are the
    datagram and its last 8 characters, and, where the datagram has a `|`, the parts that
    the bars leave and the last 8 characters of each; the request has the values of the
    variables in the place of their patterns.

    * `listing` — the variables of a datagram by the parts it splits into;
    * `lookup_variablesOf` — the loops over the positions of the bars define these;
    * `request_filled` — one pass over each text of the request, when no text has an `@`
      that begins no variable and the datagram has none. -/

namespace H2Udp

open H2Convert H2Key H2Load H2Subst H2Transformation TextReplace

/-! ## The variables of a datagram -/

/-- `extractLastNChars`. -/
def extractLastNChars (input : List Char) (n : Nat) : List Char :=
  if input.length < n then input else input.drop (input.length - n)

/-- The value of a part: the whole of it, or its last 8 characters. -/
def partValue (last8 : Bool) (part : List Char) : String :=
  String.ofList (if last8 then extractLastNChars part 8 else part)

/-- `udp.<n>` and `udp8.<n>`. -/
def partName (last8 : Bool) (n : Nat) : String := (if last8 then "udp8." else "udp.") ++ Nat.repr n

/-- The loop over the bars of a datagram, and the latest part: `val` is what was read of
    the part `count`. -/
def addParts (last8 : Bool) :
    Nat → List Char → List Char → TextMap String → TextMap String
  | count, val, [], vars => vars.insert (partName last8 count) (partValue last8 val)
  | count, val, c :: cs, vars =>
      if c = '|' then
        addParts last8 (count + 1) [] cs
          (vars.insert (partName last8 count) (partValue last8 val))
      else addParts last8 count (val ++ [c]) cs vars

/-- The variables of `setRequest`. -/
def variablesOf (data : String) : TextMap String :=
  let whole := ((∅ : TextMap String).insert "udp" data).insert "udp8"
    (partValue true data.toList)
  if '|' ∈ data.toList then
    addParts true 1 [] data.toList (addParts false 1 [] data.toList whole)
  else whole

/-- The parts under their names, from a number on. -/
def partEntries (last8 : Bool) (parts : List (List Char)) (count : Nat) :
    List (String × String) :=
  parts.mapIdx fun k part => (partName last8 (count + k), partValue last8 part)

/-- The variables of a datagram: itself, its end, and the parts between its bars. -/
def listing (data : String) : List (String × String) :=
  [("udp", data), ("udp8", partValue true data.toList)]
    ++ if '|' ∈ data.toList then
        partEntries false (data.toList.splitOn '|') 1
          ++ partEntries true (data.toList.splitOn '|') 1
      else []

/-! ## The loops define the listed variables -/

/-- Entries inserted one after the other. -/
def insertAll (entries : List (String × String)) (vars : TextMap String) : TextMap String :=
  entries.foldl (fun acc e => acc.insert e.1 e.2) vars

theorem insertAll_append (entries more : List (String × String)) (vars : TextMap String) :
    insertAll (entries ++ more) vars = insertAll more (insertAll entries vars) :=
  List.foldl_append

/-- With names that differ, the order in which entries are inserted does not show. -/
theorem lookup_insertAll {entries : List (String × String)} (h : (entries.map Prod.fst).Nodup)
    (vars : TextMap String) (name : String) :
    (insertAll entries vars).lookup name = (entries.lookup name).or (vars.lookup name) := by
  induction entries generalizing vars with
  | nil => rfl
  | cons e rest ih =>
      obtain ⟨hfresh, hrest⟩ := List.nodup_cons.mp h
      show (insertAll rest (vars.insert e.1 e.2)).lookup name = _
      rw [ih hrest, List.lookup_cons]
      by_cases hname : name = e.1
      · subst hname
        have hnone : rest.lookup e.1 = none := by
          rw [List.lookup_eq_none_iff]
          intro d hd
          refine bne_iff_ne.mpr fun heq => hfresh ?_
          rw [heq]
          exact List.mem_map_of_mem hd
        rw [hnone, AList.lookup_insert, beq_self_eq_true]
        rfl
      · rw [AList.lookup_insert_ne hname, beq_eq_false_iff_ne.mpr hname]

/-- The loop inserts the parts that the bars leave. -/
theorem addParts_eq (last8 : Bool) (count : Nat) (val cs : List Char) (vars : TextMap String) :
    addParts last8 count val cs vars
      = insertAll (partEntries last8 (cs.splitOnPPrepend (· == '|') val.reverse) count) vars := by
  induction cs generalizing count val vars with
  | nil =>
      rw [addParts, List.splitOnPPrepend_nil, List.reverse_reverse]
      rfl
  | cons c cs ih =>
      rw [addParts]
      by_cases hc : c = '|'
      · have hsplit : (c :: cs).splitOnPPrepend (· == '|') val.reverse
            = val :: cs.splitOnP (· == '|') := by
          rw [List.splitOnPPrepend_cons_pos (p := fun x => x == '|') (beq_iff_eq.mpr hc),
            List.reverse_reverse]
        rw [if_pos hc, ih, hsplit]
        show insertAll _ _ = insertAll (partEntries _ _ _) _
        simp only [partEntries, List.mapIdx_cons, insertAll, List.foldl_cons, Nat.add_zero,
          List.reverse_nil, List.splitOnPPrepend_nil_right, Nat.add_assoc, Nat.add_comm 1]
      · have hsplit : (c :: cs).splitOnPPrepend (· == '|') val.reverse
            = cs.splitOnPPrepend (· == '|') (val ++ [c]).reverse := by
          rw [List.splitOnPPrepend_cons_neg (p := fun x => x == '|') (beq_eq_false_iff_ne.mpr hc),
            List.reverse_append]
          rfl
        rw [if_neg hc, ih, hsplit]

/-- The variables are the listed ones, inserted in the order of the list. -/
theorem variablesOf_eq (data : String) : variablesOf data = insertAll (listing data) ∅ := by
  unfold variablesOf listing
  by_cases hbar : '|' ∈ data.toList
  · simp only [if_pos hbar]
    rw [addParts_eq, addParts_eq, insertAll_append, insertAll_append]
    rfl
  · simp only [if_neg hbar]
    rfl

/-! ### No name twice -/

theorem partName_injective {last8 : Bool} {n m : Nat} (h : partName last8 n = partName last8 m) :
    n = m :=
  Nat.repr_injective (String.append_right_inj _ |>.mp h)

theorem partName_kinds (n m : Nat) : partName false n ≠ partName true m := by
  intro h
  have hlist := congrArg String.toList h
  rw [partName, partName, String.toList_append, String.toList_append] at hlist
  have hdot := congrArg (fun l : List Char => l[3]?) hlist
  simp at hdot

theorem partName_dot (last8 : Bool) (n : Nat) : '.' ∈ (partName last8 n).toList := by
  rw [partName, String.toList_append, List.mem_append]
  left
  cases last8 with
  | false => exact List.mem_append_right ['u', 'd', 'p'] (List.mem_singleton.mpr rfl)
  | true => exact List.mem_append_right ['u', 'd', 'p', '8'] (List.mem_singleton.mpr rfl)

theorem names_partEntries (last8 : Bool) (parts : List (List Char)) (count : Nat) :
    (partEntries last8 parts count).map Prod.fst
      = (List.range' count parts.length).map (partName last8) := by
  refine List.ext_getElem (by simp [partEntries]) fun k h1 h2 => ?_
  simp [partEntries]

/-- The names of parts are those of `udp.<n>` or of `udp8.<n>`. -/
theorem name_of_mem {last8 : Bool} {parts : List (List Char)} {count : Nat} {name : String}
    (h : name ∈ (partEntries last8 parts count).map Prod.fst) : ∃ n, name = partName last8 n := by
  rw [names_partEntries] at h
  obtain ⟨n, -, rfl⟩ := List.mem_map.mp h
  exact ⟨n, rfl⟩

theorem nodup_partEntries (last8 : Bool) (parts : List (List Char)) (count : Nat) :
    ((partEntries last8 parts count).map Prod.fst).Nodup := by
  rw [names_partEntries]
  exact List.Nodup.map (fun _ _ h => partName_injective h) List.nodup_range'

/-- The variables of a datagram have different names. -/
theorem nodup_listing (data : String) : ((listing data).map Prod.fst).Nodup := by
  unfold listing
  rw [List.map_append, List.nodup_append']
  refine ⟨show ["udp", "udp8"].Nodup by decide, ?_, ?_⟩
  · split
    · rw [List.map_append, List.nodup_append']
      refine ⟨nodup_partEntries _ _ _, nodup_partEntries _ _ _, ?_⟩
      intro name h h'
      obtain ⟨n, rfl⟩ := name_of_mem h
      obtain ⟨m, hm⟩ := name_of_mem h'
      exact partName_kinds n m hm
    · exact List.nodup_nil
  · -- the two first names have no dot
    intro name h h'
    have hdot : '.' ∈ name.toList := by
      split at h'
      · rw [List.map_append, List.mem_append] at h'
        rcases h' with h' | h'
        · obtain ⟨n, rfl⟩ := name_of_mem h'
          exact partName_dot false n
        · obtain ⟨n, rfl⟩ := name_of_mem h'
          exact partName_dot true n
      · cases h'
    rcases List.mem_cons.mp h with rfl | h
    · exact absurd hdot (show '.' ∉ "udp".toList by decide)
    · obtain rfl := List.mem_singleton.mp h
      exact absurd hdot (show '.' ∉ "udp8".toList by decide)

/-- **VARIABLES**: the loops define the listed variables and no others. -/
theorem lookup_variablesOf (data name : String) :
    (variablesOf data).lookup name = (listing data).lookup name := by
  rw [variablesOf_eq, lookup_insertAll (nodup_listing data), AList.lookup_empty, Option.or_none]

/-! ## The request -/

/-- The loop of `replaceVariables`. -/
def replaceEach (vars : TextMap String) : List (String × String) → String → String
  | [], str => str
  | (pattern, name) :: rest, str =>
      match vars.lookup name with
      | some value => replaceEach vars rest (searchReplaceAll str pattern value)
      | none => replaceEach vars rest str

section Turns

variable {vars : TextMap String} {name : String}

theorem replaceEach_some {value : String} (h : vars.lookup name = some value)
    (pattern : String) (rest : List (String × String)) (str : String) :
    replaceEach vars ((pattern, name) :: rest) str
      = replaceEach vars rest (searchReplaceAll str pattern value) := by
  rw [replaceEach, h]

theorem replaceEach_none (h : vars.lookup name = none) (pattern : String)
    (rest : List (String × String)) (str : String) :
    replaceEach vars ((pattern, name) :: rest) str = replaceEach vars rest str := by
  rw [replaceEach, h]

end Turns

/-- `replaceVariables`. -/
def replaceVariables (str : String) (patterns : List (String × String)) (vars : TextMap String) :
    String :=
  if patterns.isEmpty then str
  else if vars.entries.isEmpty then str
  else replaceEach vars patterns str

/-- What the command line gives for the requests; `headersAsString` is the headers as the
    client library writes them in one text. -/
structure Settings where
  method : String
  path : String
  body : String
  headers : List (String × String)
  headersAsString : String

structure Request where
  method : String
  path : String
  body : String
  headers : List (String × String)

/-- `getMethod`, `getPath`, `getBody` and `getHeaders` of a `Stream` made for a datagram. -/
def requestOf (o : Settings) (data : String) : Request :=
  let vars := variablesOf data
  { method := replaceVariables o.method (collectVariablePatterns o.method) vars
    path := replaceVariables o.path (collectVariablePatterns o.path) vars
    body := replaceVariables o.body (collectVariablePatterns o.body) vars
    headers := o.headers.map fun h =>
      (h.1, replaceVariables h.2 (collectVariablePatterns o.headersAsString) vars) }

/-! ## One pass -/

/-- The values of the variables of a map. -/
def mapped (vars : TextMap String) : Values := fun name =>
  (vars.lookup (String.ofList name)).map String.toList

/-- The values of the variables of a datagram. -/
def listed (data : String) : Values := fun name =>
  ((listing data).lookup (String.ofList name)).map String.toList

/-- What a segment has of the template besides the pattern of a variable. -/
def Segment.inner : Segment → List Char
  | .char c => [c]
  | .token name => name

/-- Every `@` of a template begins one of its variables. -/
def Plain (template : String) : Prop := ∀ seg ∈ parse template, '@' ∉ Segment.inner seg

instance (template : String) : Decidable (Plain template) :=
  inferInstanceAs (Decidable (∀ seg ∈ parse template, '@' ∉ Segment.inner seg))

/-- A text without `@` in front adds no occurrence of a pattern. -/
theorem onlyMarked_unmarked {name cs : List Char} (h : '@' ∉ cs) {m : List (Char × Bool)}
    (hm : OnlyMarked (pattern name) m) : OnlyMarked (pattern name) (unmarked cs ++ m) := by
  induction cs with
  | nil => exact hm
  | cons c cs ih =>
      rw [List.mem_cons, not_or] at h
      refine ⟨fun hpre => ?_, ih h.2⟩
      exact absurd (List.cons_prefix_cons.mp hpre).1 h.1

theorem bracesFree_prefix {name other rest : List Char} (hname : ∀ c ∈ name, inName c = true)
    (hother : ∀ c ∈ other, inName c = true)
    (h : name ++ ['\x7d'] <+: other ++ '\x7d' :: rest) : name = other := by
  induction name generalizing other with
  | nil =>
      cases other with
      | nil => rfl
      | cons c other =>
          have hc := (List.cons_prefix_cons.mp h).1
          have := hother c List.mem_cons_self
          rw [← hc] at this
          exact absurd this (by decide)
  | cons c name ih =>
      cases other with
      | nil =>
          have hc := (List.cons_prefix_cons.mp h).1
          have := hname c List.mem_cons_self
          rw [hc] at this
          exact absurd this (by decide)
      | cons d other =>
          obtain ⟨rfl, hrest⟩ := List.cons_prefix_cons.mp h
          rw [ih (fun x hx => hname x (List.mem_cons_of_mem _ hx))
            (fun x hx => hother x (List.mem_cons_of_mem _ hx)) hrest]

/-- **THE PATTERNS STAY WHERE THE TEMPLATE HAS THEM**: an occurrence of a pattern begins with
    an `@`, and those left are the template's. -/
theorem onlyMarked_markedText {σ : Values} {name : List Char} {segs : List Segment}
    (hname : ∀ c ∈ name, inName c = true)
    (hsegs : ∀ other ∈ tokens segs, ∀ c ∈ other, inName c = true)
    (hplain : ∀ seg ∈ segs, '@' ∉ Segment.inner seg)
    (hσ : ∀ other value, σ other = some value → '@' ∉ value) :
    OnlyMarked (pattern name) (markedText σ name segs) := by
  induction segs with
  | nil => exact True.intro
  | cons seg segs ih =>
      have hfirst := hplain seg List.mem_cons_self
      have hrest := fun seg' h => hplain seg' (List.mem_cons_of_mem _ h)
      show OnlyMarked _ (seg.marked σ name ++ markedText σ name segs)
      cases seg with
      | char c =>
          show OnlyMarked _ (unmarked [c] ++ markedText σ name segs)
          exact onlyMarked_unmarked hfirst (ih hsegs hrest)
      | token other =>
          have hm := ih (fun o ho => hsegs o (List.mem_cons_of_mem _ ho)) hrest
          have hinside : '@' ∉ '\x7b' :: other ++ ['\x7d'] := by
            rw [List.cons_append, List.mem_cons, List.mem_append, List.mem_singleton]
            rintro (h | h | h)
            · exact absurd h (by decide)
            · exact hfirst h
            · exact absurd h (by decide)
          simp only [Segment.marked]
          cases hv : σ other with
          | some value => exact onlyMarked_unmarked (hσ other value hv) hm
          | none =>
              by_cases ho : other = name
              · rw [if_pos ho]
                exact ⟨fun _ => rfl, onlyMarked_unmarked (ho ▸ hinside) hm⟩
              · rw [if_neg ho]
                refine ⟨fun hpre => ?_, onlyMarked_unmarked hinside hm⟩
                -- the pattern of another variable is not this one
                have htext :
                    chars (unmarked ('\x7b' :: other ++ ['\x7d']) ++ markedText σ name segs)
                      = '\x7b' :: (other ++ '\x7d' :: chars (markedText σ name segs)) := by
                  rw [chars_append, chars_unmarked]
                  simp
                have hafter : '\x7b' :: (name ++ ['\x7d']) <+:
                    chars (unmarked ('\x7b' :: other ++ ['\x7d']) ++ markedText σ name segs) :=
                  (List.cons_prefix_cons.mp hpre).2
                rw [htext] at hafter
                have hnames := (List.cons_prefix_cons.mp hafter).2
                have heq := bracesFree_prefix hname (hsegs other List.mem_cons_self) hnames
                exact absurd heq.symm ho

/-- The values of a restriction are values. -/
theorem restrict_free {σ : Values} (hσ : ∀ other value, σ other = some value → '@' ∉ value)
    (names : List String) :
    ∀ other value, restrict σ names other = some value → '@' ∉ value := by
  intro other value h
  unfold restrict at h
  split at h
  · exact hσ other value h
  · cases h

/-- The names that are left differ from one more. -/
theorem fresh_concat {name : List Char} {names : List (List Char)} {done : List String}
    (hnot : name ∉ names) (hfresh : ∀ n ∈ name :: names, String.ofList n ∉ done) :
    ∀ n ∈ names, String.ofList n ∉ done ++ [String.ofList name] := by
  intro n hn
  rw [List.mem_append, List.mem_singleton, not_or]
  refine ⟨hfresh n (List.mem_cons_of_mem _ hn), fun heq => hnot ?_⟩
  exact String.ofList_injective heq ▸ hn

/-- Nothing replaced leaves the template. -/
theorem onePass_nothing (σ : Values) (template : String) :
    onePass (restrict σ []) template = template := by
  show String.ofList (render (fun _ => none) (segments 0 template.toList)) = template
  rw [render_segments]
  simp

section Stages

variable {σ : Values} {template : String} {done : List String} {name : List Char}

/-- **STEP LEMMA**: replacing the pattern of one more variable is the pass with one more
    value. -/
theorem onePass_next (hplain : Plain template)
    (hσ : ∀ other value, σ other = some value → '@' ∉ value)
    (hname : ∀ c ∈ name, inName c = true) (hfresh : String.ofList name ∉ done) {value : String}
    (hval : σ name = some value.toList) :
    searchReplaceAll (onePass (restrict σ done) template) (String.ofList (pattern name)) value
      = onePass (restrict σ (done ++ [String.ofList name])) template := by
  have hnone : restrict σ done name = none := if_neg hfresh
  have honly : OnlyMarked (pattern name) (markedText (restrict σ done) name (parse template)) :=
    onlyMarked_markedText hname (tokens_inName 0 template.toList) hplain (restrict_free hσ done)
  rw [restrict_concat, hval, onePass]
  exact (stage_iff hname hnone value (parse template)).mpr (.inr honly)

/-- A variable without a value is left alone. -/
theorem onePass_skip (hval : σ name = none) :
    onePass (restrict σ (done ++ [String.ofList name])) template
      = onePass (restrict σ done) template := by
  refine congrArg String.ofList (render_congr fun other _ => ?_)
  rw [restrict_concat]
  show (if other = name then σ name else restrict σ done other) = restrict σ done other
  by_cases ho : other = name
  · rw [if_pos ho, ho, hval, restrict, hval]
    exact (ite_self _).symm
  · rw [if_neg ho]

end Stages

/-- **RUN LEMMA**: the loop over some variables is one pass with their values. -/
theorem replaceEach_onePass {vars : TextMap String} {template : String} (hplain : Plain template)
    (hvars : ∀ other value, mapped vars other = some value → '@' ∉ value)
    {names : List (List Char)} (hnames : ∀ name ∈ names, ∀ c ∈ name, inName c = true)
    (hnodup : names.Nodup) (done : List String)
    (hfresh : ∀ name ∈ names, String.ofList name ∉ done) :
    replaceEach vars (names.map entry) (onePass (restrict (mapped vars) done) template)
      = onePass (restrict (mapped vars) (done ++ names.map String.ofList)) template := by
  induction names generalizing done with
  | nil => rw [List.map_nil, List.map_nil, List.append_nil]; rfl
  | cons name names ih =>
      obtain ⟨hnot, hnodup'⟩ := List.nodup_cons.mp hnodup
      have hname := hnames name List.mem_cons_self
      have hfresh' := hfresh name List.mem_cons_self
      have hnext := ih (fun n hn => hnames n (List.mem_cons_of_mem _ hn)) hnodup'
        (done ++ [String.ofList name]) (fresh_concat hnot hfresh)
      rw [List.append_assoc] at hnext
      rw [List.map_cons]
      cases hv : vars.lookup (String.ofList name) with
      | some value =>
          have hval : mapped vars name = some value.toList := by rw [mapped, hv]; rfl
          rw [entry, replaceEach_some hv, onePass_next hplain hvars hname hfresh' hval]
          exact hnext
      | none =>
          have hval : mapped vars name = none := by rw [mapped, hv]; rfl
          rw [onePass_skip hval] at hnext
          rw [entry, replaceEach_none hv]
          exact hnext

/-! ## The parts have what the datagram has -/

theorem mem_part {p : Char → Bool} {cs acc part : List Char}
    (h : part ∈ cs.splitOnPPrepend p acc) {x : Char} (hx : x ∈ part) : x ∈ cs ∨ x ∈ acc := by
  induction cs generalizing acc with
  | nil =>
      rw [List.splitOnPPrepend_nil, List.mem_singleton] at h
      rw [h] at hx
      exact .inr (List.mem_reverse.mp hx)
  | cons c cs ih =>
      by_cases hc : p c = true
      · rw [List.splitOnPPrepend_cons_pos hc, List.mem_cons] at h
        rcases h with rfl | h
        · exact .inr (List.mem_reverse.mp hx)
        · have hrest : x ∈ cs ∨ x ∈ [] := ih h
          exact .inl (List.mem_cons_of_mem _ (hrest.resolve_right List.not_mem_nil))
      · rw [List.splitOnPPrepend_cons_neg (Bool.not_eq_true _ ▸ hc)] at h
        rcases ih h with hx | hx
        · exact .inl (List.mem_cons_of_mem _ hx)
        · rcases List.mem_cons.mp hx with rfl | hx
          · exact .inl List.mem_cons_self
          · exact .inr hx

theorem mem_partValue {last8 : Bool} {part : List Char} {x : Char}
    (h : x ∈ (partValue last8 part).toList) : x ∈ part := by
  rw [partValue, String.toList_ofList] at h
  cases last8 with
  | false => exact h
  | true =>
      simp only [if_true, extractLastNChars] at h
      split at h
      · exact h
      · exact List.mem_of_mem_drop h

theorem mem_partEntries {last8 : Bool} {data : List Char} {count : Nat} {e : String × String}
    (he : e ∈ partEntries last8 (data.splitOn '|') count) {x : Char} (hx : x ∈ e.2.toList) :
    x ∈ data := by
  rw [partEntries, List.mem_mapIdx] at he
  obtain ⟨k, hk, rfl⟩ := he
  have hpart : (data.splitOn '|')[k] ∈ data.splitOnPPrepend (· == '|') [] := List.getElem_mem hk
  exact (mem_part hpart (mem_partValue hx)).resolve_right List.not_mem_nil

/-- The values of the variables have no characters that the datagram has not. -/
theorem mem_listed {data : String} {name value : List Char} (h : listed data name = some value)
    {x : Char} (hx : x ∈ value) : x ∈ data.toList := by
  obtain ⟨text, htext, rfl⟩ := Option.map_eq_some_iff.mp h
  have hmem : (String.ofList name, text) ∈ listing data := by
    obtain ⟨before, after, heq, -⟩ := List.lookup_eq_some_iff.mp htext
    rw [heq]
    exact List.mem_append_right _ List.mem_cons_self
  rw [listing, List.mem_append, List.mem_cons, List.mem_singleton] at hmem
  rcases hmem with (heq | heq) | hmem
  · obtain ⟨-, rfl⟩ := Prod.mk.inj heq
    exact hx
  · obtain ⟨-, rfl⟩ := Prod.mk.inj heq
    exact mem_partValue hx
  · split at hmem
    · rcases List.mem_append.mp hmem with hmem | hmem
      · exact mem_partEntries hmem hx
      · exact mem_partEntries hmem hx
    · cases hmem

/-! ## The texts of the request -/

theorem mapped_variablesOf (data : String) : mapped (variablesOf data) = listed data := by
  funext name
  rw [mapped, lookup_variablesOf]
  rfl

/-- There is always a variable, the datagram itself. -/
theorem variablesOf_some (data : String) : (variablesOf data).entries.isEmpty = false := by
  have hudp : (variablesOf data).lookup "udp" = some data := lookup_variablesOf data "udp"
  cases hentries : (variablesOf data).entries with
  | nil =>
      rw [AList.lookup, hentries] at hudp
      cases hudp
  | cons e rest => rfl

/-- Collected patterns are those of some names, none twice. -/
theorem names_of_entries {entries : List (String × String)} (hord : KeyOrdered entries)
    (hentries : ∀ e ∈ entries, ∃ name, e = entry name) :
    ∃ names : List (List Char), entries = names.map entry ∧ names.Nodup := by
  have hnames : entries = (entries.map fun e => e.2.toList).map entry := by
    rw [List.map_map]
    refine (List.map_id _).symm.trans (List.map_congr_left fun e he => ?_)
    obtain ⟨name, rfl⟩ := hentries e he
    simp [entry]
  refine ⟨_, hnames, ?_⟩
  rw [hnames] at hord
  refine (List.pairwise_map.mp hord).imp fun h heq => ?_
  exact absurd h (by rw [heq]; exact lt_irrefl _)

/-- The loop over the patterns of a text that has all the variables of a template is one
    pass over the template. -/
theorem replaceVariables_onePass {data template all : String} (hplain : Plain template)
    (hdata : '@' ∉ data.toList)
    (hall : ∀ name ∈ tokens (parse template), name ∈ tokens (parse all)) :
    replaceVariables template (collectVariablePatterns all) (variablesOf data)
      = onePass (listed data) template := by
  obtain ⟨hord, hmem, hentries⟩ := collect_spec all
  obtain ⟨names, hnames, hnodup⟩ := names_of_entries hord hentries
  have htokens : ∀ name, name ∈ names ↔ name ∈ tokens (parse all) := by
    intro name
    rw [← hmem, hnames]
    exact (List.mem_map_of_injective fun _ _ h => entry_injective (congrArg Prod.fst h)).symm
  have hfree : ∀ other value, mapped (variablesOf data) other = some value → '@' ∉ value := by
    intro other value h hat
    rw [mapped_variablesOf] at h
    exact hdata (mem_listed h hat)
  have hloop := replaceEach_onePass hplain hfree
    (fun name hname => tokens_inName 0 all.toList name ((htokens name).mp hname)) hnodup []
    (fun _ _ => List.not_mem_nil)
  rw [onePass_nothing, ← hnames, List.nil_append, mapped_variablesOf] at hloop
  have hfull : onePass (restrict (listed data) (names.map String.ofList)) template
      = onePass (listed data) template := by
    refine congrArg String.ofList (render_congr fun name hname => if_pos ?_)
    exact List.mem_map_of_mem ((htokens name).mpr (hall name hname))
  rw [hfull] at hloop
  rw [replaceVariables, variablesOf_some, if_neg Bool.false_ne_true]
  by_cases hp : (collectVariablePatterns all).isEmpty = true
  · rw [if_pos hp]
    rw [List.isEmpty_iff.mp hp] at hloop
    exact hloop
  · rw [if_neg hp]
    exact hloop

/-- Each text of the request is one pass over the text it is made of. -/
structure Filled (o : Settings) (data : String) : Prop where
  method : (requestOf o data).method = onePass (listed data) o.method
  path : (requestOf o data).path = onePass (listed data) o.path
  body : (requestOf o data).body = onePass (listed data) o.body
  headers : (requestOf o data).headers
    = o.headers.map fun h => (h.1, onePass (listed data) h.2)

/-- **THE REQUEST OF A DATAGRAM**: with texts in which every `@` begins a variable, a
    datagram without `@` makes the request that has, in the place of each variable, the
    datagram, its part between two bars, or the end of one of them, and nothing that was
    put in is replaced again. -/
theorem request_filled (o : Settings) (data : String)
    (hplain : ∀ text ∈ o.method :: o.path :: o.body :: o.headers.map Prod.snd, Plain text)
    (hheaders : ∀ h ∈ o.headers, ∀ name ∈ tokens (parse h.2),
      name ∈ tokens (parse o.headersAsString))
    (hdata : '@' ∉ data.toList) : Filled o data where
  method := replaceVariables_onePass (hplain _ (by simp)) hdata fun _ h => h
  path := replaceVariables_onePass (hplain _ (by simp)) hdata fun _ h => h
  body := replaceVariables_onePass (hplain _ (by simp)) hdata fun _ h => h
  headers := by
    refine List.map_congr_left fun h hh => ?_
    have hp : Plain h.2 := hplain _ (by simp only [List.mem_cons, List.mem_map]; tauto)
    exact congrArg (Prod.mk h.1) (replaceVariables_onePass hp hdata (hheaders h hh))

/-- A request for the second of two parts. -/
theorem second_part_asked :
    (requestOf ⟨"GET", "book/@\x7budp.2\x7d", "", [("x-id", "@\x7budp8\x7d")],
        "[x-id: @\x7budp8\x7d]"⟩ "a|b").path = "book/b" := by
  refine (request_filled _ "a|b" ?_ ?_ ?_).path.trans ?_
  · decide
  · decide
  · decide
  · decide

end H2Udp
