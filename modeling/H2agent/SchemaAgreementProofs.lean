import H2agent.TargetGrammarProofs

/-! # Transformation items — what the schemas accept and what `load` takes

    The schemas of provisions and `Transformation::load` describe the same items.
    `load_iff` puts the parts of an item together: on items whose texts the
    patterns accept, at any depth of `onFilterFail`, `load` succeeds exactly when
    the source, the target and the filter of each of them are clean.  An item that
    does not load is left out of the list without a word, or an exception ends the
    load of the whole provision; the lists agree exactly when all items are clean. -/

namespace H2Agreement

open FallbackList H2Convert H2Grammar H2Load H2Transformation JsonValue Regex

/-! ## Reading filters -/

/-- The reader `get` gives a value exactly on the documents of a kind. -/
def Reads {α : Type} (get : Json → Except Fault α) (P : Json → Prop) : Prop :=
  ∀ v, (∃ a, get v = .ok a) ↔ P v

def IsString (v : Json) : Prop := ∃ s, v = .str s

def IsBoolean (v : Json) : Prop := ∃ b, v = .bool b

def IsNumber (v : Json) : Prop := (∃ i, v = .int i) ∨ (∃ u, v = .uint u) ∨ ∃ f, v = .float f

/-- A text that is a regular expression. -/
def IsRegex (compiles : String → Bool) (v : Json) : Prop := ∃ s, v = .str s ∧ compiles s = true

/-- A member is there and is of a kind. -/
def Member (key : String) (P : Json → Prop) (v : Json) : Prop := ∃ w, find key v = some w ∧ P w

/-- A member that is there is of a kind. -/
def Optional (key : String) (P : Json → Prop) (v : Json) : Prop := ∀ w, find key v = some w → P w

/-- What the value of each filter must be, in the order the keys are looked up. -/
def filterKinds (compiles : String → Bool) : List (String × (Json → Prop)) :=
  [("RegexCapture", IsRegex compiles),
   ("RegexReplace", fun v => Member "rgx" (IsRegex compiles) v ∧ Member "fmt" IsString v),
   ("Append", IsString),
   ("Prepend", IsString),
   ("Sum", fun _ => True),
   ("Multiply", fun _ => True),
   ("ConditionVar", IsString),
   ("EqualTo", IsString),
   ("DifferentFrom", IsString),
   ("JsonConstraint", fun _ => True),
   ("SchemaId", IsString),
   ("Split", fun v => Optional "size" IsNumber v ∧ Optional "count" IsNumber v
     ∧ Optional "sep" IsString v ∧ Optional "filler" IsString v ∧ Optional "numeric" IsBoolean v),
   ("BaseConvert", fun v => Member "in" IsNumber v ∧ Member "out" IsNumber v
     ∧ Optional "capital" IsBoolean v),
   ("Strptime", fun v => Member "fmt" IsString v ∧ Optional "unit" IsString v),
   ("Strftime", fun v => Member "fmt" IsString v ∧ Optional "unit" IsString v),
   ("RegexKey", IsRegex compiles)]

/-- The value of the first key that is there is of its kind. -/
def FirstOfKind (j : Json) : List (String × (Json → Prop)) → Prop
  | [] => True
  | (key, P) :: rest =>
      match find key j with
      | some v => P v
      | none => FirstOfKind j rest

/-- The filters that `load` takes. -/
def FilterClean (compiles : String → Bool) (j : Json) : Prop :=
  FirstOfKind j (filterKinds compiles)

section Readers

variable {lib : Lib} {compiles : String → Bool} {α β : Type}

theorem getString_reads : Reads getString IsString := by
  intro v
  cases v with
  | str s => exact ⟨fun _ => ⟨s, rfl⟩, fun _ => ⟨s, rfl⟩⟩
  | _ =>
      constructor
      · rintro ⟨_, h⟩
        cases h
      · rintro ⟨_, h⟩
        cases h

theorem getBool_reads : Reads getBool IsBoolean := by
  intro v
  cases v with
  | bool b => exact ⟨fun _ => ⟨b, rfl⟩, fun _ => ⟨b, rfl⟩⟩
  | _ =>
      constructor
      · rintro ⟨_, h⟩
        cases h
      · rintro ⟨_, h⟩
        cases h

theorem getInt64_reads : Reads (getInt64 lib) IsNumber := by
  intro v
  cases v with
  | int i => exact ⟨fun _ => .inl ⟨i, rfl⟩, fun _ => ⟨_, rfl⟩⟩
  | uint u => exact ⟨fun _ => .inr (.inl ⟨u, rfl⟩), fun _ => ⟨_, rfl⟩⟩
  | float f => exact ⟨fun _ => .inr (.inr ⟨f, rfl⟩), fun _ => ⟨_, rfl⟩⟩
  | _ =>
      constructor
      · rintro ⟨_, h⟩
        cases h
      · rintro (⟨_, h⟩ | ⟨_, h⟩ | ⟨_, h⟩) <;> cases h

theorem getUInt64_reads : Reads (getUInt64 lib) IsNumber := by
  intro v
  cases v with
  | int i => exact ⟨fun _ => .inl ⟨i, rfl⟩, fun _ => ⟨_, rfl⟩⟩
  | uint u => exact ⟨fun _ => .inr (.inl ⟨u, rfl⟩), fun _ => ⟨_, rfl⟩⟩
  | float f => exact ⟨fun _ => .inr (.inr ⟨f, rfl⟩), fun _ => ⟨_, rfl⟩⟩
  | _ =>
      constructor
      · rintro ⟨_, h⟩
        cases h
      · rintro (⟨_, h⟩ | ⟨_, h⟩ | ⟨_, h⟩) <;> cases h

theorem getOr_reads {get : Json → Except Fault α} {P : Json → Prop} (h : Reads get P)
    (key : String) (default : α) : Reads (getOr get key default) (Optional key P) := by
  intro v
  unfold getOr Optional
  cases hf : find key v with
  | none => simp
  | some w => simpa using h w

theorem deref_reads {get : Json → Except Fault α} {P : Json → Prop} (h : Reads get P)
    (key : String) : Reads (fun v => (deref key v).bind get) (Member key P) := by
  intro v
  cases hf : find key v with
  | none =>
      have hd : deref key v = .error .undefined := by rw [deref, hf]
      simp [hd, hf, Member, Except.bind]
  | some w =>
      have hd : deref key v = .ok w := by rw [deref, hf]
      simpa [hd, hf, Member, Except.bind] using h w

/-- A computation and a continuation that answers or not whatever it is given. -/
theorem bind_answers {x : Except Fault α} {f : α → Except Fault (Option β)} {Q : Prop}
    (h : ∀ a, (∃ b, f a = .ok (some b)) ↔ Q) :
    (∃ b, x >>= f = .ok (some b)) ↔ (∃ a, x = .ok a) ∧ Q := by
  constructor
  · rintro ⟨b, hb⟩
    obtain ⟨a, ha, hb⟩ := bind_ok hb
    exact ⟨⟨a, ha⟩, (h a).mp ⟨b, hb⟩⟩
  · rintro ⟨⟨a, rfl⟩, hq⟩
    exact (h a).mpr hq

/-- A filter that is always made. -/
theorem made_answers {p : α} :
    (∃ b, (pure (some p) : Except Fault (Option α)) = .ok (some b)) ↔ True :=
  ⟨fun _ => trivial, fun _ => ⟨p, rfl⟩⟩

theorem loadText_iff {filterType : FilterType} {collect : Bool} (v : Json) :
    (∃ p, loadText filterType collect v = .ok (some p)) ↔ IsString v := by
  refine (bind_answers (fun _ => made_answers)).trans ?_
  rw [and_true]
  exact getString_reads v

theorem loadRegex_iff {filterType : FilterType} (v : Json) :
    (∃ p, loadRegex compiles filterType v = .ok (some p)) ↔ IsRegex compiles v := by
  constructor
  · rintro ⟨p, h⟩
    obtain ⟨s, hs, h⟩ := bind_ok h
    obtain ⟨s', rfl⟩ := (getString_reads v).mp ⟨s, hs⟩
    obtain rfl := Except.ok.inj hs
    refine ⟨s', rfl, ?_⟩
    by_contra hc
    rw [if_neg hc] at h
    cases h
  · rintro ⟨s, rfl, hc⟩
    refine ⟨{ filterType, filter := s, filterRegex := s }, ?_⟩
    change (Except.ok (if compiles s = true then some _ else none) : Except Fault _) = _
    rw [if_pos hc]

theorem loadRegexReplace_iff (v : Json) :
    (∃ p, loadRegexReplace compiles v = .ok (some p))
      ↔ Member "rgx" (IsRegex compiles) v ∧ Member "fmt" IsString v := by
  constructor
  · rintro ⟨p, h⟩
    obtain ⟨rgx, hrgx, h⟩ := bind_ok h
    -- the format is only read when the expression compiles
    by_cases hc : compiles rgx = true
    · rw [if_pos hc] at h
      obtain ⟨fmt, hfmt, _⟩ := bind_ok h
      exact ⟨⟨_, deref_getString hrgx, rgx, rfl, hc⟩,
        (deref_reads getString_reads "fmt" v).mp ⟨fmt, hfmt⟩⟩
    · rw [if_neg hc] at h
      cases h
  · rintro ⟨⟨w, hw, s, rfl, hc⟩, hfmt⟩
    obtain ⟨fmt, hfmt⟩ := (deref_reads getString_reads "fmt" v).mpr hfmt
    have hd : deref "rgx" v = .ok (.str s) := by rw [deref, hw]
    refine ⟨{ filterType := .RegexReplace, filter := fmt, filterRegex := s }, ?_⟩
    unfold loadRegexReplace
    rw [hd]
    change (if compiles s = true then _ else _) = _
    rw [if_pos hc]
    dsimp only at hfmt
    rw [hfmt]
    rfl

theorem loadSplit_iff (v : Json) :
    (∃ p, loadSplit lib v = .ok (some p))
      ↔ Optional "size" IsNumber v ∧ Optional "count" IsNumber v ∧ Optional "sep" IsString v
        ∧ Optional "filler" IsString v ∧ Optional "numeric" IsBoolean v := by
  refine (bind_answers (fun _ => bind_answers (fun _ => bind_answers (fun _ =>
    bind_answers (fun _ => bind_answers (fun _ => made_answers)))))).trans ?_
  rw [and_true]
  exact and_congr (getOr_reads getInt64_reads "size" 2 v)
    (and_congr (getOr_reads getUInt64_reads "count" 4 v)
      (and_congr (getOr_reads getString_reads "sep" "." v)
        (and_congr (getOr_reads getString_reads "filler" "0" v)
          (getOr_reads getBool_reads "numeric" false v))))

theorem loadBaseConvert_iff (v : Json) :
    (∃ p, loadBaseConvert lib v = .ok (some p))
      ↔ Member "in" IsNumber v ∧ Member "out" IsNumber v ∧ Optional "capital" IsBoolean v := by
  refine (bind_answers (fun _ => bind_answers (fun _ => bind_answers (fun _ =>
    made_answers)))).trans ?_
  rw [and_true]
  exact and_congr (deref_reads getInt64_reads "in" v)
    (and_congr (deref_reads getUInt64_reads "out" v) (getOr_reads getBool_reads "capital" false v))

theorem loadTime_iff {filterType : FilterType} (v : Json) :
    (∃ p, loadTime filterType v = .ok (some p))
      ↔ Member "fmt" IsString v ∧ Optional "unit" IsString v := by
  refine (bind_answers (fun _ => bind_answers (fun _ => made_answers))).trans ?_
  rw [and_true]
  exact and_congr (deref_reads getString_reads "fmt" v) (getOr_reads getString_reads "unit" "s" v)

/-- Each loader answers on the values of its kind. -/
theorem loaders_kinds (lib : Lib) (compiles : String → Bool) :
    List.Forall₂ (fun loader kind => loader.1 = kind.1
        ∧ ∀ v, (∃ p, loader.2 v = .ok (some p)) ↔ kind.2 v)
      (filterLoaders lib compiles) (filterKinds compiles) := by
  have halways : ∀ (make : Json → FilterPart) v,
      (∃ p, (Except.ok (some (make v)) : Except Fault _) = .ok (some p)) ↔ True :=
    fun make v => ⟨fun _ => trivial, fun _ => ⟨make v, rfl⟩⟩
  refine .cons ⟨rfl, loadRegex_iff⟩ (.cons ⟨rfl, loadRegexReplace_iff⟩ ?_)
  refine .cons ⟨rfl, loadText_iff⟩ (.cons ⟨rfl, loadText_iff⟩ ?_)
  refine .cons ⟨rfl, halways _⟩ (.cons ⟨rfl, halways _⟩ ?_)
  refine .cons ⟨rfl, loadText_iff⟩ (.cons ⟨rfl, loadText_iff⟩ (.cons ⟨rfl, loadText_iff⟩ ?_))
  refine .cons ⟨rfl, halways _⟩ (.cons ⟨rfl, loadText_iff⟩ ?_)
  refine .cons ⟨rfl, loadSplit_iff⟩ (.cons ⟨rfl, loadBaseConvert_iff⟩ ?_)
  refine .cons ⟨rfl, loadTime_iff⟩ (.cons ⟨rfl, loadTime_iff⟩ ?_)
  exact .cons ⟨rfl, loadRegex_iff⟩ .nil

/-- **FILTERS TAKEN**: `load` takes the filters whose value is of the kind of its
    key. -/
theorem loadFilter_iff (lib : Lib) (compiles : String → Bool) (j : Json) :
    (∃ p, loadFilter lib compiles j = .ok (some p)) ↔ FilterClean compiles j := by
  have hfirst : ∀ {loaders kinds}, List.Forall₂ (fun loader kind => loader.1 = kind.1
        ∧ ∀ v, (∃ p, loader.2 v = .ok (some p)) ↔ kind.2 v) loaders kinds →
      ((∃ p, firstFilter j loaders = .ok (some p)) ↔ FirstOfKind j kinds) := by
    intro loaders kinds h
    induction h with
    | nil => exact ⟨fun _ => trivial, fun _ => ⟨_, rfl⟩⟩
    | @cons loader kind loaders kinds hhead _ ih =>
        obtain ⟨key, get⟩ := loader
        obtain ⟨key', P⟩ := kind
        obtain ⟨rfl, hiff⟩ := hhead
        rw [firstFilter, FirstOfKind]
        cases find key j with
        | none => exact ih
        | some v => exact hiff v
  unfold loadFilter
  split
  · exact ⟨fun _ => trivial, fun _ => ⟨_, rfl⟩⟩
  · exact hfirst (loaders_kinds lib compiles)

end Readers

/-! ## Items -/

/-- The patterns of a list accept the source and the target of an item. -/
def acceptsItem (l : ItemList) (j : Json) : Bool :=
  match find "source" j, find "target" j with
  | some (.str source), some (.str target) =>
      accepts l.sources source && accepts l.targets target
  | _, _ => false

/-- An item, or one of a list of `onFilterFail` at any depth below it. -/
inductive ItemOf : Json → Json → Prop
  | self (j : Json) : ItemOf j j
  | fallback {j k m : Json} {l : List Json} (hl : find "onFilterFail" j = some (.arr l))
      (hk : k ∈ l) (h : ItemOf k m) : ItemOf j m

/-- The items that `load` takes. -/
structure CleanItem (compiles : String → Bool) (j : Json) : Prop where
  source : ∀ s, find "source" j = some (.str s) → SourceClean s.toList
  target : ∀ t, find "target" j = some (.str t) → TargetClean t.toList
  filter : ∀ f, find "filter" j = some f → FilterClean compiles f

theorem ItemOf.forall_iff {j : Json} {P : Json → Prop} :
    (∀ k, ItemOf j k → P k)
      ↔ P j ∧ ∀ l, find "onFilterFail" j = some (.arr l) → ∀ k ∈ l, ∀ m, ItemOf k m → P m := by
  constructor
  · intro h
    exact ⟨h j (.self j), fun l hl k hk m hm => h m (.fallback hl hk hm)⟩
  · rintro ⟨hj, hbelow⟩ k hk
    cases hk with
    | self => exact hj
    | fallback hl hk h => exact hbelow _ hl _ hk _ h

/-- A member that is a list holds smaller documents. -/
theorem find_smaller {key : String} {j k : Json} {l : List Json} (hl : find key j = some (.arr l))
    (hk : k ∈ l) : sizeOf k < sizeOf j := by
  have hfield : ∀ {fields : List (String × Json)} {v : Json}, Json.field key fields = some v →
      sizeOf v < sizeOf fields := by
    intro fields v h
    induction fields with
    | nil => cases h
    | cons x rest ih =>
        obtain ⟨key', w⟩ := x
        rw [Json.field] at h
        rw [List.cons.sizeOf_spec, Prod.mk.sizeOf_spec]
        by_cases hkey : key' = key
        · rw [if_pos hkey] at h
          obtain rfl := Option.some.inj h
          omega
        · rw [if_neg hkey] at h
          have := ih h
          omega
  have hmem := List.sizeOf_lt_of_mem hk
  cases j with
  | obj fields =>
      have hlt := hfield hl
      rw [Json.arr.sizeOf_spec] at hlt
      rw [Json.obj.sizeOf_spec]
      omega
  | _ => cases hl

section Load

variable {lib : Lib} {compiles : String → Bool} {j : Json}

theorem acceptsItem_texts {l : ItemList} (h : acceptsItem l j = true) :
    ∃ source target, find "source" j = some (.str source) ∧ find "target" j = some (.str target)
      ∧ SourceForm source.toList ∧ TargetForm target.toList := by
  unfold acceptsItem at h
  split at h
  · rename_i source target hs ht
    obtain ⟨h1, h2⟩ := Bool.and_eq_true_iff.mp h
    exact ⟨source, target, hs, ht, sourceForm_of_accepts l h1, targetForm_of_accepts l h2⟩
  · cases h

theorem filterOf_iff :
    (∃ f, filterOf lib compiles j = .ok (some f))
      ↔ ∀ f, find "filter" j = some f → FilterClean compiles f := by
  unfold filterOf
  cases find "filter" j with
  | none => simp
  | some f =>
      have hmap : (∃ p, (loadFilter lib compiles f).map (Option.map some) = .ok (some p))
          ↔ ∃ p, loadFilter lib compiles f = .ok (some p) := by
        cases loadFilter lib compiles f with
        | error e => simp [Except.map]
        | ok p => cases p <;> simp [Except.map]
      simpa using hmap.trans (loadFilter_iff lib compiles f)

/-- The head of an accepted item is loaded exactly when the item is clean. -/
theorem loadHead_iff {l : ItemList} (h : acceptsItem l j = true) :
    (∃ t, loadHead lib compiles j = .ok (some t)) ↔ CleanItem compiles j := by
  obtain ⟨source, target, hs, ht, hsource, htarget⟩ := acceptsItem_texts h
  have hderefS : (deref "source" j).bind getString = .ok source := by
    rw [deref, hs]
    rfl
  have hderefT : (deref "target" j).bind getString = .ok target := by
    rw [deref, ht]
    rfl
  constructor
  · rintro ⟨t, hload⟩
    -- the texts that were read are those that were accepted
    obtain ⟨s', t', f, sp, tp, hs', ht', hf, hsp, htp, _⟩ := loadHead_parts hload
    obtain rfl := Except.ok.inj (hderefS.symm.trans hs')
    obtain rfl := Except.ok.inj (hderefT.symm.trans ht')
    refine ⟨?_, ?_, filterOf_iff.mp ⟨f, hf⟩⟩
    · intro s hfind
      obtain rfl := Json.str.inj (Option.some.inj (hs.symm.trans hfind))
      exact (loadSource_iff lib hsource).mp ⟨sp, hsp⟩
    · intro t hfind
      obtain rfl := Json.str.inj (Option.some.inj (ht.symm.trans hfind))
      exact (loadTarget_iff lib htarget).mp ⟨tp, htp⟩
  · intro hclean
    obtain ⟨f, hf⟩ := filterOf_iff.mpr hclean.filter
    obtain ⟨sp, hsp⟩ := (loadSource_iff lib hsource).mpr (hclean.source source hs)
    obtain ⟨tp, htp⟩ := (loadTarget_iff lib htarget).mpr (hclean.target target ht)
    refine ⟨assemble f sp tp, ?_⟩
    unfold loadHead
    rw [hderefS, hderefT, hf]
    change (loadSource lib source >>= _) = _
    rw [hsp]
    change (loadTarget lib target >>= _) = _
    rw [htp]
    rfl

/-- The list of `onFilterFail` is looked up like any member. -/
theorem loadOnFilterFail_find (fields : List (String × Json)) :
    loadOnFilterFail lib compiles fields =
      match find "onFilterFail" (.obj fields) with
      | some (.arr l) => loadFallbacks lib compiles l
      | _ => .ok (some .nil) := by
  induction fields with
  | nil => rw [loadOnFilterFail]; rfl
  | cons x rest ih =>
      obtain ⟨key, v⟩ := x
      by_cases hk : key = "onFilterFail"
      · cases v <;> simp [loadOnFilterFail, find, Json.field, hk]
      · have hskip : find "onFilterFail" (.obj ((key, v) :: rest))
            = find "onFilterFail" (.obj rest) := if_neg hk
        rw [hskip, ← ih]
        cases v <;> simp only [loadOnFilterFail, hk, if_false]

/-- A list of fallbacks is loaded when each of them is. -/
theorem loadFallbacks_iff (l : List Json) :
    (∃ items, loadFallbacks lib compiles l = .ok (some items))
      ↔ ∀ k ∈ l, ∃ r, load lib compiles k = .ok (some r) := by
  induction l with
  | nil =>
      rw [loadFallbacks]
      exact ⟨fun _ => List.forall_mem_nil _, fun _ => ⟨.nil, rfl⟩⟩
  | cons k l ih =>
      rw [loadFallbacks, List.forall_mem_cons, ← ih]
      cases load lib compiles k with
      | error e => simp
      | ok r =>
          cases r with
          | none => simp
          | some r =>
              obtain ⟨t, onFail⟩ := r
              cases loadFallbacks lib compiles l with
              | error e => simp
              | ok items => cases items <;> simp

/-- An item is loaded when its head is and each of its fallbacks is. -/
theorem load_step (fields : List (String × Json)) :
    (∃ r, load lib compiles (.obj fields) = .ok (some r))
      ↔ (∃ t, loadHead lib compiles (.obj fields) = .ok (some t))
        ∧ ∀ l, find "onFilterFail" (.obj fields) = some (.arr l) →
          ∀ k ∈ l, ∃ r, load lib compiles k = .ok (some r) := by
  have hfail : (∃ items, loadOnFilterFail lib compiles fields = .ok (some items))
      ↔ ∀ l, find "onFilterFail" (.obj fields) = some (.arr l) →
          ∀ k ∈ l, ∃ r, load lib compiles k = .ok (some r) := by
    rw [loadOnFilterFail_find]
    split
    · rename_i l hl
      rw [loadFallbacks_iff, hl]
      exact ⟨fun h l' hl' => by cases hl'; exact h, fun h => h l rfl⟩
    · rename_i hno
      exact ⟨fun _ l hl => absurd hl (hno l), fun _ => ⟨.nil, rfl⟩⟩
  rw [← hfail, load]
  cases loadHead lib compiles (.obj fields) with
  | error e => simp
  | ok t =>
      cases t with
      | none => simp
      | some t =>
          cases loadOnFilterFail lib compiles fields with
          | error e => simp
          | ok items => cases items <;> simp

/-- **ITEMS TAKEN**: an item whose texts are accepted, and those of the fallbacks at
    any depth below it, is loaded exactly when all of them are clean. -/
theorem load_iff {l : ItemList} (h : ∀ k, ItemOf j k → acceptsItem l k = true) :
    (∃ r, load lib compiles j = .ok (some r)) ↔ ∀ k, ItemOf j k → CleanItem compiles k := by
  induction hn : sizeOf j using Nat.strong_induction_on generalizing j with
  | _ n ih =>
      -- the items of a fallback list are smaller than the item that holds it
      subst hn
      obtain ⟨hself, hbelow⟩ := ItemOf.forall_iff.mp h
      obtain ⟨_, _, hs, _⟩ := acceptsItem_texts hself
      cases j with
      | obj fields =>
          rw [load_step, loadHead_iff hself, ItemOf.forall_iff]
          refine and_congr_right (fun _ => forall_congr' fun l' => forall_congr' fun hl =>
            forall_congr' fun k => forall_congr' fun hk => ?_)
          exact ih (sizeOf k) (find_smaller hl hk) (hbelow l' hl k hk) rfl
      | _ => cases hs

end Load

/-! ## Lists of items -/

/-- The items of a list, without those below them. -/
def listed : Transformations → List (Transformation × Transformations)
  | .nil => []
  | .cons t onFail rest => (t, onFail) :: listed rest

/-- Each item of a document is loaded, without an exception, and the list of the
    provision has them all, in their order. -/
def Loaded (lib : Lib) (compiles : String → Bool) (items : List Json) : Prop :=
  ∃ ts, loadTransformations lib compiles items = .ok ts
    ∧ List.Forall₂ (fun j r => load lib compiles j = .ok (some r)) items (listed ts)

theorem loaded_iff (lib : Lib) (compiles : String → Bool) (items : List Json) :
    Loaded lib compiles items ↔ ∀ j ∈ items, ∃ r, load lib compiles j = .ok (some r) := by
  constructor
  · rintro ⟨ts, hts, hall⟩
    clear hts
    generalize listed ts = rs at hall
    induction hall with
    | nil => exact List.forall_mem_nil _
    | @cons j r items rs hr _ ih => exact List.forall_mem_cons.mpr ⟨⟨r, hr⟩, ih⟩
  · intro h
    induction items with
    | nil => exact ⟨.nil, rfl, .nil⟩
    | cons j items ih =>
        obtain ⟨⟨t, onFail⟩, hr⟩ := h j List.mem_cons_self
        obtain ⟨ts, hts, hall⟩ := ih (fun k hk => h k (List.mem_cons_of_mem _ hk))
        refine ⟨.cons t onFail ts, ?_, .cons hr hall⟩
        rw [loadTransformations, hr]
        change (loadTransformations lib compiles items >>= _) = _
        rw [hts]
        rfl

/-- **SCHEMA AND PARSER**: on a list whose items, at any depth of `onFilterFail`, have
    sources and targets that the patterns of the schema accept, all items are loaded
    exactly when each of them is clean. -/
theorem accepted_items_load_iff (lib : Lib) (compiles : String → Bool) (l : ItemList)
    (items : List Json) (h : ∀ j ∈ items, ∀ k, ItemOf j k → acceptsItem l k = true) :
    Loaded lib compiles items ↔ ∀ j ∈ items, ∀ k, ItemOf j k → CleanItem compiles k := by
  rw [loaded_iff]
  exact forall_congr' fun j => forall_congr' fun hj => load_iff (h j hj)

/-- An item that falls back to a client provision. -/
def raisedItem : Json :=
  .obj [("source", .str "value.none"), ("target", .str "clientProvision.alarm.raised")]

def guardedItem : Json :=
  .obj [("filter", .obj [("RegexCapture", .str "a(.*)")]), ("onFilterFail", .arr [raisedItem]),
        ("source", .str "vault.entry./path"), ("target", .str "response.body.json.string")]

theorem guardedItem_items {k : Json} (h : ItemOf guardedItem k) :
    k = guardedItem ∨ k = raisedItem := by
  cases h with
  | self => exact .inl rfl
  | fallback hl hk h =>
      cases hl
      obtain rfl := List.mem_singleton.mp hk
      cases h with
      | self => exact .inr rfl
      | fallback hl _ _ => cases hl

theorem raisedItem_clean : CleanItem (fun _ => true) raisedItem := by
  refine ⟨?_, ?_, ?_⟩
  · rintro s h
    obtain rfl := Json.str.inj (Option.some.inj h)
    refine ⟨?_, ?_, ?_⟩
    · intro rest h
      exact absurd ⟨rest, h.symm⟩ (by decide : ¬ "vault.".toList <+: "value.none".toList)
    · intro a b h
      exact absurd ⟨_, h.symm⟩ (by decide : ¬ "random.".toList <+: "value.none".toList)
    · exact fun _ _ => by decide
  · rintro s h
    obtain rfl := Json.str.inj (Option.some.inj h)
    refine ⟨?_, ?_, ?_⟩
    · intro rest h
      exact absurd ⟨rest, h.symm⟩
        (by decide : ¬ "vault.".toList <+: "clientProvision.alarm.raised".toList)
    · intro rest h
      have hrest : rest = "alarm".toList ++ '.' :: "raised".toList :=
        List.append_cancel_left (h.symm.trans rfl)
      exact ⟨_, _, by decide, by decide, by decide, by decide, hrest⟩
    · exact fun _ _ => by decide
  · rintro f h
    cases h

theorem guardedItem_clean : CleanItem (fun _ => true) guardedItem := by
  refine ⟨?_, ?_, ?_⟩
  · rintro s h
    obtain rfl := Json.str.inj (Option.some.inj h)
    refine ⟨?_, ?_, ?_⟩
    · intro rest h
      have hrest : rest = "entry".toList ++ ("".toList ++ ('.' :: '/' :: "path".toList)) :=
        List.append_cancel_left (h.symm.trans rfl)
      exact ⟨_, _, by decide, by decide, hrest, .inr ⟨_, by decide, by decide, rfl⟩⟩
    · intro a b h
      exact absurd ⟨_, h.symm⟩ (by decide : ¬ "random.".toList <+: "vault.entry./path".toList)
    · exact fun _ _ => by decide
  · rintro s h
    obtain rfl := Json.str.inj (Option.some.inj h)
    refine ⟨?_, ?_, fun _ _ => by decide⟩
    · intro rest h
      exact absurd ⟨rest, h.symm⟩
        (by decide : ¬ "vault.".toList <+: "response.body.json.string".toList)
    · intro rest h
      exact absurd ⟨rest, h.symm⟩
        (by decide : ¬ "clientProvision.".toList <+: "response.body.json.string".toList)
  · rintro f h
    obtain rfl := Option.some.inj h
    exact ⟨"a(.*)", rfl, rfl⟩

/-- An item of the vault with a fallback to a client provision is loaded. -/
theorem guardedItem_loaded :
    (∀ j ∈ [guardedItem], ∀ k, ItemOf j k → acceptsItem .serverTransform k = true)
      ∧ Loaded idleLib (fun _ => true) [guardedItem] := by
  have haccept : ∀ j ∈ [guardedItem], ∀ k, ItemOf j k → acceptsItem .serverTransform k = true := by
    intro j hj k hk
    obtain rfl := List.mem_singleton.mp hj
    rcases guardedItem_items hk with rfl | rfl
    · decide +kernel
    · decide +kernel
  refine ⟨haccept, (accepted_items_load_iff idleLib _ .serverTransform _ haccept).mpr ?_⟩
  intro j hj k hk
  obtain rfl := List.mem_singleton.mp hj
  rcases guardedItem_items hk with rfl | rfl
  · exact guardedItem_clean
  · exact raisedItem_clean

/-- A vault text that is no entry with a path. -/
def entryItem : Json := .obj [("source", .str "vault.a.b"), ("target", .str "var.x")]

/-- A number that is no `int`. -/
def rangeItem : Json := .obj [("source", .str "random.0.4294967296"), ("target", .str "var.x")]

/-- Both items are accepted; the first is left out of the list of the provision, the
    second ends its load with an exception. -/
theorem accepted_items_not_loaded :
    (∀ j ∈ [entryItem, rangeItem], ∀ k, ItemOf j k → acceptsItem .serverTransform k = true)
      ∧ loadTransformations idleLib (fun _ => true) [entryItem] = .ok .nil
      ∧ loadTransformations idleLib (fun _ => true) [rangeItem] = .error .outOfRange
      ∧ ¬ Loaded idleLib (fun _ => true) [entryItem]
      ∧ ¬ Loaded idleLib (fun _ => true) [rangeItem] := by
  have hdropped : loadTransformations idleLib (fun _ => true) [entryItem] = .ok .nil := by rfl
  have hthrown : loadTransformations idleLib (fun _ => true) [rangeItem] = .error .outOfRange := by
    rfl
  refine ⟨?_, hdropped, hthrown, ?_, ?_⟩
  · intro j hj k hk
    simp only [List.mem_cons, List.not_mem_nil, or_false] at hj
    rcases hj with rfl | rfl
    · cases hk with
      | self => decide +kernel
      | fallback hl _ _ => cases hl
    · cases hk with
      | self => decide +kernel
      | fallback hl _ _ => cases hl
  · rintro ⟨ts, hts, hall⟩
    obtain rfl := Except.ok.inj (hdropped.symm.trans hts)
    cases hall
  · rintro ⟨ts, hts, _⟩
    cases hthrown.symm.trans hts

end H2Agreement
