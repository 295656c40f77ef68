import H2agent.JsonTreeProofs
import H2agent.VerdictProofs

/-! # `jsonConstraint` as a relation

    A received document meets an expected one when it has all its members and all its
    elements, wherever those stand.  Objects in objects, objects in arrays and arrays
    in objects are compared by `jsonConstraint` again; everything else, and an array
    in an array, by equality.

    `jsonConstraint_preorder`: it is reflexive and transitive, and its report is empty
    on success only. -/

namespace H2Constraint

open H2Convert H2Verdict JsonValue JsonValue.Json

/-! ## Membership -/

/-- `jsonConstraint` succeeds. -/
def Meets (lib : Lib) (received expected : Json) : Prop :=
  jsonConstraint lib received expected = none

instance (lib : Lib) (received expected : Json) : Decidable (Meets lib received expected) :=
  inferInstanceAs (Decidable (jsonConstraint lib received expected = none))

/-- A received element serves an expected one. -/
def ServesElement (lib : Lib) (x e : Json) : Prop :=
  if e.isObject && x.isObject then Meets lib x e else x.beq e = true

/-- A received member serves an expected one. -/
def ServesMember (lib : Lib) (x v : Json) : Prop :=
  if v.isObject || (v.isArray && x.isArray) then Meets lib x v else x.beq v = true

variable {lib : Lib}

theorem constrainElements_none (received : Json) (es : List Json) (i : Nat) :
    constrainElements lib received es i = none
      ↔ ∀ e ∈ es, ∃ x ∈ elements received, ServesElement lib x e := by
  induction es generalizing i with
  | nil => simp [constrainElements]
  | cons e es ih =>
      have hany : (elements received).any (fun r =>
          if e.isObject && r.isObject then (jsonConstraint lib r e).isNone else r.beq e) = true
          ↔ ∃ x ∈ elements received, ServesElement lib x e := by
        rw [List.any_eq_true]
        refine exists_congr fun x => and_congr_right fun _ => ?_
        rw [ServesElement]
        split
        · rw [Option.isNone_iff_eq_none]
          exact Iff.rfl
        · exact Iff.rfl
      rw [constrainElements, List.forall_mem_cons, ← hany]
      split
      · next hfound => exact (ih (i + 1)).trans ⟨fun h => ⟨hfound, h⟩, fun h => h.2⟩
      · next hmissing =>
          refine ⟨fun h => ?_, fun h => (hmissing h.1).elim⟩
          cases h

theorem constrainFields_none (received : Json) (fields : List (String × Json)) :
    constrainFields lib received fields = none
      ↔ ∀ kv ∈ fields, received.contains kv.1 = true
        ∧ ServesMember lib (received.member kv.1) kv.2 := by
  induction fields with
  | nil => simp [constrainFields]
  | cons kv rest ih =>
      obtain ⟨key, value⟩ := kv
      rw [constrainFields, List.forall_mem_cons, ← ih]
      by_cases hkey : received.contains key = true
      · rw [hkey, Bool.not_true, if_neg Bool.false_ne_true]
        simp only [true_and, ServesMember, Meets]
        split
        · cases jsonConstraint lib (received.member key) value with
          | none => simp
          | some report => simp
        · cases (received.member key).beq value with
          | true => simp
          | false => simp
      · have hnot : (!received.contains key) = true := by simpa using hkey
        rw [if_pos hnot]
        simp [hkey]

/-- An array asks for an array with all its elements. -/
theorem meets_arr (received : Json) (es : List Json) :
    Meets lib received (.arr es)
      ↔ ∃ l, received = .arr l ∧ ∀ e ∈ es, ∃ x ∈ l, ServesElement lib x e := by
  rw [Meets, jsonConstraint]
  cases received with
  | arr l =>
      rw [if_neg (by simp [isArray]), constrainElements_none]
      constructor
      · intro h
        exact ⟨l, rfl, h⟩
      · rintro ⟨l', hl, h⟩
        cases hl
        exact h
  | _ => simp [isArray]

/-- An object asks for all its members. -/
theorem meets_obj (received : Json) (fields : List (String × Json)) :
    Meets lib received (.obj fields)
      ↔ ∀ kv ∈ fields, received.contains kv.1 = true
        ∧ ServesMember lib (received.member kv.1) kv.2 := by
  rw [Meets, jsonConstraint, constrainFields_none]

theorem contains_obj {fields : List (String × Json)} {key : String} {v : Json}
    (h : field key fields = some v) :
    (Json.obj fields).contains key = true ∧ (Json.obj fields).member key = v := by
  simp only [contains, member, h]
  exact ⟨rfl, rfl⟩

/-- Only an object contains a key. -/
theorem eq_obj_of_contains {j : Json} {key : String} (h : j.contains key = true) :
    ∃ fields, j = .obj fields ∧ field key fields = some (j.member key) := by
  cases j with
  | obj fields =>
      refine ⟨fields, rfl, ?_⟩
      simp only [contains] at h
      simp only [member]
      cases hf : field key fields with
      | none =>
          rw [hf] at h
          cases h
      | some v => rfl
  | _ => cases h

/-- An object or an array. -/
def Container (j : Json) : Prop := j.isObject = true ∨ j.isArray = true

/-- An expected object is served by objects that meet it. -/
theorem servesElement_obj {x e : Json} (he : e.isObject = true) :
    ServesElement lib x e ↔ x.isObject = true ∧ Meets lib x e := by
  rw [ServesElement, he, Bool.true_and]
  by_cases hx : x.isObject = true
  · rw [if_pos hx]
    exact ⟨fun h => ⟨hx, h⟩, fun h => h.2⟩
  · rw [if_neg hx]
    constructor
    · intro h
      exact (hx ((kind_of_beq h).2.1.trans he)).elim
    · intro h
      exact (hx h.1).elim

/-- Any other element is served by equal ones. -/
theorem servesElement_other {x e : Json} (he : e.isObject = false) :
    ServesElement lib x e ↔ x.beq e = true := by
  rw [ServesElement, he, Bool.false_and, if_neg Bool.false_ne_true]

/-- An expected object or array is served by a member that meets it. -/
theorem servesMember_container {x v : Json} (hv : Container v) :
    ServesMember lib x v ↔ Meets lib x v := by
  rw [ServesMember]
  split
  · exact Iff.rfl
  · next hplain =>
      -- what is left is an array that meets something else
      cases v with
      | arr es =>
          have hx : ¬ x.isArray = true := by
            intro hx
            rw [hx] at hplain
            exact hplain rfl
          constructor
          · intro h
            exact (hx (kind_of_beq h).1).elim
          · intro h
            obtain ⟨l, rfl, -⟩ := (meets_arr x es).mp h
            exact (hx rfl).elim
      | obj fields => exact absurd rfl hplain
      | _ => rcases hv with hv | hv <;> cases hv

/-- Any other member by an equal one. -/
theorem servesMember_other {x v : Json} (hv : ¬ Container v) :
    ServesMember lib x v ↔ x.beq v = true := by
  rw [ServesMember, if_neg]
  intro h
  rcases Bool.or_eq_true_iff.mp h with hobj | harr
  · exact hv (.inl hobj)
  · exact hv (.inr (Bool.and_eq_true_iff.mp harr).1)

/-! ## A preorder -/

theorem meets_of_plain {x y v : Json} (hy : ¬ Container y) (hv : Container v)
    (h : Meets lib y v) : Meets lib x v := by
  cases v with
  | obj fields =>
      refine (meets_obj x fields).mpr fun kv hkv => ?_
      obtain ⟨fields', rfl, -⟩ := eq_obj_of_contains ((meets_obj y fields).mp h kv hkv).1
      exact (hy (.inl rfl)).elim
  | arr es =>
      obtain ⟨l, rfl, -⟩ := (meets_arr y es).mp h
      exact (hy (.inr rfl)).elim
  | _ => rcases hv with hv | hv <;> cases hv

section Preorder

variable {docs : Set Json} (hexact : ComparedExactly docs)

include hexact

theorem meets_refl (j : Json) (hj : Within docs j) (hwf : WellFormed j) (hc : Container j) :
    Meets lib j j := by
  induction j using tree_induction with
  | plain j harr hobj =>
      rcases hc with h | h
      · exact absurd (h.symm.trans hobj) (by decide)
      · exact absurd (h.symm.trans harr) (by decide)
  | arr l ih =>
      refine (meets_arr _ l).mpr ⟨l, rfl, fun e he => ⟨e, he, ?_⟩⟩
      cases hobj : e.isObject with
      | true =>
          refine (servesElement_obj hobj).mpr ⟨hobj, ?_⟩
          exact ih e he (hj.element he) (hwf.element he) (.inl hobj)
      | false => exact (servesElement_other hobj).mpr (hexact.beq_refl (hj.element he))
  | obj fields ih =>
      refine (meets_obj _ fields).mpr fun kv hkv => ?_
      obtain ⟨hcontains, hmember⟩ := contains_obj (field_of_mem (hwf fields .here) hkv)
      rw [hmember]
      refine ⟨hcontains, ?_⟩
      by_cases hdeep : Container kv.2
      · refine (servesMember_container hdeep).mpr ?_
        exact ih kv hkv (hj.member hkv) (hwf.member hkv) hdeep
      · exact (servesMember_other hdeep).mpr (hexact.beq_refl (hj.member hkv))

/-- Elements in a chain, with the chain for objects given. -/
theorem servesElement_trans {x y e : Json} (hx : Within docs x) (hy : Within docs y)
    (he : Within docs e)
    (hdeep : Container e → Meets lib x y → Meets lib y e → Meets lib x e)
    (hxy : ServesElement lib x y) (hye : ServesElement lib y e) : ServesElement lib x e := by
  cases hobj : e.isObject with
  | true =>
      obtain ⟨hyobj, hye⟩ := (servesElement_obj hobj).mp hye
      obtain ⟨hxobj, hxy⟩ := (servesElement_obj hyobj).mp hxy
      exact (servesElement_obj hobj).mpr ⟨hxobj, hdeep (.inl hobj) hxy hye⟩
  | false =>
      have hye := (servesElement_other hobj).mp hye
      have hyobj : y.isObject = false := (kind_of_beq hye).2.1.trans hobj
      have hxy := (servesElement_other hyobj).mp hxy
      exact (servesElement_other hobj).mpr (hexact.beq_trans hx hy he hxy hye)

/-- Members in a chain. -/
theorem servesMember_trans {x y v : Json} (hx : Within docs x) (hy : Within docs y)
    (hv : Within docs v) (hdeep : Container v → Meets lib x y → Meets lib y v → Meets lib x v)
    (hxy : ServesMember lib x y) (hyv : ServesMember lib y v) : ServesMember lib x v := by
  by_cases hcv : Container v
  · have hyv := (servesMember_container hcv).mp hyv
    refine (servesMember_container hcv).mpr ?_
    by_cases hcy : Container y
    · exact hdeep hcv ((servesMember_container hcy).mp hxy) hyv
    · -- a plain value meets the empty object only, which asks for nothing
      exact meets_of_plain hcy hcv hyv
  · have hyv := (servesMember_other hcv).mp hyv
    have hkind := kind_of_beq hyv
    have hcy : ¬ Container y := by
      rw [Container, hkind.1, hkind.2.1]
      exact hcv
    have hxy := (servesMember_other hcy).mp hxy
    exact (servesMember_other hcv).mpr (hexact.beq_trans hx hy hv hxy hyv)

theorem meets_trans (c : Json) {a b : Json} (ha : Within docs a) (hb : Within docs b)
    (hc : Within docs c) (hcontainer : Container c) (hab : Meets lib a b) (hbc : Meets lib b c) :
    Meets lib a c := by
  induction c using tree_induction generalizing a b with
  | plain c harr hobj =>
      rcases hcontainer with h | h
      · exact absurd (h.symm.trans hobj) (by decide)
      · exact absurd (h.symm.trans harr) (by decide)
  | arr es ih =>
      obtain ⟨m, rfl, hm⟩ := (meets_arr b es).mp hbc
      obtain ⟨l, rfl, hl⟩ := (meets_arr a m).mp hab
      refine (meets_arr _ es).mpr ⟨l, rfl, fun e he => ?_⟩
      obtain ⟨y, hy, hye⟩ := hm e he
      obtain ⟨x, hx, hxy⟩ := hl y hy
      refine ⟨x, hx, servesElement_trans hexact (ha.element hx) (hb.element hy) (hc.element he)
        (fun hce hxy hye => ?_) hxy hye⟩
      exact ih e he (ha.element hx) (hb.element hy) (hc.element he) hce hxy hye
  | obj fields ih =>
      refine (meets_obj a fields).mpr fun kv hkv => ?_
      obtain ⟨hcontains, hserves⟩ := (meets_obj b fields).mp hbc kv hkv
      obtain ⟨fieldsB, rfl, hfieldB⟩ := eq_obj_of_contains hcontains
      have hmemB := mem_of_field hfieldB
      obtain ⟨hcontains', hserves'⟩ := (meets_obj a fieldsB).mp hab _ hmemB
      obtain ⟨fieldsA, rfl, hfieldA⟩ := eq_obj_of_contains hcontains'
      have hmemA := mem_of_field hfieldA
      refine ⟨hcontains', servesMember_trans hexact (ha.member hmemA) (hb.member hmemB)
        (hc.member hkv) (fun hcv hxy hyv => ?_) hserves' hserves⟩
      exact ih kv hkv (ha.member hmemA) (hb.member hmemB) (hc.member hkv) hcv hxy hyv

end Preorder

/-- `jsonConstraint` with its report: the result, and the report it leaves. -/
def jsonConstraintCall (lib : Lib) (received expected : Json) (failReport : String) :
    Bool × String :=
  match jsonConstraint lib received expected with
  | none => (true, failReport)
  | some report => (false, report)

theorem call_iff (lib : Lib) (received expected : Json) (failReport : String) :
    (jsonConstraintCall lib received expected failReport).1 = true
      ↔ Meets lib received expected := by
  rw [jsonConstraintCall, Meets]
  cases jsonConstraint lib received expected with
  | none => simp
  | some report => simp

/-- The report is empty after a success only. -/
theorem call_report (lib : Lib) (received expected : Json) :
    (jsonConstraintCall lib received expected "").2 = ""
      ↔ (jsonConstraintCall lib received expected "").1 = true := by
  rw [jsonConstraintCall]
  cases h : jsonConstraint lib received expected with
  | none => simp
  | some report =>
      have hlong := jsonConstraint_long lib received expected h
      constructor
      · rintro rfl
        exact absurd hlong (by decide)
      · intro hfalse
        cases hfalse

/-- **A PREORDER WITH A FAITHFUL REPORT**: over objects and arrays whose numbers are
    compared exactly, `jsonConstraint` is reflexive and transitive; and from an empty
    report it leaves an empty one if and only if it succeeds. -/
theorem jsonConstraint_preorder (lib : Lib) (docs : Set Json) (hexact : ComparedExactly docs)
    (hcontainers : ∀ d ∈ docs, Container d) (hwf : ∀ d ∈ docs, WellFormed d) :
    (∀ x ∈ docs, ∀ report, (jsonConstraintCall lib x x report).1 = true)
      ∧ (∀ a ∈ docs, ∀ b ∈ docs, ∀ c ∈ docs, ∀ report,
        (jsonConstraintCall lib a b report).1 = true →
        (jsonConstraintCall lib b c report).1 = true →
        (jsonConstraintCall lib a c report).1 = true)
      ∧ ∀ received expected,
        (jsonConstraintCall lib received expected "").2 = ""
          ↔ (jsonConstraintCall lib received expected "").1 = true := by
  refine ⟨fun x hx report => ?_, fun a ha b hb c hc report hab hbc => ?_, call_report lib⟩
  · rw [call_iff]
    exact meets_refl hexact x (within_of_mem hx) (hwf x hx) (hcontainers x hx)
  · rw [call_iff] at hab hbc ⊢
    exact meets_trans hexact c (within_of_mem ha) (within_of_mem hb) (within_of_mem hc)
      (hcontainers c hc) hab hbc

/-- A document with a list of unsigned numbers. -/
def tags (l : List Nat) : Json := .obj [("tags", .arr (l.map .uint))]

theorem tags_inside {l : List Nat} {x : Json} (h : Inside x (tags l)) :
    x = tags l ∨ x = .arr (l.map .uint) ∨ ∃ n, x = .uint n := by
  cases h with
  | here => exact .inl rfl
  | member hkv h =>
      obtain rfl := List.mem_singleton.mp hkv
      cases h with
      | here => exact .inr (.inl rfl)
      | element hy h =>
          obtain ⟨n, -, rfl⟩ := List.mem_map.mp hy
          cases h with
          | here => exact .inr (.inr ⟨n, rfl⟩)

def unsignedValue : Json → ℚ
  | .uint n => n
  | _ => 0

/-- Unsigned numbers are compared exactly. -/
theorem tags_exact : ComparedExactly (Set.range tags) := by
  have hnumber : ∀ x, Within (Set.range tags) x → x.isNumber = true → ∃ n, x = .uint n := by
    rintro x ⟨_, ⟨l, rfl⟩, hin⟩ hnum
    rcases tags_inside hin with rfl | rfl | hn
    · cases hnum
    · cases hnum
    · exact hn
  refine ⟨unsignedValue, fun x y hx hy hxn hyn => ?_⟩
  obtain ⟨n, rfl⟩ := hnumber x hx hxn
  obtain ⟨m, rfl⟩ := hnumber y hy hyn
  simp [beq, unsignedValue]

theorem tags_wellFormed (l : List Nat) : WellFormed (tags l) := by
  intro fields h
  rcases tags_inside h with heq | heq | ⟨n, heq⟩
  · cases heq
    exact List.nodup_singleton _
  · cases heq
  · cases heq

/-- From `[1, 2, 3]` over `[3, 1]` to `[1]`. -/
theorem tags_chain :
    (jsonConstraintCall H2Transformation.idleLib (tags [1, 2, 3]) (tags [3, 1]) "").1 = true
      ∧ (jsonConstraintCall H2Transformation.idleLib (tags [3, 1]) (tags [1]) "").1 = true
      ∧ (jsonConstraintCall H2Transformation.idleLib (tags [1, 2, 3]) (tags [1]) "").1 = true := by
  have hcontainers : ∀ d ∈ Set.range tags, Container d := by
    rintro _ ⟨l, rfl⟩
    exact .inl rfl
  have hwf : ∀ d ∈ Set.range tags, WellFormed d := by
    rintro _ ⟨l, rfl⟩
    exact tags_wellFormed l
  have hpre := jsonConstraint_preorder H2Transformation.idleLib (Set.range tags) tags_exact
    hcontainers hwf
  exact ⟨rfl, rfl, hpre.2.1 _ ⟨[1, 2, 3], rfl⟩ _ ⟨[3, 1], rfl⟩ _ ⟨[1], rfl⟩ "" rfl rfl⟩

end H2Constraint
