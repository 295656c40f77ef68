import Mathlib.Data.List.Perm.Basic
import Mathlib.Logic.Relation
import H2agent.JsonConstraintProofs

/-! # Order and extras under `jsonConstraint`

    Documents are rearranged step by step: arrays are permuted at any depth, and the
    received document gets more elements and more keys.  The recursive comparison does
    not notice, and equality, which is left for an array in an array, does:
    `constraint_rearranged_iff`. -/

namespace H2Constraint

open H2Convert JsonValue JsonValue.Json

variable {lib : Lib}

/-! ## Rearrangements -/

/-- One rearrangement at some depth: an array permuted; and, where extras are allowed,
    elements added to an array or a key to an object. -/
inductive Step (extras : Prop) : Json → Json → Prop
  | permute {l l' : List Json} (h : l.Perm l') : Step extras (.arr l) (.arr l')
  | addElements (h : extras) (l more : List Json) : Step extras (.arr l) (.arr (l ++ more))
  | addKey (h : extras) {fields : List (String × Json)} {key : String}
      (hkey : field key fields = none) (value : Json) :
      Step extras (.obj fields) (.obj (setField key value fields))
  | element {x y : Json} (h : Step extras x y) (pre post : List Json) :
      Step extras (.arr (pre ++ x :: post)) (.arr (pre ++ y :: post))
  | member {x y : Json} (h : Step extras x y) (key : String) (pre post : List (String × Json)) :
      Step extras (.obj (pre ++ (key, x) :: post)) (.obj (pre ++ (key, y) :: post))

/-- Any number of rearrangements. -/
def Rearranged (extras : Prop) : Json → Json → Prop := Relation.ReflTransGen (Step extras)

/-- No array has an array as an element, at any depth. -/
def NoArrayInArray (j : Json) : Prop :=
  ∀ l, Inside (.arr l) j → ∀ x ∈ l, x.isArray = false

theorem noArrayInArray_arr {l : List Json} :
    NoArrayInArray (.arr l) ↔ ∀ x ∈ l, x.isArray = false ∧ NoArrayInArray x := by
  constructor
  · intro h x hx
    exact ⟨h l .here x hx, fun l' hin => h l' (.element hx hin)⟩
  · intro h l' hin
    cases hin with
    | here => exact fun x hx => (h x hx).1
    | element hy hin => exact (h _ hy).2 l' hin

theorem noArrayInArray_obj {fields : List (String × Json)} :
    NoArrayInArray (.obj fields) ↔ ∀ kv ∈ fields, NoArrayInArray kv.2 := by
  constructor
  · intro h kv hkv l' hin
    exact h l' (.member hkv hin)
  · intro h l' hin
    cases hin with
    | member hkv hin => exact h _ hkv l' hin

theorem noArrayInArray_plain {j : Json} (h : ¬ Container j) : NoArrayInArray j := by
  intro l hin
  cases hin with
  | here => exact (h (.inr rfl)).elim
  | element hy _ => exact (h (.inr rfl)).elim
  | member hkv _ => exact (h (.inl rfl)).elim

section Steps

variable {extras : Prop} {x y : Json}

theorem Step.kind (h : Step extras x y) :
    x.isArray = y.isArray ∧ x.isObject = y.isObject := by
  cases h <;> exact ⟨rfl, rfl⟩

/-- Plain values cannot be rearranged. -/
theorem Step.container (h : Step extras x y) : Container x := by
  cases h with
  | permute _ => exact .inr rfl
  | addElements _ _ _ => exact .inr rfl
  | addKey _ _ _ => exact .inl rfl
  | element _ _ _ => exact .inr rfl
  | member _ _ _ _ => exact .inl rfl

theorem Step.not_equal_plain (h : Step extras x y) {v : Json} (hv : ¬ Container v) :
    ¬ x.beq v = true := by
  intro hbeq
  have hkind := kind_of_beq hbeq
  have hx := h.container
  rw [Container, hkind.1, hkind.2.1] at hx
  exact hv hx

end Steps

/-! ## Where they do not matter -/

/-- The members of a rearranged object: what was found is still found, as it was or
    rearranged. -/
theorem Step.field {extras : Prop} {fields : List (String × Json)} {j : Json}
    (h : Step extras (.obj fields) j) :
    ∃ fields', j = .obj fields' ∧ ∀ k x, Json.field k fields = some x →
      ∃ y, Json.field k fields' = some y ∧ (y = x ∨ Step extras x y) := by
  cases h with
  | @addKey _ _ key hkey value =>
      refine ⟨_, rfl, fun k x hx => ⟨x, ?_, .inl rfl⟩⟩
      have hne : k ≠ key := by
        rintro rfl
        rw [hkey] at hx
        cases hx
      rw [field_setField, if_neg hne]
      exact hx
  | @member x₀ y₀ hstep key pre post =>
      refine ⟨_, rfl, fun k x hx => ?_⟩
      rw [field_append] at hx ⊢
      cases hpre : Json.field k pre with
      | some z =>
          rw [hpre] at hx
          exact ⟨x, hx, .inl rfl⟩
      | none =>
          rw [hpre] at hx
          rw [Option.none_or, Json.field] at hx ⊢
          by_cases hk : key = k
          · rw [if_pos hk] at hx ⊢
            cases hx
            exact ⟨y₀, rfl, .inr hstep⟩
          · rw [if_neg hk] at hx ⊢
            exact ⟨x, hx, .inl rfl⟩

/-- The elements of a rearranged array: each is still there, as it was or rearranged. -/
theorem Step.element_of_mem {extras : Prop} {l : List Json} {j : Json}
    (h : Step extras (.arr l) j) :
    ∃ l', j = .arr l' ∧ ∀ x ∈ l, ∃ y ∈ l', y = x ∨ Step extras x y := by
  cases h with
  | permute hperm => exact ⟨_, rfl, fun x hx => ⟨x, hperm.mem_iff.mp hx, .inl rfl⟩⟩
  | addElements _ _ more =>
      exact ⟨_, rfl, fun x hx => ⟨x, List.mem_append_left more hx, .inl rfl⟩⟩
  | @element x₀ y₀ hstep pre post =>
      refine ⟨_, rfl, fun x hx => ?_⟩
      rcases List.mem_append.mp hx with hpre | hrest
      · exact ⟨x, List.mem_append_left _ hpre, .inl rfl⟩
      · rcases List.mem_cons.mp hrest with rfl | hpost
        · exact ⟨y₀, List.mem_append_right _ (List.mem_cons_self ..), .inr hstep⟩
        · exact ⟨x, List.mem_append_right _ (List.mem_cons_of_mem _ hpost), .inl rfl⟩

/-- The members asked for, in a rearranged object. -/
theorem serves_fields_step {extras : Prop} {r r' : Json} {fields : List (String × Json)}
    (hstep : Step extras r r')
    (hdeep : ∀ kv ∈ fields, Container kv.2 → ∀ x y, Step extras x y → Meets lib x kv.2 →
      Meets lib y kv.2)
    (h : ∀ kv ∈ fields, r.contains kv.1 = true ∧ ServesMember lib (r.member kv.1) kv.2) :
    ∀ kv ∈ fields, r'.contains kv.1 = true ∧ ServesMember lib (r'.member kv.1) kv.2 := by
  intro kv hkv
  obtain ⟨hcontains, hserves⟩ := h kv hkv
  obtain ⟨fields₀, rfl, hfield⟩ := eq_obj_of_contains hcontains
  obtain ⟨fields', rfl, hkept⟩ := hstep.field
  obtain ⟨y, hy, hrel⟩ := hkept kv.1 _ hfield
  obtain ⟨hcontains', hmember'⟩ := contains_obj hy
  refine ⟨hcontains', ?_⟩
  rw [hmember']
  rcases hrel with rfl | hxy
  · exact hserves
  · by_cases hcv : Container kv.2
    · have hmeets := (servesMember_container hcv).mp hserves
      exact (servesMember_container hcv).mpr (hdeep kv hkv hcv _ y hxy hmeets)
    · exact (hxy.not_equal_plain hcv ((servesMember_other hcv).mp hserves)).elim

/-- A plain expected value is the one member it iterates as; null asks for nothing. -/
theorem meets_plain {e : Json} (he : ¬ Container e) (received : Json) :
    Meets lib received e ↔ e = .null ∨ e ≠ .null ∧ received.contains "" = true
      ∧ ServesMember lib (received.member "") e := by
  rw [servesMember_other he, Meets]
  cases e with
  | null => simp [jsonConstraint]
  | arr l => exact (he (.inr rfl)).elim
  | obj fields => exact (he (.inl rfl)).elim
  | _ =>
      simp only [jsonConstraint, constrainPlain]
      cases received.contains "" with
      | false => simp
      | true => cases hb : (received.member "").beq _ <;> simp

/-- **STEP LEMMA**: a received document that is rearranged still meets what has no
    array in an array. -/
theorem meets_received_step (e : Json) {r r' : Json} (he : NoArrayInArray e)
    (hstep : Step True r r') (h : Meets lib r e) : Meets lib r' e := by
  induction e using tree_induction generalizing r r' with
  | plain e harr hobj =>
      have hplain : ¬ Container e := by
        rw [Container, harr, hobj]
        simp
      rcases (meets_plain hplain r).mp h with hnull | ⟨hne, hserves⟩
      · exact (meets_plain hplain r').mpr (.inl hnull)
      · have hmember : ∀ kv ∈ [("", e)],
            r'.contains kv.1 = true ∧ ServesMember lib (r'.member kv.1) kv.2 := by
          refine serves_fields_step hstep (fun kv hkv hcv => ?_) (by simpa using hserves)
          obtain rfl := List.mem_singleton.mp hkv
          exact (hplain hcv).elim
        exact (meets_plain hplain r').mpr (.inr ⟨hne, hmember _ (List.mem_singleton.mpr rfl)⟩)
  | arr es ih =>
      obtain ⟨l, rfl, hl⟩ := (meets_arr r es).mp h
      obtain ⟨l', rfl, hkept⟩ := hstep.element_of_mem
      refine (meets_arr _ es).mpr ⟨l', rfl, fun e he' => ?_⟩
      obtain ⟨x, hx, hserves⟩ := hl e he'
      obtain ⟨y, hy, hrel⟩ := hkept x hx
      obtain ⟨hnotarr, hdeep⟩ := noArrayInArray_arr.mp he e he'
      refine ⟨y, hy, ?_⟩
      rcases hrel with rfl | hxy
      · exact hserves
      · cases hobj : e.isObject with
        | true =>
            obtain ⟨hxobj, hmeets⟩ := (servesElement_obj hobj).mp hserves
            refine (servesElement_obj hobj).mpr ⟨hxy.kind.2.symm.trans hxobj, ?_⟩
            exact ih e he' hdeep hxy hmeets
        | false =>
            have hplain : ¬ Container e := by
              rw [Container, hobj, hnotarr]
              simp
            exact (hxy.not_equal_plain hplain ((servesElement_other hobj).mp hserves)).elim
  | obj fields ih =>
      refine (meets_obj r' fields).mpr (serves_fields_step hstep (fun kv hkv _ x y hxy hx => ?_)
        ((meets_obj r fields).mp h))
      exact ih kv hkv (noArrayInArray_obj.mp he kv hkv) hxy hx

/-- Where one of a list was replaced, the others stay. -/
theorem mem_replaced {α : Type} {pre post : List α} {x y z : α} (h : z ∈ pre ++ y :: post) :
    z = y ∨ z ∈ pre ++ x :: post := by
  rcases List.mem_append.mp h with h | h
  · exact .inr (List.mem_append_left _ h)
  · rcases List.mem_cons.mp h with h | h
    · exact .inl h
    · exact .inr (List.mem_append_right _ (List.mem_cons_of_mem _ h))

/-- An expected element that is rearranged. -/
theorem meets_expected_element {x y : Json} (hxy : Step False x y) {pre post : List Json}
    (he : NoArrayInArray (.arr (pre ++ x :: post)))
    (ih : NoArrayInArray x → NoArrayInArray y ∧ ∀ r, Meets lib r x → Meets lib r y) :
    NoArrayInArray (.arr (pre ++ y :: post)) ∧
      ∀ r, Meets lib r (.arr (pre ++ x :: post)) → Meets lib r (.arr (pre ++ y :: post)) := by
  rw [noArrayInArray_arr] at he
  obtain ⟨hnotarr, hdeep⟩ := he x (List.mem_append_right _ (List.mem_cons_self ..))
  obtain ⟨hydeep, hmeets⟩ := ih hdeep
  have hobj : x.isObject = true := by
    rcases hxy.container with h | h
    · exact h
    · rw [hnotarr] at h
      cases h
  constructor
  · refine noArrayInArray_arr.mpr fun z hz => ?_
    rcases mem_replaced hz with rfl | hz
    · exact ⟨hxy.kind.1.symm.trans hnotarr, hydeep⟩
    · exact he z hz
  · intro r h
    obtain ⟨l, rfl, hl⟩ := (meets_arr r _).mp h
    refine (meets_arr _ _).mpr ⟨l, rfl, fun z hz => ?_⟩
    rcases mem_replaced hz with rfl | hz
    · obtain ⟨w, hw, hserves⟩ := hl x (List.mem_append_right _ (List.mem_cons_self ..))
      obtain ⟨hwobj, hwx⟩ := (servesElement_obj hobj).mp hserves
      refine ⟨w, hw, (servesElement_obj (hxy.kind.2.symm.trans hobj)).mpr ⟨hwobj, ?_⟩⟩
      exact hmeets w hwx
    · exact hl z hz

/-- An expected member that is rearranged. -/
theorem meets_expected_member {x y : Json} (hxy : Step False x y) {key : String}
    {pre post : List (String × Json)} (he : NoArrayInArray (.obj (pre ++ (key, x) :: post)))
    (ih : NoArrayInArray x → NoArrayInArray y ∧ ∀ r, Meets lib r x → Meets lib r y) :
    NoArrayInArray (.obj (pre ++ (key, y) :: post)) ∧
      ∀ r, Meets lib r (.obj (pre ++ (key, x) :: post)) →
        Meets lib r (.obj (pre ++ (key, y) :: post)) := by
  rw [noArrayInArray_obj] at he
  have hmem : (key, x) ∈ pre ++ (key, x) :: post :=
    List.mem_append_right _ (List.mem_cons_self ..)
  obtain ⟨hydeep, hmeets⟩ := ih (he _ hmem)
  have hcontainer := hxy.container
  have hcontainer' : Container y := by
    rw [Container, ← hxy.kind.1, ← hxy.kind.2]
    exact hcontainer
  constructor
  · refine noArrayInArray_obj.mpr fun kv hkv => ?_
    rcases mem_replaced hkv with rfl | hkv
    · exact hydeep
    · exact he kv hkv
  · intro r h
    have hfields := (meets_obj r _).mp h
    refine (meets_obj r _).mpr fun kv hkv => ?_
    rcases mem_replaced hkv with rfl | hkv
    · obtain ⟨hcontains, hserves⟩ := hfields _ hmem
      refine ⟨hcontains, (servesMember_container hcontainer').mpr ?_⟩
      exact hmeets _ ((servesMember_container hcontainer).mp hserves)
    · exact hfields kv hkv

/-- **STEP LEMMA**: so does the same document with the expected one permuted, which has
    no array in an array either. -/
theorem meets_expected_step {e e' : Json} (hstep : Step False e e') (he : NoArrayInArray e) :
    NoArrayInArray e' ∧ ∀ r, Meets lib r e → Meets lib r e' := by
  induction hstep with
  | permute hperm =>
      constructor
      · rw [noArrayInArray_arr] at he ⊢
        exact fun x hx => he x (hperm.mem_iff.mpr hx)
      · intro r h
        obtain ⟨l, rfl, hl⟩ := (meets_arr r _).mp h
        exact (meets_arr _ _).mpr ⟨l, rfl, fun e he' => hl e (hperm.mem_iff.mpr he')⟩
  | addElements hfalse _ _ => exact hfalse.elim
  | addKey hfalse _ _ => exact hfalse.elim
  | element hxy pre post ih => exact meets_expected_element hxy he ih
  | member hxy key pre post ih => exact meets_expected_member hxy he ih

/-! ## Where they do -/

/-- Every array has so many elements at least. -/
def Long (m : Nat) (j : Json) : Prop := ∀ l, Inside (.arr l) j → m ≤ l.length

theorem Long.inside {m : Nat} {x j : Json} (h : Long m j) (hx : Inside x j) : Long m x :=
  fun l hin => h l (hin.trans hx)

/-- Long enough arrays meet nothing with an array in an array. -/
theorem not_meets_of_long (e : Json) (he : ¬ NoArrayInArray e) :
    ∃ m, ∀ r, Long m r → ¬ Meets lib r e := by
  induction e using tree_induction with
  | plain e harr hobj =>
      refine (he (noArrayInArray_plain ?_)).elim
      rw [Container, harr, hobj]
      simp
  | arr es ih =>
      rw [noArrayInArray_arr] at he
      push Not at he
      obtain ⟨x, hx, hbad⟩ := he
      cases x with
      | arr inner =>
          refine ⟨inner.length + 1, fun r hlong h => ?_⟩
          obtain ⟨l, rfl, hl⟩ := (meets_arr r es).mp h
          obtain ⟨z, hz, hserves⟩ := hl _ hx
          have hbeq := (servesElement_other rfl).mp hserves
          cases z with
          | arr l' =>
              have hlength := ((beqList_iff l' inner).mp hbeq).length_eq
              have hle := hlong l' (.element hz .here)
              omega
          | _ => simp [beq] at hbeq
      | obj fields =>
          obtain ⟨m, hm⟩ := ih _ hx (hbad rfl)
          refine ⟨m, fun r hlong h => ?_⟩
          obtain ⟨l, rfl, hl⟩ := (meets_arr r es).mp h
          obtain ⟨z, hz, hserves⟩ := hl _ hx
          exact hm z (hlong.inside (.element hz .here)) ((servesElement_obj rfl).mp hserves).2
      | _ => exact (hbad rfl (noArrayInArray_plain (by simp [Container, isObject, isArray]))).elim
  | obj fields ih =>
      rw [noArrayInArray_obj] at he
      push Not at he
      obtain ⟨kv, hkv, hbad⟩ := he
      obtain ⟨m, hm⟩ := ih kv hkv hbad
      refine ⟨m, fun r hlong h => ?_⟩
      obtain ⟨hcontains, hserves⟩ := (meets_obj r fields).mp h kv hkv
      have hcv : Container kv.2 := by
        by_contra hplain
        exact hbad (noArrayInArray_plain hplain)
      obtain ⟨fields₀, rfl, hfield⟩ := eq_obj_of_contains hcontains
      refine hm _ (hlong.inside ?_) ((servesMember_container hcv).mp hserves)
      exact .member (mem_of_field hfield) .here

section Lengthen

variable {extras : Prop}

/-- Rearrangements of the elements, one after another. -/
theorem rearranged_elements {l l' : List Json} (h : List.Forall₂ (Rearranged extras) l l')
    (pre : List Json) : Rearranged extras (.arr (pre ++ l)) (.arr (pre ++ l')) := by
  induction h generalizing pre with
  | nil => exact .refl
  | @cons x y post post' hxy _ ih =>
      have hhead : Rearranged extras (.arr (pre ++ x :: post)) (.arr (pre ++ y :: post)) := by
        refine Relation.ReflTransGen.lift (fun z => Json.arr (pre ++ z :: post)) ?_ _ _ hxy
        exact fun a b hab => .element hab pre post
      have htail := ih (pre ++ [y])
      rw [List.append_assoc, List.append_assoc] at htail
      exact hhead.trans htail

/-- Rearrangements of the members. -/
theorem rearranged_members {fields fields' : List (String × Json)}
    (h : List.Forall₂ (fun a b => a.1 = b.1 ∧ Rearranged extras a.2 b.2) fields fields')
    (pre : List (String × Json)) :
    Rearranged extras (.obj (pre ++ fields)) (.obj (pre ++ fields')) := by
  induction h generalizing pre with
  | nil => exact .refl
  | @cons a b post post' hab _ ih =>
      obtain ⟨key, x⟩ := a
      obtain ⟨key', y⟩ := b
      obtain ⟨rfl, hxy⟩ := hab
      have hhead : Rearranged extras (.obj (pre ++ (key, x) :: post))
          (.obj (pre ++ (key, y) :: post)) := by
        refine Relation.ReflTransGen.lift (fun z => Json.obj (pre ++ (key, z) :: post)) ?_ _ _ hxy
        exact fun a b hab => .member hab key pre post
      have htail := ih (pre ++ [(key, y)])
      rw [List.append_assoc, List.append_assoc] at htail
      exact hhead.trans htail

/-- A list chosen one by one. -/
theorem exists_forall₂ {α : Type} {R : α → α → Prop} {l : List α} (h : ∀ x ∈ l, ∃ y, R x y) :
    ∃ l', List.Forall₂ R l l' ∧ ∀ y ∈ l', ∃ x, R x y := by
  induction l with
  | nil =>
      refine ⟨[], .nil, fun y hy => ?_⟩
      cases hy
  | cons x l ih =>
      obtain ⟨y, hy⟩ := h x (List.mem_cons_self ..)
      obtain ⟨l', hl', hmem⟩ := ih (fun z hz => h z (List.mem_cons_of_mem x hz))
      refine ⟨y :: l', .cons hy hl', fun z hz => ?_⟩
      rcases List.mem_cons.mp hz with rfl | hz
      · exact ⟨x, hy⟩
      · exact hmem z hz

/-- With extras every document can be rearranged to long arrays. -/
theorem exists_long (m : Nat) (r : Json) : ∃ r', Rearranged True r r' ∧ Long m r' := by
  induction r using tree_induction with
  | plain r harr hobj =>
      refine ⟨r, .refl, fun l hin => ?_⟩
      cases hin with
      | here => cases harr
      | element _ _ => cases harr
      | member _ _ => cases hobj
  | arr l ih =>
      obtain ⟨l', hl', hmem⟩ := exists_forall₂ ih
      have hrel : List.Forall₂ (Rearranged True) l l' := hl'.imp fun _ _ h => h.1
      refine ⟨.arr (l' ++ List.replicate m .null),
        (rearranged_elements hrel []).tail (.addElements trivial l' _), fun k hin => ?_⟩
      cases hin with
      | here => simp
      | element hy hin =>
          rcases List.mem_append.mp hy with hy | hy
          · obtain ⟨x, -, hlong⟩ := hmem _ hy
            exact hlong k hin
          · obtain rfl := List.eq_of_mem_replicate hy
            cases hin
  | obj fields ih =>
      have hchoose : ∀ kv ∈ fields, ∃ kv' : String × Json,
          kv.1 = kv'.1 ∧ Rearranged True kv.2 kv'.2 ∧ Long m kv'.2 := by
        intro kv hkv
        obtain ⟨y, hy⟩ := ih kv hkv
        exact ⟨(kv.1, y), rfl, hy⟩
      obtain ⟨fields', hf, hmem⟩ := exists_forall₂ hchoose
      refine ⟨.obj fields', rearranged_members (hf.imp fun _ _ h => ⟨h.1, h.2.1⟩) [],
        fun k hin => ?_⟩
      cases hin with
      | member hkv hin =>
          obtain ⟨x, -, -, hlong⟩ := hmem _ hkv
          exact hlong k hin

end Lengthen

/-- **ORDER AND EXTRAS**: a received document that meets an expected one keeps doing so
    however both are permuted and whatever is added to the received one, at any depth,
    if and only if the expected one has no array in an array. -/
theorem constraint_rearranged_iff (lib : Lib) {received expected : Json}
    (h : Meets lib received expected) :
    (∀ received' expected', Rearranged True received received' →
      Rearranged False expected expected' → Meets lib received' expected')
      ↔ NoArrayInArray expected := by
  constructor
  · intro hall
    by_contra hbad
    obtain ⟨m, hm⟩ := @not_meets_of_long lib expected hbad
    obtain ⟨r', hr', hlong⟩ := exists_long m received
    exact hm r' hlong (hall r' expected hr' .refl)
  · intro hflat received' expected' hr he
    have hreceived : Meets lib received' expected := by
      induction hr with
      | refl => exact h
      | tail _ hstep ih => exact meets_received_step expected hflat hstep ih
    have hexpected : NoArrayInArray expected' ∧ Meets lib received' expected' := by
      induction he with
      | refl => exact ⟨hflat, hreceived⟩
      | tail _ hstep ih =>
          obtain ⟨hflat', hmeets⟩ := meets_expected_step hstep ih.1
          exact ⟨hflat', hmeets _ ih.2⟩
    exact hexpected.2

/-- A document with a pair in its list of pairs. -/
def pairs (a b : Nat) : Json := .arr [.arr [.uint a, .uint b]]

theorem tags_flat (l : List Nat) : NoArrayInArray (.arr [tags l]) := by
  refine noArrayInArray_arr.mpr fun x hx => ?_
  obtain rfl := List.mem_singleton.mp hx
  refine ⟨rfl, noArrayInArray_obj.mpr fun kv hkv => ?_⟩
  obtain rfl := List.mem_singleton.mp hkv
  refine noArrayInArray_arr.mpr fun y hy => ?_
  obtain ⟨n, -, rfl⟩ := List.mem_map.mp hy
  exact ⟨rfl, noArrayInArray_plain (by simp [Container, isObject, isArray])⟩

/-- Objects in arrays, and arrays in objects, may be in any order and with more. -/
theorem tagged_more :
    Meets H2Transformation.idleLib (.arr [.uint 7, tags [2, 1, 9]]) (.arr [tags [1, 2]]) := by
  have hsame : Meets H2Transformation.idleLib (.arr [tags [1, 2]]) (.arr [tags [1, 2]]) := rfl
  refine (constraint_rearranged_iff H2Transformation.idleLib hsame).mpr (tags_flat _) _ _ ?_ .refl
  have hpermute : Step True (tags [1, 2]) (tags [2, 1]) :=
    .member (.permute (List.Perm.swap ..)) "tags" [] []
  have hadd : Step True (tags [2, 1]) (tags [2, 1, 9]) :=
    .member (.addElements trivial _ [.uint 9]) "tags" [] []
  have hmore : Step True (.arr [tags [2, 1, 9]]) (.arr [tags [2, 1, 9], .uint 7]) :=
    .addElements trivial _ [.uint 7]
  have hswap : Step True (.arr [tags [2, 1, 9], .uint 7]) (.arr [.uint 7, tags [2, 1, 9]]) :=
    .permute (List.Perm.swap ..)
  exact (((Relation.ReflTransGen.single (.element hpermute [] [])).tail
    (.element hadd [] [])).tail hmore).tail hswap

/-- `[[1, 2]]` is not met any more once its inner array is permuted. -/
theorem inner_array_order_matters :
    Meets H2Transformation.idleLib (pairs 1 2) (pairs 1 2)
      ∧ Rearranged True (pairs 1 2) (pairs 2 1)
      ∧ ¬ Meets H2Transformation.idleLib (pairs 2 1) (pairs 1 2) := by
  refine ⟨rfl, .single ?_, ?_⟩
  · exact .element (.permute (List.Perm.swap ..)) [] []
  · intro h
    exact absurd h (by decide)

end H2Constraint
