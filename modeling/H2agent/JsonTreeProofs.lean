import Mathlib.Data.List.Forall2
import Mathlib.Data.Set.Basic
import Mathlib.Data.Rat.Defs
import H2agent.JsonValueProofs

/-! # JSON values as trees

    Induction over elements and members, what is inside a value at any depth, and
    the laws of the library's equality over documents whose numbers it compares
    exactly. -/

namespace JsonValue

namespace Json

/-- **INDUCTION** over the elements of arrays and the members of objects. -/
@[elab_as_elim]
theorem tree_induction {P : Json → Prop} (j : Json)
    (plain : ∀ j : Json, j.isArray = false → j.isObject = false → P j)
    (arr : ∀ l : List Json, (∀ x ∈ l, P x) → P (.arr l))
    (obj : ∀ fields : List (String × Json), (∀ kv ∈ fields, P kv.2) → P (.obj fields)) :
    P j := by
  refine @Json.rec P (fun l => ∀ x ∈ l, P x) (fun fields => ∀ kv ∈ fields, P kv.2)
    (fun kv => P kv.2) ?_ ?_ ?_ ?_ ?_ ?_ arr obj ?_ ?_ ?_ ?_ ?_ j
  · exact plain _ rfl rfl
  · exact fun _ => plain _ rfl rfl
  · exact fun _ => plain _ rfl rfl
  · exact fun _ => plain _ rfl rfl
  · exact fun _ => plain _ rfl rfl
  · exact fun _ => plain _ rfl rfl
  · intro x hx
    cases hx
  · intro head tail hhead htail x hx
    rcases List.mem_cons.mp hx with rfl | hx
    · exact hhead
    · exact htail x hx
  · intro kv hkv
    cases hkv
  · intro head tail hhead htail kv hkv
    rcases List.mem_cons.mp hkv with rfl | hkv
    · exact hhead
    · exact htail kv hkv
  · intro _ value hvalue
    exact hvalue

/-! ## Depth -/

/-- A value is inside another one, at any depth. -/
inductive Inside (x : Json) : Json → Prop
  | here : Inside x x
  | element {y : Json} {l : List Json} (hy : y ∈ l) (h : Inside x y) : Inside x (.arr l)
  | member {kv : String × Json} {fields : List (String × Json)} (hkv : kv ∈ fields)
      (h : Inside x kv.2) : Inside x (.obj fields)

theorem Inside.trans {x y z : Json} (hxy : Inside x y) (hyz : Inside y z) : Inside x z := by
  induction hyz with
  | here => exact hxy
  | element hy _ ih => exact .element hy ih
  | member hkv _ ih => exact .member hkv ih

/-- A value is inside one of the documents. -/
def Within (docs : Set Json) (j : Json) : Prop := ∃ d ∈ docs, Inside j d

section Within

variable {docs : Set Json}

theorem within_of_mem {d : Json} (hd : d ∈ docs) : Within docs d := ⟨d, hd, .here⟩

theorem Within.inside {x y : Json} (hy : Within docs y) (h : Inside x y) : Within docs x := by
  obtain ⟨d, hd, hin⟩ := hy
  exact ⟨d, hd, h.trans hin⟩

theorem Within.element {x : Json} {l : List Json} (h : Within docs (.arr l)) (hx : x ∈ l) :
    Within docs x :=
  h.inside (.element hx .here)

theorem Within.member {kv : String × Json} {fields : List (String × Json)}
    (h : Within docs (.obj fields)) (hkv : kv ∈ fields) : Within docs kv.2 :=
  h.inside (.member hkv .here)

end Within

/-- The keys of every object are different: an object is a map. -/
def WellFormed (j : Json) : Prop :=
  ∀ fields, Inside (.obj fields) j → (fields.map Prod.fst).Nodup

theorem WellFormed.element {l : List Json} (h : WellFormed (.arr l)) {x : Json} (hx : x ∈ l) :
    WellFormed x :=
  fun fields hin => h fields (.element hx hin)

theorem WellFormed.member {fields : List (String × Json)} (h : WellFormed (.obj fields))
    {kv : String × Json} (hkv : kv ∈ fields) : WellFormed kv.2 :=
  fun fs hin => h fs (.member hkv hin)

/-! ## Members -/

theorem mem_of_field {key : String} {v : Json} {fields : List (String × Json)}
    (h : field key fields = some v) : (key, v) ∈ fields := by
  induction fields with
  | nil => cases h
  | cons kv rest ih =>
      obtain ⟨k, w⟩ := kv
      rw [field] at h
      by_cases hk : k = key
      · rw [if_pos hk] at h
        cases h
        rw [hk]
        exact List.mem_cons_self ..
      · rw [if_neg hk] at h
        exact List.mem_cons_of_mem _ (ih h)

/-- Keys that differ: a member is the one found under its key. -/
theorem field_of_mem {key : String} {v : Json} {fields : List (String × Json)}
    (hnodup : (fields.map Prod.fst).Nodup) (h : (key, v) ∈ fields) : field key fields = some v := by
  induction fields with
  | nil => cases h
  | cons kv rest ih =>
      obtain ⟨k, w⟩ := kv
      rw [List.map_cons, List.nodup_cons] at hnodup
      rw [field]
      rcases List.mem_cons.mp h with heq | h
      · cases heq
        rw [if_pos rfl]
      · have hk : k ≠ key := by
          rintro rfl
          exact hnodup.1 (List.mem_map.mpr ⟨(k, v), h, rfl⟩)
        rw [if_neg hk]
        exact ih hnodup.2 h

theorem field_cons (key k : String) (v : Json) (rest : List (String × Json)) :
    field key ((k, v) :: rest) = if k = key then some v else field key rest := rfl

theorem field_append (key : String) (a b : List (String × Json)) :
    field key (a ++ b) = (field key a).or (field key b) := by
  induction a with
  | nil => rfl
  | cons kv rest ih =>
      obtain ⟨k, v⟩ := kv
      rw [List.cons_append, field_cons, field_cons]
      by_cases hk : k = key
      · rw [if_pos hk, if_pos hk]
        rfl
      · rw [if_neg hk, if_neg hk, ih]

/-- The members after one of them was set. -/
theorem field_setField (key k : String) (value : Json) (fields : List (String × Json)) :
    field k (setField key value fields) = if k = key then some value else field k fields := by
  induction fields with
  | nil =>
      rw [setField, field_cons]
      simp only [eq_comm]
  | cons kv rest ih =>
      obtain ⟨k', v⟩ := kv
      rw [setField]
      by_cases hsame : k' = key
      · subst hsame
        rw [if_pos rfl, field_cons, field_cons]
        by_cases hk : k = k'
        · rw [if_pos hk, if_pos hk.symm]
        · rw [if_neg hk, if_neg (Ne.symm hk), if_neg (Ne.symm hk)]
      · rw [if_neg hsame]
        split
        · rw [field_cons]
          simp only [eq_comm]
        · rw [field_cons, field_cons, ih]
          by_cases hk : k = key
          · rw [if_pos hk, if_pos hk, if_neg (fun h => hsame (h.trans hk))]
          · rw [if_neg hk, if_neg hk]

/-! ## Equality -/

def isNumber : Json → Bool
  | .int _ | .uint _ | .float _ => true
  | _ => false

theorem beqList_iff (a b : List Json) :
    beqList a b = true ↔ List.Forall₂ (fun x y => beq x y = true) a b := by
  induction a generalizing b with
  | nil =>
      cases b with
      | nil => simp [beqList]
      | cons y b => simp [beqList]
  | cons x a ih =>
      cases b with
      | nil => simp [beqList]
      | cons y b => simp [beqList, ih]

theorem beqFields_iff (a b : List (String × Json)) :
    beqFields a b = true
      ↔ List.Forall₂ (fun x y => x.1 = y.1 ∧ beq x.2 y.2 = true) a b := by
  induction a generalizing b with
  | nil =>
      cases b with
      | nil => simp [beqFields]
      | cons y b => simp [beqFields]
  | cons x a ih =>
      cases b with
      | nil => simp [beqFields]
      | cons y b => simp [beqFields, ih, and_assoc]

/-- Equal values are of one kind. -/
theorem kind_of_beq {x y : Json} (h : beq x y = true) :
    x.isArray = y.isArray ∧ x.isObject = y.isObject ∧ x.isNumber = y.isNumber := by
  cases x <;> cases y <;> first | exact ⟨rfl, rfl, rfl⟩ | (simp [beq] at h)

/-- A plain value that is no number is equal to itself only. -/
theorem eq_of_beq_plain {a b : Json} (harr : a.isArray = false) (hobj : a.isObject = false)
    (hnum : ¬ a.isNumber = true) (h : beq a b = true) : b = a := by
  cases a with
  | null => cases b <;> first | rfl | (simp [beq] at h)
  | bool x =>
      cases b <;> simp only [beq, beq_iff_eq, Bool.false_eq_true] at h
      rw [h]
  | str x =>
      cases b <;> simp only [beq, beq_iff_eq, Bool.false_eq_true] at h
      rw [h]
  | int i => exact (hnum rfl).elim
  | uint n => exact (hnum rfl).elim
  | float f => exact (hnum rfl).elim
  | arr l => cases harr
  | obj fields => cases hobj

/-- Equality is reflexive when it is on the numbers inside. -/
theorem beq_refl_of_numbers (j : Json)
    (hnumbers : ∀ x, Inside x j → x.isNumber = true → beq x x = true) : beq j j = true := by
  induction j using tree_induction with
  | plain j harr hobj =>
      cases j with
      | null => rfl
      | bool b => exact beq_self_eq_true b
      | str s => exact beq_self_eq_true s
      | int i => exact hnumbers _ .here rfl
      | uint n => exact hnumbers _ .here rfl
      | float f => exact hnumbers _ .here rfl
      | arr l => cases harr
      | obj fields => cases hobj
  | arr l ih =>
      refine (beqList_iff l l).mpr (List.forall₂_same.mpr fun x hx => ?_)
      exact ih x hx (fun y hy => hnumbers y (.element hx hy))
  | obj fields ih =>
      refine (beqFields_iff fields fields).mpr (List.forall₂_same.mpr fun kv hkv => ⟨rfl, ?_⟩)
      exact ih kv hkv (fun y hy => hnumbers y (.member hkv hy))

/-- Two lists related one by one with a third are related one by one. -/
theorem forall₂_trans_mem {α : Type} {R S T : α → α → Prop} {a b c : List α}
    (h : List.Forall₂ R a b) (h' : List.Forall₂ S b c)
    (htrans : ∀ x ∈ a, ∀ y ∈ b, ∀ z ∈ c, R x y → S y z → T x z) : List.Forall₂ T a c := by
  induction h generalizing c with
  | nil =>
      cases h'
      exact .nil
  | cons hxy _ ih =>
      cases h' with
      | cons hyz htail =>
          refine .cons (htrans _ (List.mem_cons_self ..) _ (List.mem_cons_self ..) _
            (List.mem_cons_self ..) hxy hyz) (ih htail fun x hx y hy z hz => ?_)
          exact htrans x (List.mem_cons_of_mem _ hx) y (List.mem_cons_of_mem _ hy) z
            (List.mem_cons_of_mem _ hz)

/-- It is transitive when it is on the numbers inside. -/
theorem beq_trans_of_numbers (a : Json) {b c : Json}
    (hnumbers : ∀ x y z, Inside x a → Inside y b → Inside z c → x.isNumber = true →
      y.isNumber = true → z.isNumber = true → beq x y = true → beq y z = true → beq x z = true)
    (hab : beq a b = true) (hbc : beq b c = true) : beq a c = true := by
  induction a using tree_induction generalizing b c with
  | plain a harr hobj =>
      have hab' := kind_of_beq hab
      have hbc' := kind_of_beq hbc
      by_cases hnum : a.isNumber = true
      · have hb : b.isNumber = true := hab'.2.2.symm.trans hnum
        have hc : c.isNumber = true := hbc'.2.2.symm.trans hb
        exact hnumbers a b c .here .here .here hnum hb hc hab hbc
      · obtain rfl := eq_of_beq_plain harr hobj hnum hab
        exact hbc
  | arr l ih =>
      cases b with
      | arr m =>
          cases c with
          | arr n =>
              refine (beqList_iff l n).mpr (forall₂_trans_mem ((beqList_iff l m).mp hab)
                ((beqList_iff m n).mp hbc) fun x hx y hy z hz hxy hyz => ?_)
              exact ih x hx (fun x' y' z' hx' hy' hz' =>
                hnumbers x' y' z' (.element hx hx') (.element hy hy') (.element hz hz')) hxy hyz
          | _ => simp [beq] at hbc
      | _ => simp [beq] at hab
  | obj fields ih =>
      cases b with
      | obj fields' =>
          cases c with
          | obj fields'' =>
              refine (beqFields_iff fields fields'').mpr (forall₂_trans_mem
                ((beqFields_iff fields fields').mp hab) ((beqFields_iff fields' fields'').mp hbc)
                fun x hx y hy z hz hxy hyz => ⟨hxy.1.trans hyz.1, ?_⟩)
              exact ih x hx (fun x' y' z' hx' hy' hz' =>
                hnumbers x' y' z' (.member hx hx') (.member hy hy') (.member hz hz')) hxy.2 hyz.2
          | _ => simp [beq] at hbc
      | _ => simp [beq] at hab

/-- Numbers within the documents are equal to the library exactly when they are. -/
def ComparedExactly (docs : Set Json) : Prop :=
  ∃ value : Json → ℚ, ∀ x y, Within docs x → Within docs y → x.isNumber = true →
    y.isNumber = true → (beq x y = true ↔ value x = value y)

section Exact

variable {docs : Set Json} (hexact : ComparedExactly docs)

include hexact

theorem ComparedExactly.beq_refl {j : Json} (hj : Within docs j) : beq j j = true := by
  obtain ⟨value, hvalue⟩ := hexact
  refine beq_refl_of_numbers j fun x hx hnum => ?_
  have hx' := hj.inside hx
  exact (hvalue x x hx' hx' hnum hnum).mpr rfl

theorem ComparedExactly.beq_trans {a b c : Json} (ha : Within docs a) (hb : Within docs b)
    (hc : Within docs c) (hab : beq a b = true) (hbc : beq b c = true) : beq a c = true := by
  obtain ⟨value, hvalue⟩ := hexact
  refine beq_trans_of_numbers a (fun x y z hx hy hz hxn hyn hzn hxy hyz => ?_) hab hbc
  have hx' := ha.inside hx
  have hy' := hb.inside hy
  have hz' := hc.inside hz
  have hvxy := (hvalue x y hx' hy' hxn hyn).mp hxy
  have hvyz := (hvalue y z hy' hz' hyn hzn).mp hyz
  exact (hvalue x z hx' hz' hxn hzn).mpr (hvxy.trans hvyz)

end Exact

end Json

end JsonValue
