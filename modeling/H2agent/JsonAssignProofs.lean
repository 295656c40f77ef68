import Mathlib.Data.List.Nodup
import H2agent.JsonPointerProofs

/-! # Assignments to members of a document

    `j[k1]..[kn] = v` with keys: what is missing or null on the way becomes an
    object, and anything else is an error.  A list of assignments none of which
    leads through another one leaves a document that depends on the document it
    started from only in what was not assigned.

    * `assignAll_fields`: the members after a list of assignments are those of the
      assignments below each key;
    * `assignAll_below`: assignments below one key are assignments to its member;
    * `assignAll_null`: from nothing, the assignments succeed;
    * `Covered` and `assignAll_eq_iff`: when nothing is left of the start;
    * `assignThrough_fst_eq_iff`: the same when an exception may stop them half way. -/

namespace JsonValue

namespace Json

/-- The members of what can be an object. -/
def objectFields : Json → Option (List (String × Json))
  | .null => some []
  | .obj fields => some fields
  | _ => none

/-- `j[k1]..[kn] = v`; `none` is an exception, which leaves the document as it was. -/
def assign : List String → Json → Json → Option Json
  | [], v, _ => some v
  | k :: ks, v, j =>
      (objectFields j).bind fun fields =>
        (assign ks v ((field k fields).getD .null)).map fun c => .obj (setField k c fields)

/-- A path of keys and the value assigned there. -/
abbrev Write := List String × Json

def assignAll : List Write → Json → Option Json
  | [], j => some j
  | w :: ws, j => (assign w.1 w.2 j).bind (assignAll ws)

theorem assignAll_append (ws us : List Write) (j : Json) :
    assignAll (ws ++ us) j = (assignAll ws j).bind (assignAll us) := by
  induction ws generalizing j with
  | nil => rfl
  | cons w ws ih =>
      rw [List.cons_append, assignAll, assignAll, Option.bind_assoc]
      congr 1
      funext j'
      exact ih j'

/-- The same with what an exception leaves, and whether there was none. -/
def assignThrough : List Write → Json → Json × Bool
  | [], j => (j, true)
  | w :: ws, j =>
      match assign w.1 w.2 j with
      | some j' => assignThrough ws j'
      | none => (j, false)

theorem assignThrough_append (ws us : List Write) (j : Json) :
    assignThrough (ws ++ us) j
      = if (assignThrough ws j).2 = true then assignThrough us (assignThrough ws j).1
        else assignThrough ws j := by
  induction ws generalizing j with
  | nil => rw [List.nil_append, assignThrough, if_pos rfl]
  | cons w ws ih =>
      rw [List.cons_append, assignThrough, assignThrough]
      cases assign w.1 w.2 j with
      | none => rw [if_neg Bool.false_ne_true]
      | some j' => exact ih j'

theorem assignThrough_eq_some {ws : List Write} {j j' : Json} :
    assignThrough ws j = (j', true) ↔ assignAll ws j = some j' := by
  induction ws generalizing j with
  | nil => simp [assignThrough, assignAll]
  | cons w ws ih =>
      rw [assignThrough, assignAll]
      cases assign w.1 w.2 j with
      | none => simp
      | some j1 => exact ih

/-- The assignments below a key. -/
def under (k : String) : List Write → List Write
  | [] => []
  | ([], _) :: ws => under k ws
  | (k' :: ks, v) :: ws => if k' = k then (ks, v) :: under k ws else under k ws

theorem under_append (k : String) (ws us : List Write) :
    under k (ws ++ us) = under k ws ++ under k us := by
  induction ws with
  | nil => rfl
  | cons w ws ih =>
      obtain ⟨path, v⟩ := w
      cases path with
      | nil => exact ih
      | cons k' ks =>
          rw [List.cons_append, under, under, ih]
          split <;> rfl

theorem mem_under {k : String} {ks : List String} {v : Json} {ws : List Write} :
    (ks, v) ∈ under k ws ↔ (k :: ks, v) ∈ ws := by
  induction ws with
  | nil => simp [under]
  | cons w ws ih =>
      obtain ⟨path, u⟩ := w
      cases path with
      | nil => simp [under, ih]
      | cons k' ks' =>
          rw [under]
          by_cases hk : k' = k
          · subst hk
            simp [ih]
          · simp [hk, Ne.symm hk, ih]

/-- No assignment of the list is to the document itself. -/
def Deep (ws : List Write) : Prop := ∀ w ∈ ws, w.1 ≠ []

theorem Deep.tail {w : Write} {ws : List Write} (h : Deep (w :: ws)) : Deep ws :=
  fun u hu => h u (List.mem_cons_of_mem w hu)

/-- The keys of an object, in order. -/
def InOrder (fields : List (String × Json)) : Prop := (fields.map Prod.fst).Pairwise (· < ·)

theorem mem_keys_setField {k key : String} {v : Json} {fields : List (String × Json)}
    (h : k ∈ (setField key v fields).map Prod.fst) : k = key ∨ k ∈ fields.map Prod.fst := by
  induction fields with
  | nil =>
      rw [setField, List.map_singleton, List.mem_singleton] at h
      exact Or.inl h
  | cons kv rest ih =>
      obtain ⟨k', u⟩ := kv
      rw [setField] at h
      split at h
      · exact Or.inr h
      · split at h
        · exact List.mem_cons.mp h
        · rcases List.mem_cons.mp h with h | h
          · exact Or.inr (h ▸ List.mem_cons_self)
          · exact (ih h).imp_right (List.mem_cons_of_mem _)

theorem InOrder.setField {fields : List (String × Json)} (h : InOrder fields) (key : String)
    (v : Json) : InOrder (Json.setField key v fields) := by
  induction fields with
  | nil => exact List.pairwise_singleton _ _
  | cons kv rest ih =>
      obtain ⟨k, u⟩ := kv
      obtain ⟨hhead, htail⟩ := List.pairwise_cons.mp h
      rw [Json.setField]
      split
      · exact h
      · next hne =>
        split
        · next hlt =>
          refine List.pairwise_cons.mpr ⟨fun q hq => ?_, h⟩
          rcases List.mem_cons.mp hq with rfl | hq
          · exact hlt
          · exact lt_trans hlt (hhead q hq)
        · next hle =>
          refine List.pairwise_cons.mpr ⟨fun q hq => ?_, ih htail⟩
          rcases mem_keys_setField hq with rfl | hq
          · exact lt_of_le_of_ne (not_lt.mp hle) hne
          · exact hhead q hq

/-- Two objects with the same members are the same. -/
theorem InOrder.ext {a b : List (String × Json)} (ha : InOrder a) (hb : InOrder b)
    (h : ∀ k, field k a = field k b) : a = b := by
  have hnodup : ∀ {l : List (String × Json)}, InOrder l → (l.map Prod.fst).Nodup :=
    fun hl => hl.imp fun hlt => ne_of_lt hlt
  have hmem : ∀ kv, kv ∈ a ↔ kv ∈ b := by
    rintro ⟨k, v⟩
    constructor
    · intro hkv
      exact mem_of_field ((h k).symm.trans (field_of_mem (hnodup ha) hkv))
    · intro hkv
      exact mem_of_field ((h k).trans (field_of_mem (hnodup hb) hkv))
  have hperm : a.Perm b :=
    (List.perm_ext_iff_of_nodup (List.Nodup.of_map _ (hnodup ha))
      (List.Nodup.of_map _ (hnodup hb))).mpr hmem
  exact List.Perm.eq_of_pairwise (fun _ _ _ _ h1 h2 => absurd h2 (lt_asymm h1))
    (List.pairwise_map.mp ha) (List.pairwise_map.mp hb) hperm

/-- The members after assignments: below each key, those of the key. -/
theorem assignAll_fields {ws : List Write} (hdeep : Deep ws) {j j' : Json}
    {fields : List (String × Json)} (hf : objectFields j = some fields)
    (h : assignAll ws j = some j') :
    ∃ fields', objectFields j' = some fields' ∧ (ws ≠ [] → j' = .obj fields') ∧
      (InOrder fields → InOrder fields') ∧
      ∀ k, field k fields' = if under k ws = [] then field k fields
        else assignAll (under k ws) ((field k fields).getD .null) := by
  induction ws generalizing j fields with
  | nil =>
      cases h
      exact ⟨fields, hf, fun hne => absurd rfl hne, id, fun k => (if_pos rfl).symm⟩
  | cons w ws ih =>
      obtain ⟨path, v⟩ := w
      cases path with
      | nil => exact absurd rfl (hdeep _ List.mem_cons_self)
      | cons k ks =>
          rw [assignAll, assign, hf, Option.bind_some, Option.bind_eq_some_iff] at h
          obtain ⟨j1, hj1, h⟩ := h
          obtain ⟨c, hc, rfl⟩ := Option.map_eq_some_iff.mp hj1
          obtain ⟨fields', hfields', hobj, hordered, hfield⟩ := ih hdeep.tail rfl h
          refine ⟨fields', hfields', fun _ => ?_, fun hin => hordered (hin.setField k c), fun q => ?_⟩
          · cases ws with
            | nil =>
                cases h
                cases hfields'
                rfl
            | cons w ws => exact hobj (List.cons_ne_nil _ _)
          · rw [hfield q, field_setField, under]
            by_cases hq : q = k
            · subst hq
              rw [if_pos rfl, if_pos rfl, if_neg (List.cons_ne_nil _ _), assignAll, hc,
                Option.bind_some, Option.getD_some]
              split
              · next hnil =>
                rw [hnil]
                rfl
              · rfl
            · rw [if_neg hq, if_neg (Ne.symm hq)]

/-- Assignments that succeed below every key succeed. -/
theorem assignAll_isSome {ws : List Write} (hdeep : Deep ws) {j : Json}
    {fields : List (String × Json)} (hf : objectFields j = some fields)
    (h : ∀ k, (assignAll (under k ws) ((field k fields).getD .null)).isSome = true) :
    (assignAll ws j).isSome = true := by
  induction ws generalizing j fields with
  | nil => rfl
  | cons w ws ih =>
      obtain ⟨path, v⟩ := w
      cases path with
      | nil => exact absurd rfl (hdeep _ List.mem_cons_self)
      | cons k ks =>
          have hk := h k
          rw [under, if_pos rfl, assignAll] at hk
          cases hc : assign ks v ((field k fields).getD .null) with
          | none =>
              rw [hc] at hk
              cases hk
          | some c =>
              rw [hc, Option.bind_some] at hk
              rw [assignAll, assign, hf, Option.bind_some, hc, Option.map_some, Option.bind_some]
              refine ih hdeep.tail rfl fun q => ?_
              rw [field_setField]
              by_cases hq : q = k
              · rw [if_pos hq, hq]
                exact hk
              · have hq' := h q
                rw [under, if_neg (Ne.symm hq)] at hq'
                rw [if_neg hq]
                exact hq'

theorem assignAll_none {ws : List Write} (hdeep : Deep ws) (hne : ws ≠ []) {j : Json}
    (hj : objectFields j = none) : assignAll ws j = none := by
  cases ws with
  | nil => exact absurd rfl hne
  | cons w ws =>
      obtain ⟨path, v⟩ := w
      cases path with
      | nil => exact absurd rfl (hdeep _ List.mem_cons_self)
      | cons k ks =>
          rw [assignAll, assign, hj]
          rfl

/-! ## Assignments below one key -/

theorem setField_setField (key : String) (v u : Json) (fields : List (String × Json)) :
    setField key v (setField key u fields) = setField key v fields := by
  induction fields with
  | nil => simp [setField]
  | cons kv rest ih =>
      obtain ⟨k, w⟩ := kv
      rw [setField, setField]
      by_cases hk : k = key
      · rw [if_pos hk, if_pos hk, setField, if_pos hk]
      · rw [if_neg hk, if_neg hk]
        by_cases hlt : key < k
        · rw [if_pos hlt, if_pos hlt, setField, if_pos rfl]
        · rw [if_neg hlt, if_neg hlt, setField, if_neg hk, if_neg hlt, ih]

def writesBelow (k : String) (ws : List Write) : List Write := ws.map fun w => (k :: w.1, w.2)

/-- Assignments below a key are assignments to its member. -/
theorem assignAll_below (k : String) {ws : List Write} (hne : ws ≠ []) {j : Json}
    {fields : List (String × Json)} (hf : objectFields j = some fields) :
    assignAll (writesBelow k ws) j
      = (assignAll ws ((field k fields).getD .null)).map fun c => .obj (setField k c fields) := by
  induction ws generalizing j fields with
  | nil => exact absurd rfl hne
  | cons w ws ih =>
      rw [writesBelow, List.map_cons, assignAll, assignAll, assign, hf, Option.bind_some]
      cases assign w.1 w.2 ((field k fields).getD .null) with
      | none => rfl
      | some c =>
          rw [Option.map_some, Option.bind_some, Option.bind_some]
          cases ws with
          | nil => rfl
          | cons u us =>
              have htail := ih (List.cons_ne_nil u us)
                (show objectFields (.obj (setField k c fields)) = some (setField k c fields) from rfl)
              rw [field_setField, if_pos rfl, Option.getD_some] at htail
              simp only [setField_setField] at htail
              exact htail

/-- What is found along a path of keys. -/
def valueAt : List String → Json → Option Json
  | [], j => some j
  | k :: ks, j => ((objectFields j).bind (field k)).bind (valueAt ks)

theorem assign_valueAt {path : List String} {v j j' : Json} (h : assign path v j = some j') :
    valueAt path j' = some v := by
  induction path generalizing j j' with
  | nil => exact h.symm
  | cons k ks ih =>
      obtain ⟨fields, -, hc⟩ := Option.bind_eq_some_iff.mp h
      obtain ⟨c, hassign, rfl⟩ := Option.map_eq_some_iff.mp hc
      rw [valueAt, objectFields, Option.bind_some, field_setField, if_pos rfl]
      exact ih hassign

/-- Assignments below other keys leave a value. -/
theorem assignAll_valueAt {k : String} {ks : List String} {ws : List Write} (hdeep : Deep ws)
    (hapart : under k ws = []) {j j' : Json} (h : assignAll ws j = some j') :
    valueAt (k :: ks) j' = valueAt (k :: ks) j := by
  by_cases hne : ws = []
  · subst hne
    cases h
    rfl
  · cases hf : objectFields j with
    | none =>
        rw [assignAll_none hdeep hne hf] at h
        cases h
    | some fields =>
        obtain ⟨fields', hf', -, -, hfield⟩ := assignAll_fields hdeep hf h
        rw [valueAt, valueAt, hf, hf', Option.bind_some, Option.bind_some, hfield k, if_pos hapart]

/-! ## Assignments that do not lead through one another -/

def PrefixFree (ws : List Write) : Prop :=
  ∀ w ∈ ws, ∀ u ∈ ws, w.1 <+: u.1 → w.1 = u.1

theorem PrefixFree.under {ws : List Write} (h : PrefixFree ws) (k : String) :
    PrefixFree (under k ws) := by
  rintro ⟨p, v⟩ hp ⟨q, u⟩ hq hstarts
  have heq := h _ (mem_under.mp hp) _ (mem_under.mp hq) (List.cons_prefix_cons.mpr ⟨rfl, hstarts⟩)
  exact (List.cons.injEq .. ▸ heq).2

/-- Beside an assignment to the document itself there are no others. -/
theorem PrefixFree.deep_or_flat {ws : List Write} (h : PrefixFree ws) :
    Deep ws ∨ ∀ w ∈ ws, w.1 = [] := by
  by_cases hdeep : Deep ws
  · exact Or.inl hdeep
  · right
    simp only [Deep, not_forall, not_not] at hdeep
    obtain ⟨w, hw, hnil⟩ := hdeep
    intro u hu
    have heq := h w hw u hu (hnil ▸ List.nil_prefix)
    rw [← heq, hnil]

/-- An assignment to the document itself leaves nothing of it. -/
theorem assignAll_flat {ws : List Write} (hflat : ∀ w ∈ ws, w.1 = []) (hne : ws ≠ []) (j j' : Json) :
    assignAll ws j = assignAll ws j' := by
  cases ws with
  | nil => exact absurd rfl hne
  | cons w ws =>
      rw [assignAll, assignAll, hflat w List.mem_cons_self]
      rfl

theorem assignAll_flat_isSome {ws : List Write} (hflat : ∀ w ∈ ws, w.1 = []) (j : Json) :
    (assignAll ws j).isSome = true := by
  induction ws generalizing j with
  | nil => rfl
  | cons w ws ih =>
      rw [assignAll, hflat w List.mem_cons_self]
      exact ih (fun u hu => hflat u (List.mem_cons_of_mem w hu)) w.2

theorem assignAll_null_of_length {n : Nat} {ws : List Write} (h : PrefixFree ws)
    (hlength : ∀ w ∈ ws, w.1.length ≤ n) : (assignAll ws .null).isSome = true := by
  induction n generalizing ws with
  | zero =>
      refine assignAll_flat_isSome (fun w hw => ?_) .null
      exact List.length_eq_zero_iff.mp (Nat.le_zero.mp (hlength w hw))
  | succ n ih =>
      rcases h.deep_or_flat with hdeep | hflat
      · refine assignAll_isSome hdeep (show objectFields .null = some [] from rfl)
          fun k => ih (h.under k) ?_
        rintro ⟨p, v⟩ hp
        exact Nat.le_of_succ_le_succ (hlength _ (mem_under.mp hp))
      · exact assignAll_flat_isSome hflat .null

/-- From nothing, the assignments succeed. -/
theorem assignAll_null {ws : List Write} (h : PrefixFree ws) : (assignAll ws .null).isSome = true := by
  obtain ⟨n, hn⟩ : ∃ n, ∀ w ∈ ws, w.1.length ≤ n := by
    clear h
    induction ws with
    | nil => exact ⟨0, by simp⟩
    | cons u ws ih =>
        obtain ⟨n, hn⟩ := ih
        refine ⟨max u.1.length n, fun w hw => ?_⟩
        rcases List.mem_cons.mp hw with rfl | hw
        · exact le_max_left _ _
        · exact (hn w hw).trans (le_max_right _ _)
  exact assignAll_null_of_length h hn

/-- The assignments leave nothing of a document: it is missing, it is assigned as a whole,
    or it is an object and they do so below each of its keys. -/
inductive Covered : List Write → Json → Prop
  | null {ws : List Write} : Covered ws .null
  | whole {ws : List Write} {j : Json} (v : Json) (h : ([], v) ∈ ws) : Covered ws j
  | members {ws : List Write} {fields : List (String × Json)} (hne : ws ≠ [])
      (hkeys : ∀ kv ∈ fields, under kv.1 ws ≠ [])
      (h : ∀ kv ∈ fields, Covered (under kv.1 ws) kv.2) : Covered ws (.obj fields)

theorem covered_of_flat {ws : List Write} (hflat : ∀ w ∈ ws, w.1 = []) (hne : ws ≠ []) (j : Json) :
    Covered ws j := by
  obtain ⟨w, ws', rfl⟩ := List.exists_cons_of_ne_nil hne
  refine .whole w.2 ?_
  rw [← hflat w List.mem_cons_self]
  exact List.mem_cons_self

/-- A value that is no object is not covered by assignments below it. -/
theorem assignAll_eq_iff_of_plain {ws : List Write} (h : PrefixFree ws) {j : Json}
    (hj : objectFields j = none) : assignAll ws j = assignAll ws .null ↔ Covered ws j := by
  have hnull : j ≠ .null := by
    rintro rfl
    cases hj
  by_cases hne : ws = []
  · subst hne
    refine iff_of_false (fun heq => hnull (Option.some.inj heq)) fun hcovered => ?_
    cases hcovered with
    | null => exact hnull rfl
    | whole v hv => cases hv
    | members hne _ _ => exact hne rfl
  · rcases h.deep_or_flat with hdeep | hflat
    · refine iff_of_false (fun heq => ?_) fun hcovered => ?_
      · have hsome := assignAll_null h
        rw [← heq, assignAll_none hdeep hne hj] at hsome
        cases hsome
      · cases hcovered with
        | null => exact hnull rfl
        | whole v hv => exact hdeep _ hv rfl
        | members _ _ _ => cases hj
    · exact iff_of_true (assignAll_flat hflat hne j .null) (covered_of_flat hflat hne j)

/-- Below each key of an object, what is assigned there or else what was there. -/
theorem assignAll_under {ws : List Write} {fields : List (String × Json)}
    (h : ∀ kv ∈ fields, assignAll (under kv.1 ws) kv.2 = assignAll (under kv.1 ws) .null) (k : String) :
    assignAll (under k ws) ((field k fields).getD .null)
      = if under k ws = [] then some ((field k fields).getD .null) else assignAll (under k ws) .null := by
  split
  · next hnil =>
    rw [hnil]
    rfl
  · cases hk : field k fields with
    | none => rfl
    | some v => exact h _ (mem_of_field hk)

/-- An object whose members are covered is. -/
theorem assignAll_eq_of_members {ws : List Write} (h : PrefixFree ws) (hdeep : Deep ws) (hne : ws ≠ [])
    {fields : List (String × Json)} (hordered : InOrder fields)
    (hkeys : ∀ kv ∈ fields, under kv.1 ws ≠ [])
    (hmembers : ∀ kv ∈ fields, assignAll (under kv.1 ws) kv.2 = assignAll (under kv.1 ws) .null) :
    assignAll ws (.obj fields) = assignAll ws .null := by
  obtain ⟨r, hr⟩ := Option.isSome_iff_exists.mp (assignAll_null h)
  obtain ⟨fresh, -, hobj, hinOrder, hfield⟩ :=
    assignAll_fields hdeep (show objectFields .null = some [] from rfl) hr
  obtain rfl := hobj hne
  have hsome : (assignAll ws (.obj fields)).isSome = true := by
    refine assignAll_isSome hdeep rfl fun k => ?_
    rw [assignAll_under hmembers k]
    split
    · rfl
    · exact assignAll_null (h.under k)
  obtain ⟨r', hr'⟩ := Option.isSome_iff_exists.mp hsome
  obtain ⟨fields', -, hobj', hinOrder', hfield'⟩ := assignAll_fields hdeep rfl hr'
  obtain rfl := hobj' hne
  rw [hr, hr', (hinOrder' hordered).ext (hinOrder List.Pairwise.nil)]
  intro k
  rw [hfield' k, hfield k]
  split
  · next hnil =>
    cases hk : field k fields with
    | none => rfl
    | some v => exact absurd hnil (hkeys _ (mem_of_field hk))
  · next hcons =>
    rw [assignAll_under hmembers k, if_neg hcons]
    rfl

/-- An object of which nothing is left has only keys that are assigned to, and nothing is left of
    its members. -/
theorem members_of_assignAll_eq {ws : List Write} (h : PrefixFree ws) (hdeep : Deep ws) (hne : ws ≠ [])
    {fields : List (String × Json)} (hordered : InOrder fields)
    (heq : assignAll ws (.obj fields) = assignAll ws .null) {kv : String × Json} (hkv : kv ∈ fields) :
    under kv.1 ws ≠ [] ∧ assignAll (under kv.1 ws) kv.2 = assignAll (under kv.1 ws) .null := by
  have hfound : field kv.1 fields = some kv.2 :=
    field_of_mem (hordered.imp fun hlt => ne_of_lt hlt) hkv
  obtain ⟨r, hr⟩ := Option.isSome_iff_exists.mp (assignAll_null h)
  obtain ⟨fresh, -, hobj, -, hfield⟩ :=
    assignAll_fields hdeep (show objectFields .null = some [] from rfl) hr
  obtain rfl := hobj hne
  obtain ⟨fields', hfields', -, -, hfield'⟩ := assignAll_fields hdeep rfl (heq.trans hr)
  obtain rfl : fresh = fields' := Option.some.inj hfields'
  have hkept := (hfield' kv.1).symm.trans (hfield kv.1)
  rw [hfound] at hkept
  by_cases hnil : under kv.1 ws = []
  · rw [if_pos hnil, if_pos hnil] at hkept
    cases hkept
  · rw [if_neg hnil, if_neg hnil] at hkept
    exact ⟨hnil, hkept⟩

/-- An object is covered when its members are. -/
theorem assignAll_eq_iff_of_obj {ws : List Write} (h : PrefixFree ws) (hdeep : Deep ws)
    (hne : ws ≠ []) {fields : List (String × Json)} (hordered : InOrder fields)
    (hmembers : ∀ kv ∈ fields, assignAll (under kv.1 ws) kv.2 = assignAll (under kv.1 ws) .null ↔
      Covered (under kv.1 ws) kv.2) :
    assignAll ws (.obj fields) = assignAll ws .null ↔ Covered ws (.obj fields) := by
  constructor
  · intro heq
    have hleft := fun kv hkv => @members_of_assignAll_eq ws h hdeep hne fields hordered heq kv hkv
    exact .members hne (fun kv hkv => (hleft kv hkv).1) fun kv hkv => (hmembers kv hkv).mp (hleft kv hkv).2
  · intro hcovered
    cases hcovered with
    | whole v hv => exact absurd rfl (hdeep _ hv)
    | members _ hkeys hcovered =>
        exact assignAll_eq_of_members h hdeep hne hordered hkeys
          fun kv hkv => (hmembers kv hkv).mpr (hcovered kv hkv)

/-- What the assignments leave does not depend on a document exactly when it is covered. -/
theorem assignAll_eq_iff {ws : List Write} (h : PrefixFree ws) {j : Json} (hordered : Ordered j) :
    assignAll ws j = assignAll ws .null ↔ Covered ws j := by
  induction j using tree_induction generalizing ws with
  | plain j harr hobj =>
      cases j with
      | null => exact iff_of_true rfl .null
      | obj fields => cases hobj
      | _ => exact assignAll_eq_iff_of_plain h rfl
  | arr l ih => exact assignAll_eq_iff_of_plain h rfl
  | obj fields ih =>
      by_cases hne : ws = []
      · subst hne
        refine iff_of_false (fun heq => ?_) fun hcovered => ?_
        · cases heq
        · cases hcovered with
          | whole v hv => cases hv
          | members hne _ _ => exact hne rfl
      · rcases h.deep_or_flat with hdeep | hflat
        · refine assignAll_eq_iff_of_obj h hdeep hne (hordered fields .here) fun kv hkv => ?_
          exact ih kv hkv (h.under kv.1) fun fs hin => hordered fs (.member hkv hin)
        · exact iff_of_true (assignAll_flat hflat hne _ .null) (covered_of_flat hflat hne _)

/-! ## What assignments keep -/

theorem ordered_obj {fields : List (String × Json)} (hkeys : InOrder fields)
    (h : ∀ kv ∈ fields, Ordered kv.2) : Ordered (.obj fields) := by
  intro fs hin
  cases hin with
  | here => exact hkeys
  | member hkv hin => exact h _ hkv fs hin

theorem mem_setField {key : String} {v : Json} {fields : List (String × Json)} {kv : String × Json}
    (h : kv ∈ setField key v fields) : kv.2 = v ∨ kv ∈ fields := by
  induction fields with
  | nil =>
      rw [setField, List.mem_singleton] at h
      exact Or.inl (congrArg Prod.snd h)
  | cons head rest ih =>
      obtain ⟨k, u⟩ := head
      rw [setField] at h
      split at h
      · rcases List.mem_cons.mp h with rfl | h
        · exact Or.inl rfl
        · exact Or.inr (List.mem_cons_of_mem _ h)
      · split at h
        · rcases List.mem_cons.mp h with rfl | h
          · exact Or.inl rfl
          · exact Or.inr h
        · rcases List.mem_cons.mp h with rfl | h
          · exact Or.inr List.mem_cons_self
          · exact (ih h).imp_right (List.mem_cons_of_mem _)

theorem Ordered.assign {path : List String} {v j j' : Json} (hv : Ordered v) (hj : Ordered j)
    (h : Json.assign path v j = some j') : Ordered j' := by
  induction path generalizing j j' with
  | nil => exact Option.some.inj h ▸ hv
  | cons k ks ih =>
      obtain ⟨fields, hf, hc⟩ := Option.bind_eq_some_iff.mp h
      obtain ⟨c, hassign, rfl⟩ := Option.map_eq_some_iff.mp hc
      have hnull : Ordered .null := fun fs hin => by cases hin
      have hfields : InOrder fields ∧ ∀ kv ∈ fields, Ordered kv.2 := by
        cases j with
        | null =>
            cases hf
            exact ⟨List.Pairwise.nil, fun kv hkv => by cases hkv⟩
        | obj fields' =>
            cases hf
            exact ⟨hj fields .here, fun kv hkv fs hin => hj fs (.member hkv hin)⟩
        | _ => cases hf
      have hmember : Ordered ((field k fields).getD .null) := by
        cases hk : field k fields with
        | none => exact hnull
        | some u => exact hfields.2 _ (mem_of_field hk)
      refine ordered_obj (hfields.1.setField k c) fun kv hkv => ?_
      rcases mem_setField hkv with heq | hkv
      · exact heq ▸ ih hmember hassign
      · exact hfields.2 kv hkv

theorem Ordered.assignThrough {ws : List Write} (hws : ∀ w ∈ ws, Ordered w.2) {j : Json}
    (hj : Ordered j) : Ordered (assignThrough ws j).1 := by
  induction ws generalizing j with
  | nil => exact hj
  | cons w ws ih =>
      rw [Json.assignThrough]
      cases hassign : Json.assign w.1 w.2 j with
      | none => exact hj
      | some j' =>
          exact ih (fun u hu => hws u (List.mem_cons_of_mem w hu))
            ((hws w List.mem_cons_self).assign hj hassign)

/-- Where there is a value, there can be another one. -/
theorem assign_of_valueAt {path : List String} {u j : Json} (h : valueAt path j = some u) (v : Json) :
    (assign path v j).isSome = true := by
  induction path generalizing j with
  | nil => rfl
  | cons k ks ih =>
      obtain ⟨c, hk, hc⟩ := Option.bind_eq_some_iff.mp h
      obtain ⟨fields, hf, hfield⟩ := Option.bind_eq_some_iff.mp hk
      rw [assign, hf, Option.bind_some, Option.isSome_map, hfield, Option.getD_some]
      exact ih hc

/-- An assignment that does not lead to a value leaves one there. -/
theorem assign_keeps {path other : List String} (hstarts : path <+: other → path = other)
    {v u j j' : Json} (hu : valueAt other j = some u) (h : assign path v j = some j') :
    (valueAt other j').isSome = true := by
  induction path generalizing other j j' with
  | nil =>
      rw [← hstarts List.nil_prefix]
      rfl
  | cons k ks ih =>
      cases other with
      | nil => rfl
      | cons k' ks' =>
          obtain ⟨fields, hf, hc⟩ := Option.bind_eq_some_iff.mp h
          obtain ⟨c, hassign, rfl⟩ := Option.map_eq_some_iff.mp hc
          obtain ⟨d, hk, hd⟩ := Option.bind_eq_some_iff.mp hu
          rw [hf, Option.bind_some] at hk
          rw [valueAt, objectFields, Option.bind_some, field_setField]
          by_cases hsame : k' = k
          · subst hsame
            rw [hk, Option.getD_some] at hassign
            rw [if_pos rfl, Option.bind_some]
            refine ih (fun hpre => ?_) hd hassign
            exact (List.cons.inj (hstarts (List.cons_prefix_cons.mpr ⟨rfl, hpre⟩))).2
          · rw [if_neg hsame, hk, Option.bind_some, hd]
            rfl

theorem assignAll_keeps {ws : List Write} {other : List String}
    (hstarts : ∀ w ∈ ws, w.1 <+: other → w.1 = other) {u j j' : Json}
    (hu : valueAt other j = some u) (h : assignAll ws j = some j') :
    (valueAt other j').isSome = true := by
  induction ws generalizing j u with
  | nil =>
      cases h
      rw [hu]
      rfl
  | cons w ws ih =>
      obtain ⟨j1, hassign, hrest⟩ := Option.bind_eq_some_iff.mp h
      obtain ⟨u', hu'⟩ := Option.isSome_iff_exists.mp
        (assign_keeps (hstarts w List.mem_cons_self) hu hassign)
      exact ih (fun x hx => hstarts x (List.mem_cons_of_mem w hx)) hu' hrest

/-- After assignments that do not lead through one another, each of them has its value. -/
theorem PrefixFree.valueAt_isSome {ws : List Write} (h : PrefixFree ws) {w : Write} (hw : w ∈ ws)
    {j j' : Json} (hall : assignAll ws j = some j') : (valueAt w.1 j').isSome = true := by
  obtain ⟨before, after, rfl⟩ := List.append_of_mem hw
  rw [assignAll_append] at hall
  obtain ⟨j1, -, hall⟩ := Option.bind_eq_some_iff.mp hall
  obtain ⟨j2, hassign, hall⟩ := Option.bind_eq_some_iff.mp hall
  refine assignAll_keeps (fun x hx => ?_) (assign_valueAt hassign) hall
  exact h x (List.mem_append_right _ (List.mem_cons_of_mem w hx)) w hw

theorem assignThrough_stopped {ws : List Write} {j j' : Json} (h : assignThrough ws j = (j', false)) :
    ∃ w ∈ ws, assign w.1 w.2 j' = none := by
  induction ws generalizing j with
  | nil => cases h
  | cons w ws ih =>
      rw [assignThrough] at h
      cases hassign : assign w.1 w.2 j with
      | none =>
          rw [hassign] at h
          exact ⟨w, List.mem_cons_self, (Prod.mk.inj h).1 ▸ hassign⟩
      | some j1 =>
          rw [hassign] at h
          obtain ⟨u, hu, hnone⟩ := ih h
          exact ⟨u, List.mem_cons_of_mem w hu, hnone⟩

/-- What an exception leaves is not what the assignments would have left. -/
theorem assignThrough_fst_eq_iff {ws : List Write} (h : PrefixFree ws) {j : Json}
    (hordered : Ordered j) :
    (assignThrough ws j).1 = (assignThrough ws .null).1 ↔ Covered ws j := by
  rw [← assignAll_eq_iff h hordered]
  obtain ⟨r, hr⟩ := Option.isSome_iff_exists.mp (assignAll_null h)
  rw [hr, assignThrough_eq_some.mpr hr, ← assignThrough_eq_some]
  rcases hthrough : assignThrough ws j with ⟨j', ok⟩
  cases ok with
  | true => simp
  | false =>
      refine iff_of_false (fun heq => ?_) fun heq => ?_
      · obtain rfl : j' = r := heq
        obtain ⟨w, hw, hnone⟩ := assignThrough_stopped hthrough
        obtain ⟨u, hu⟩ := Option.isSome_iff_exists.mp (h.valueAt_isSome hw hr)
        have hsome := assign_of_valueAt hu w.2
        rw [hnone] at hsome
        cases hsome
      · cases heq

end Json

end JsonValue
