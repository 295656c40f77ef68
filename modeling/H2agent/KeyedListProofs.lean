import Mathlib.Data.List.Basic

/-! # Lists with one element per key

    A list whose elements have distinct keys is a map that remembers in which order
    its keys came.  `put` replaces the element of a key where it stands, or adds a
    new one at the end.

    Nothing here is about a particular system. -/

namespace KeyedList

variable {κ α : Type} [DecidableEq κ] (key : α → κ)

/-- Put an element: in the place of the one with its key, or behind all others. -/
def put (x : α) : List α → List α
  | [] => [x]
  | y :: l => if key y = key x then x :: l else y :: put x l

/-- The element with a key. -/
def entryOf (k : κ) (l : List α) : Option α := l.find? (fun y => key y = k)

variable {key}

theorem mem_put {x y : α} {l : List α} (h : y ∈ put key x l) : y = x ∨ y ∈ l := by
  induction l with
  | nil => exact .inl (List.mem_singleton.mp h)
  | cons z l ih =>
      rw [put] at h
      split at h
      · rcases List.mem_cons.mp h with rfl | h
        · exact .inl rfl
        · exact .inr (List.mem_cons_of_mem z h)
      · rcases List.mem_cons.mp h with rfl | h
        · exact .inr List.mem_cons_self
        · exact (ih h).imp_right (List.mem_cons_of_mem z)

/-- A key that is there keeps its place, a new one comes last. -/
theorem keys_put (x : α) (l : List α) :
    (put key x l).map key
      = if key x ∈ l.map key then l.map key else l.map key ++ [key x] := by
  induction l with
  | nil => rfl
  | cons y l ih =>
      rw [put]
      by_cases hy : key y = key x
      · rw [if_pos hy, if_pos (by simp [hy])]
        simp [hy]
      · have hmem : key x ∈ (y :: l).map key ↔ key x ∈ l.map key := by
          rw [List.map_cons, List.mem_cons]
          exact ⟨fun h => h.resolve_left (fun h => hy h.symm), .inr⟩
        rw [if_neg hy, List.map_cons, ih]
        by_cases hx : key x ∈ l.map key
        · rw [if_pos hx, if_pos (hmem.mpr hx), List.map_cons]
        · rw [if_neg hx, if_neg (fun h => hx (hmem.mp h)), List.map_cons, List.cons_append]

/-- A new key comes last. -/
theorem nodup_put (x : α) {l : List α} (h : (l.map key).Nodup) :
    ((put key x l).map key).Nodup := by
  rw [keys_put]
  split
  · exact h
  · next hx =>
      rw [List.nodup_append]
      refine ⟨h, List.nodup_cons.mpr ⟨List.not_mem_nil, List.nodup_nil⟩, ?_⟩
      intro a ha b hb
      rw [List.mem_singleton] at hb
      rintro rfl
      exact hx (hb ▸ ha)

theorem entryOf_put (x : α) (l : List α) (k : κ) :
    entryOf key k (put key x l) = if k = key x then some x else entryOf key k l := by
  induction l with
  | nil =>
      by_cases hk : k = key x
      · rw [if_pos hk, put, entryOf, List.find?_cons_of_pos (by simp [hk])]
      · rw [if_neg hk, put, entryOf, List.find?_cons_of_neg (by simp [Ne.symm hk])]
        rfl
  | cons y l ih =>
      rw [put]
      by_cases hy : key y = key x
      · rw [if_pos hy]
        by_cases hk : k = key x
        · rw [if_pos hk, entryOf, List.find?_cons_of_pos (by simp [hk])]
        · rw [if_neg hk, entryOf, entryOf, List.find?_cons_of_neg (by simp [Ne.symm hk]),
            List.find?_cons_of_neg (by simp [hy, Ne.symm hk])]
      · rw [if_neg hy]
        by_cases hyk : key y = k
        · have hk : k ≠ key x := fun h => hy (hyk.trans h)
          rw [if_neg hk, entryOf, entryOf, List.find?_cons_of_pos (by simp [hyk]),
            List.find?_cons_of_pos (by simp [hyk])]
        · have h1 : entryOf key k (y :: put key x l) = entryOf key k (put key x l) :=
            List.find?_cons_of_neg (by simp [hyk])
          have h2 : entryOf key k (y :: l) = entryOf key k l :=
            List.find?_cons_of_neg (by simp [hyk])
          rw [h1, h2, ih]

theorem entryOf_isSome (k : κ) (l : List α) : (entryOf key k l).isSome = true ↔ k ∈ l.map key := by
  rw [entryOf, List.find?_isSome, List.mem_map]
  simp only [decide_eq_true_eq]

/-- An element is found under its key. -/
theorem entryOf_of_mem {l : List α} (h : (l.map key).Nodup) {x : α} (hx : x ∈ l) :
    entryOf key (key x) l = some x := by
  induction l with
  | nil => exact nomatch hx
  | cons y l ih =>
      rw [List.map_cons, List.nodup_cons] at h
      rcases List.mem_cons.mp hx with rfl | hx
      · exact List.find?_cons_of_pos (by simp)
      · have hne : key y ≠ key x := fun heq => h.1 (heq ▸ List.mem_map_of_mem hx)
        rw [entryOf, List.find?_cons_of_neg (by simp [hne])]
        exact ih h.2 hx

/-- Elements with one key are one element. -/
theorem eq_of_key_eq {l : List α} (h : (l.map key).Nodup) {x y : α} (hx : x ∈ l) (hy : y ∈ l)
    (hkey : key x = key y) : x = y := by
  have h1 := entryOf_of_mem h hx
  rw [hkey, entryOf_of_mem h hy] at h1
  exact (Option.some.inj h1).symm

/-- A list is read off its keys. -/
theorem filterMap_entryOf {l : List α} (h : (l.map key).Nodup) :
    (l.map key).filterMap (fun k => entryOf key k l) = l := by
  have hall : ∀ m : List α, (∀ x ∈ m, x ∈ l) →
      (m.map key).filterMap (fun k => entryOf key k l) = m := by
    intro m
    induction m with
    | nil => intro _; rfl
    | cons x m ih =>
        intro hm
        have hx : entryOf key (key x) l = some x := entryOf_of_mem h (hm x List.mem_cons_self)
        rw [List.map_cons, List.filterMap_cons, hx,
          ih (fun y hy => hm y (List.mem_cons_of_mem x hy))]
  exact hall l (fun _ hx => hx)

end KeyedList
