import Mathlib.Data.List.AList
import H2agent.KeyedListProofs

/-! # Listing a map

    A map whose values know their keys, listed in some order.

    * `Keyed` — every value stands under its own key;
    * `Iteration` — the order in which a map is walked, which nothing fixes;
    * `lookup_refilled` — a map made of changed values, in any order, has them under the
      keys they had. -/

namespace MapListing

variable {κ α : Type} [DecidableEq κ]

/-- The values of a map, those whose keys came last at the end. -/
def values (m : AList (fun _ : κ => α)) : List α := m.entries.reverse.map Sigma.snd

/-- Every value stands under its own key. -/
def Keyed (key : α → κ) (m : AList (fun _ : κ => α)) : Prop :=
  ∀ k x, m.lookup k = some x → key x = k

/-- The order in which values are walked. -/
structure Iteration (α : Type) where
  walk : List α → List α
  perm : ∀ l, (walk l).Perm l

omit [DecidableEq κ] in
theorem values_empty : values (∅ : AList (fun _ : κ => α)) = [] := rfl

/-- A new key comes last. -/
theorem values_insert_of_new {m : AList (fun _ : κ => α)} {k : κ} (h : k ∉ m) (x : α) :
    values (m.insert k x) = values m ++ [x] := by
  unfold values
  rw [AList.insert_of_notMem h]
  simp

variable {key : α → κ} {m : AList (fun _ : κ => α)}

theorem keyed_empty : Keyed key (∅ : AList (fun _ : κ => α)) := by
  intro k x h
  rw [AList.lookup_empty] at h
  cases h

/-- A value put under its key. -/
theorem Keyed.insert (h : Keyed key m) (x : α) : Keyed key (m.insert (key x) x) := by
  intro k y hy
  by_cases hk : k = key x
  · rw [hk, AList.lookup_insert] at hy
    rw [hk, Option.some.inj hy]
  · rw [AList.lookup_insert_ne hk] at hy
    exact h k y hy

/-- The keys of the values are those of the map. -/
theorem Keyed.keys (h : Keyed key m) : (values m).map key = m.keys.reverse := by
  unfold values AList.keys List.keys
  rw [List.map_map, ← List.map_reverse]
  refine List.map_congr_left ?_
  intro e he
  have hmem : e ∈ m.entries := List.mem_reverse.mp he
  exact h e.1 e.2 (AList.mem_lookup_iff.mpr hmem)

theorem Keyed.nodup (h : Keyed key m) : ((values m).map key).Nodup := by
  rw [h.keys]
  exact List.nodup_reverse.mpr m.nodupKeys

/-- A value is in the map when it is found under its key. -/
theorem Keyed.mem_values (h : Keyed key m) (x : α) :
    x ∈ values m ↔ m.lookup (key x) = some x := by
  unfold values
  rw [List.mem_map]
  constructor
  · rintro ⟨e, he, rfl⟩
    have hfound : m.lookup e.1 = some e.2 :=
      AList.mem_lookup_iff.mpr (List.mem_reverse.mp he)
    rw [h e.1 e.2 hfound]
    exact hfound
  · intro hfound
    exact ⟨⟨key x, x⟩, List.mem_reverse.mpr (AList.mem_lookup_iff.mp hfound), rfl⟩

/-- The map is read off its values. -/
theorem Keyed.lookup_eq (h : Keyed key m) (k : κ) :
    m.lookup k = KeyedList.entryOf key k (values m) := by
  cases hk : m.lookup k with
  | some x =>
      have hkey : key x = k := h k x hk
      rw [← hkey]
      exact (KeyedList.entryOf_of_mem h.nodup ((h.mem_values x).mpr (by rw [hkey, hk]))).symm
  | none =>
      symm
      rw [KeyedList.entryOf, List.find?_eq_none]
      intro x hx hkey
      have hfound := (h.mem_values x).mp hx
      rw [decide_eq_true_iff] at hkey
      rw [hkey, hk] at hfound
      cases hfound

/-- Values in another order are found just so. -/
theorem entryOf_perm {l l' : List α} (hnodup : (l.map key).Nodup) (hperm : l'.Perm l) (k : κ) :
    KeyedList.entryOf key k l' = KeyedList.entryOf key k l := by
  have hnodup' : (l'.map key).Nodup := (hperm.map key).nodup_iff.mpr hnodup
  cases hk : KeyedList.entryOf key k l with
  | some x =>
      have hkey : key x = k := by
        have := List.find?_some hk
        rwa [decide_eq_true_iff] at this
      rw [← hkey]
      exact KeyedList.entryOf_of_mem hnodup' (hperm.mem_iff.mpr (List.mem_of_find?_eq_some hk))
  | none =>
      rw [KeyedList.entryOf, List.find?_eq_none] at hk ⊢
      exact fun x hx => hk x (hperm.mem_iff.mp hx)

/-- What is found among changed values is what was found, changed. -/
theorem entryOf_map {β : Type} {key' : β → κ} {f : α → β} {l : List α}
    (hkey : ∀ x ∈ l, key' (f x) = key x) (k : κ) :
    KeyedList.entryOf key' k (l.map f) = (KeyedList.entryOf key k l).map f := by
  induction l with
  | nil => rfl
  | cons x l ih =>
      have htail := ih fun y hy => hkey y (List.mem_cons_of_mem x hy)
      have hx : key' (f x) = key x := hkey x List.mem_cons_self
      unfold KeyedList.entryOf at htail ⊢
      rw [List.map_cons, List.find?_cons, List.find?_cons, hx]
      cases decide (key x = k) with
      | true => rfl
      | false => exact htail

/-- A map that holds the changed values, in any order, has them under the old keys. -/
theorem Keyed.lookup_refilled {β : Type} {key' : β → κ} {f : α → β} (h : Keyed key m)
    {l : List α} (hperm : l.Perm (values m)) (hkey : ∀ x ∈ values m, key' (f x) = key x)
    {m' : AList (fun _ : κ => β)} (h' : Keyed key' m') (hvalues : (values m').Perm (l.map f))
    (k : κ) : m'.lookup k = (m.lookup k).map f := by
  have hlisted : ∀ x ∈ l, key' (f x) = key x := fun x hx => hkey x (hperm.mem_iff.mp hx)
  calc m'.lookup k = KeyedList.entryOf key' k (values m') := h'.lookup_eq k
    _ = KeyedList.entryOf key' k (l.map f) := (entryOf_perm h'.nodup hvalues.symm k).symm
    _ = (KeyedList.entryOf key k l).map f := entryOf_map hlisted k
    _ = (KeyedList.entryOf key k (values m)).map f := by rw [entryOf_perm h.nodup hperm]
    _ = (m.lookup k).map f := by rw [← h.lookup_eq k]

/-! ## Changed values -/

/-- An entry with its value changed. -/
def changed {β : Type} (f : α → β) (e : Sigma fun _ : κ => α) : Sigma fun _ : κ => β := ⟨e.1, f e.2⟩

/-- The map with each value changed. -/
def mapValues {β : Type} (f : α → β) (m : AList (fun _ : κ => α)) : AList (fun _ : κ => β) where
  entries := m.entries.map (changed f)
  nodupKeys := by
    show ((m.entries.map (changed f)).map Sigma.fst).Nodup
    rw [List.map_map]
    exact m.nodupKeys

variable {β : Type} (f : α → β) (m)

theorem lookup_mapValues (k : κ) : (mapValues f m).lookup k = (m.lookup k).map f := by
  cases hk : m.lookup k with
  | some x =>
      refine AList.mem_lookup_iff.mpr ?_
      exact List.mem_map.mpr ⟨⟨k, x⟩, AList.mem_lookup_iff.mp hk, rfl⟩
  | none =>
      rw [AList.lookup_eq_none] at hk
      show (mapValues f m).lookup k = none
      rw [AList.lookup_eq_none]
      intro hmem
      obtain ⟨e, he, hek⟩ := List.mem_map.mp (AList.mem_keys.mp hmem)
      obtain ⟨x, hx, rfl⟩ := List.mem_map.mp he
      exact hk (AList.mem_keys.mpr (List.mem_map.mpr ⟨x, hx, hek⟩))

/-- An erased key is erased among the changed entries. -/
theorem kerase_map_changed (k : κ) (l : List (Sigma fun _ : κ => α)) :
    (l.map (changed f)).kerase k = (l.kerase k).map (changed f) := by
  induction l with
  | nil => rfl
  | cons e l ih =>
      rw [List.map_cons]
      by_cases hk : k = e.1
      · rw [List.kerase_cons_eq hk, List.kerase_cons_eq (s := changed f e) hk]
      · rw [List.kerase_cons_ne hk, List.kerase_cons_ne (s := changed f e) hk, ih, List.map_cons]

omit [DecidableEq κ] in
theorem values_mapValues : values (mapValues f m) = (values m).map f := by
  show (m.entries.map (changed f)).reverse.map Sigma.snd = (m.entries.reverse.map Sigma.snd).map f
  rw [← List.map_reverse, List.map_map, List.map_map]
  rfl

theorem mapValues_insert (k : κ) (x : α) :
    mapValues f (m.insert k x) = (mapValues f m).insert k (f x) := by
  refine AList.ext ?_
  show (⟨k, x⟩ :: m.entries.kerase k).map (changed f)
    = ⟨k, f x⟩ :: (m.entries.map (changed f)).kerase k
  rw [List.map_cons, kerase_map_changed]
  rfl

end MapListing
