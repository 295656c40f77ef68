import Mathlib.Data.List.AList
import Mathlib.Data.String.Basic
import H2agent.CppTextProofs

/-! # Aggregated keys, event keys and query parameters

    `functions.cpp` and `keys.hpp`: the texts by which provisions and mock
    events are classified (`calculateStringKey`), the signed event number
    (`string2uint64andSign`), the query string split into its parameters
    (`extractQueryParameters`), and the three kinds of key built on them. -/

namespace H2Key

open CppText

/-- A map from texts to `V` (`std::map` and `std::unordered_map`; the order of
    an `unordered_map` is not specified, so nothing here depends on it). -/
abbrev TextMap (V : Type) := AList (fun _ : String => V)

section Everywhere

variable {V : Type} {P : String → V → Prop} {m : TextMap V}

/-- What holds of all entries of a map, and of a new one, holds of all entries with it. -/
theorem forall_insert (hm : ∀ k v, m.lookup k = some v → P k v) {key : String} {value : V}
    (hnew : P key value) : ∀ k v, (m.insert key value).lookup k = some v → P k v := by
  intro k v h
  by_cases hk : k = key
  · subst hk
    rw [AList.lookup_insert] at h
    exact Option.some.inj h ▸ hnew
  · rw [AList.lookup_insert_ne hk] at h
    exact hm k v h

theorem forall_erase (hm : ∀ k v, m.lookup k = some v → P k v) (key : String) :
    ∀ k v, (m.erase key).lookup k = some v → P k v := by
  intro k v h
  by_cases hk : k = key
  · subst hk
    rw [AList.lookup_erase] at h
    cases h
  · rw [AList.lookup_erase_ne hk] at h
    exact hm k v h

theorem forall_empty (P : String → V → Prop) :
    ∀ k v, (∅ : TextMap V).lookup k = some v → P k v := by
  intro k v h
  rw [AList.lookup_empty] at h
  cases h

end Everywhere

/-- `calculateStringKey`: the parts joined by `#`; an empty third part leaves
    no mark. -/
def calculateStringKey (k1 k2 k3 : String) : String :=
  if k3.isEmpty then k1 ++ "#" ++ k2 else k1 ++ "#" ++ k2 ++ "#" ++ k3

/-- `string2uint64andSign`: `none` is the `false` result.  The sign is looked
    at before the conversion, which then sees the text after it. -/
def string2uint64andSign (input : String) : Option (Nat × Bool) :=
  match input.toList with
  | [] => none
  | '-' :: rest => (stoull (String.ofList rest)).map (fun n => (n, true))
  | _ => (stoull input).map (fun n => (n, false))

/-! ## Query parameters -/

/-- The pieces of a text between the occurrences of a separator. -/
def pieces (separator : Char) : List Char → List (List Char)
  | [] => [[]]
  | c :: cs =>
      if c = separator then [] :: pieces separator cs
      else
        match pieces separator cs with
        | [] => [[c]]
        | p :: ps => (c :: p) :: ps

/-- One piece cut at its first `=`; without one the value is empty. -/
def cutPair (p : List Char) : String × String :=
  (String.ofList (p.takeWhile (· ≠ '=')),
    String.ofList ((p.dropWhile (· ≠ '=')).drop 1))

/-- `std::map::emplace` on the list of pairs kept in key order. -/
def emplaceSorted (k v : String) : List (String × String) → List (String × String)
  | [] => [(k, v)]
  | (k', v') :: rest =>
      if k = k' then (k', v') :: rest
      else if k < k' then (k, v) :: (k', v') :: rest
      else (k', v') :: emplaceSorted k v rest

/-- The sorted literal: pairs joined by the separator, `=` only before a value
    that is not empty. -/
def sortedLiteral (separator : Char) : List (String × String) → String
  | [] => ""
  | [(k, v)] => if v.isEmpty then k else k ++ "=" ++ v
  | (k, v) :: rest =>
      (if v.isEmpty then k else k ++ "=" ++ v) ++ separator.toString
        ++ sortedLiteral separator rest

/-- The loop of `extractQueryParameters`; `none` is the early return on a
    repeated key. -/
def extractLoop (decode : String → String) :
    List (List Char) → TextMap String → List (String × String) →
      Option (TextMap String × List (String × String))
  | [], result, original => some (result, original)
  | p :: ps, result, original =>
      let (key, value) := cutPair p
      if (result.lookup key).isSome then none
      else
        extractLoop decode ps (result.insert key (decode value))
          (emplaceSorted key value original)

/-- `extractQueryParameters`: the parameters with their values URL-decoded, and
    the sorted literal of the raw pairs.  A repeated key clears the parameters
    and leaves the caller's literal, empty in every caller, as it was. -/
def extractQueryParameters (decode : String → String) (queryParams : String)
    (separator : Char) : TextMap String × String :=
  if queryParams.isEmpty then (∅, "")
  else
    match extractLoop decode (pieces separator queryParams.toList) ∅ [] with
    | none => (∅, "")
    | some (result, original) => (result, sortedLiteral separator original)

/-! ## Pairs in key order -/

/-- Keys in increasing order, so that none is repeated. -/
def KeyOrdered (l : List (String × String)) : Prop := l.Pairwise (fun p q => p.1 < q.1)

/-- A new key adds its pair. -/
theorem emplaceSorted_perm {k v : String} {l : List (String × String)}
    (h : k ∉ l.map Prod.fst) : (emplaceSorted k v l).Perm ((k, v) :: l) := by
  induction l with
  | nil => exact List.Perm.refl _
  | cons p l ih =>
      obtain ⟨k', v'⟩ := p
      rw [List.map_cons, List.mem_cons, not_or] at h
      rw [emplaceSorted, if_neg h.1]
      by_cases hlt : k < k'
      · rw [if_pos hlt]
      · rw [if_neg hlt]
        exact ((ih h.2).cons _).trans (List.Perm.swap _ _ _)

theorem emplaceSorted_ordered {k v : String} {l : List (String × String)}
    (h : k ∉ l.map Prod.fst) (hl : KeyOrdered l) : KeyOrdered (emplaceSorted k v l) := by
  induction l with
  | nil => exact List.pairwise_singleton _ _
  | cons p l ih =>
      obtain ⟨k', v'⟩ := p
      rw [List.map_cons, List.mem_cons, not_or] at h
      obtain ⟨hhead, htail⟩ := List.pairwise_cons.mp hl
      rw [emplaceSorted, if_neg h.1]
      by_cases hlt : k < k'
      · rw [if_pos hlt]
        refine List.pairwise_cons.mpr ⟨?_, hl⟩
        intro q hq
        rcases List.mem_cons.mp hq with rfl | hq
        · exact hlt
        · exact lt_trans hlt (hhead q hq)
      · rw [if_neg hlt]
        refine List.pairwise_cons.mpr ⟨?_, ih h.2 htail⟩
        intro q hq
        rcases List.mem_cons.mp ((emplaceSorted_perm h.2).mem_iff.mp hq) with rfl | hq
        · exact lt_of_le_of_ne (not_lt.mp hlt) (Ne.symm h.1)
        · exact hhead q hq

/-- Two lists in key order with the same pairs are one list. -/
theorem KeyOrdered.eq_of_perm {l l' : List (String × String)} (hl : KeyOrdered l)
    (hl' : KeyOrdered l') (h : l.Perm l') : l = l' :=
  List.Perm.eq_of_pairwise
    (fun _ _ _ _ h1 h2 => absurd h2 (lt_asymm h1)) hl hl' h

/-- A key that is there stays with its value. -/
theorem emplaceSorted_of_mem {k v : String} {l : List (String × String)} (hl : KeyOrdered l)
    (h : k ∈ l.map Prod.fst) : emplaceSorted k v l = l := by
  induction l with
  | nil => cases h
  | cons p l ih =>
      obtain ⟨k', v'⟩ := p
      obtain ⟨hhead, htail⟩ := List.pairwise_cons.mp hl
      rw [emplaceSorted]
      by_cases hk : k = k'
      · rw [if_pos hk]
      · rw [List.map_cons, List.mem_cons] at h
        have hmem := h.resolve_left hk
        obtain ⟨q, hq, hqk⟩ := List.mem_map.mp hmem
        have hlt : k' < k := hqk ▸ hhead q hq
        rw [if_neg hk, if_neg (lt_asymm hlt), ih htail hmem]

/-- A list is cut at the first place of a member in one way. -/
theorem cut_inj {α : Type} {m : α} {a b x y : List α} (ha : m ∉ a) (hb : m ∉ b)
    (h : a ++ m :: x = b ++ m :: y) : a = b ∧ x = y := by
  induction a generalizing b with
  | nil =>
      cases b with
      | nil => exact ⟨rfl, (List.cons.inj h).2⟩
      | cons d b => exact absurd ((List.cons.inj h).1 ▸ List.mem_cons_self) hb
  | cons c a ih =>
      cases b with
      | nil => exact absurd ((List.cons.inj h).1 ▸ List.mem_cons_self) ha
      | cons d b =>
          obtain ⟨hc, hrest⟩ := List.cons.inj h
          obtain ⟨hab, hxy⟩ := ih (fun hm => ha (List.mem_cons_of_mem _ hm))
            (fun hm => hb (List.mem_cons_of_mem _ hm)) hrest
          exact ⟨by rw [hc, hab], hxy⟩

/-! ## Data keys -/

/-- `DataKey`: method and uri (server), or client endpoint, method and uri. -/
structure DataKey where
  clientEndpointId : String
  method : String
  uri : String
  provisionUri : String
  nkeys : Nat
  deriving DecidableEq, Repr

/-- The key of a server event: method and uri. -/
def DataKey.ofServer (method uri : String) : DataKey :=
  ⟨"", method, uri, "", 2⟩

/-- The key of a client event: endpoint, method and uri. -/
def DataKey.ofClient (clientEndpointId method uri : String) : DataKey :=
  ⟨clientEndpointId, method, uri, "", 3⟩

/-- `getKey`: the aggregated text the stores are indexed by. -/
def DataKey.getKey (k : DataKey) : String :=
  if k.nkeys = 3 then calculateStringKey k.clientEndpointId k.method k.uri
  else calculateStringKey k.method k.uri ""

def DataKey.empty (k : DataKey) : Bool :=
  let noPart := k.method.isEmpty && k.uri.isEmpty
  if k.nkeys = 3 then noPart && k.clientEndpointId.isEmpty else noPart

def DataKey.complete (k : DataKey) : Bool :=
  let allParts := !k.method.isEmpty && !k.uri.isEmpty
  if k.nkeys = 3 then allParts && !k.clientEndpointId.isEmpty else allParts

def DataKey.checkSelection (k : DataKey) : Bool := k.complete || k.empty

/-- `setProvisionUri`: context data that is no part of the aggregated key. -/
def DataKey.setProvisionUri (k : DataKey) (provisionUri : String) : DataKey :=
  { k with provisionUri := provisionUri }

@[simp] theorem DataKey.getKey_setProvisionUri (k : DataKey) (u : String) :
    (k.setProvisionUri u).getKey = k.getKey := rfl

/-! ## Event keys -/

/-- `EventKey`: a data key and the place in its history.  `position` is what
    the constructors compute from `number`: value and direction, or `none`
    when the text is missing or not accepted. -/
structure EventKey where
  dataKey : DataKey
  number : String
  deriving DecidableEq, Repr

def EventKey.hasNumber (e : EventKey) : Bool := !e.number.isEmpty

/-- `u_number_` and `reverse_`, when `valid_`. -/
def EventKey.position (e : EventKey) : Option (Nat × Bool) :=
  string2uint64andSign e.number

def EventKey.validNumber (e : EventKey) : Bool := e.position.isSome

def EventKey.empty (e : EventKey) : Bool := e.dataKey.empty && !e.hasNumber

def EventKey.complete (e : EventKey) : Bool := e.dataKey.complete && e.hasNumber

def EventKey.checkSelection (e : EventKey) : Bool :=
  e.dataKey.checkSelection && !(e.hasNumber && e.dataKey.method.isEmpty)

def EventKey.getKey (e : EventKey) : String := e.dataKey.getKey

end H2Key
