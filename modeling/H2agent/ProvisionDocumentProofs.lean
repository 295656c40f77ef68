import H2agent.DocumentLoadProofs
import H2agent.MapListingProofs
import H2agent.ProvisionStoreProofs

/-! # Server provisions with their documents

    Besides what `load` reads of it, a provision keeps the document it came from and a mark
    that it has been used.  The administrative interface lists the documents, ordered by
    first insertion under the algorithm `RegexMatching` and as the map is walked otherwise,
    all of them or those never used.

    * `data_load` — without documents and marks this is the store of
      `AdminServerProvisionData`;
    * `kept_run` — in every run each provision stands under its key, once in the order, and
      is what its document is read as;
    * `provisions_restored` — a listing can be posted back into an empty store exactly when
      the algorithm in force can read each key, and then restores the store;
    * `unused_listed` — what the listing of unused provisions shows after any run. -/

namespace H2ProvisionDocuments

open CppText DocumentLoad H2Convert H2Key H2Load H2Provisions H2ServerProvision H2Store
open H2Traffic H2Transformation JsonValue MapListing StepRun

/-! ## The store -/

/-- `AdminServerProvision`: what was read, the document, and whether it was employed. -/
structure StoredProvision where
  provisioned : Provisioned
  json : Json
  employed : Bool := false

def StoredProvision.getKey (e : StoredProvision) : String := e.provisioned.getKey

/-- `AdminServerProvisionData`: the map, and its keys in insertion order. -/
structure ProvisionStore where
  map : TextMap StoredProvision
  orderedKeys : List String

/-- A load that succeeds. -/
def success : Except Fault LoadResult → Bool
  | .ok .Success => true
  | _ => false

theorem success_iff {r : Except Fault LoadResult} : success r = true ↔ r = .ok .Success := by
  cases r with
  | error e => simp [success]
  | ok r => cases r <;> simp [success]

namespace ProvisionStore

def emptied : ProvisionStore := ⟨∅, []⟩

/-- The insertion at the end of `loadSingle`. -/
def add (d : ProvisionStore) (e : StoredProvision) : ProvisionStore where
  map := d.map.insert e.getKey e
  orderedKeys :=
    if (d.map.lookup e.getKey).isSome then d.orderedKeys else d.orderedKeys ++ [e.getKey]

/-- `loadSingle`. -/
def loadSingle (l : Loader) (regexMatchingConfigured : Bool) (j : Json) (d : ProvisionStore) :
    Except Fault LoadResult × ProvisionStore :=
  if l.validate j then
    match loadProvision l.lib l.compiles l.schemaOf regexMatchingConfigured j with
    | .error e => (.error e, d)
    | .ok none => (.ok .BadContent, d)
    | .ok (some p) => (.ok .Success, d.add { provisioned := p, json := j })
  else (.ok .BadSchema, d)

/-- The loop over an array. -/
def loadArray (l : Loader) (regexMatchingConfigured : Bool) :
    List Json → ProvisionStore → Except Fault LoadResult × ProvisionStore
  | [], d => (.ok .Success, d)
  | j :: rest, d =>
      if success (loadSingle l regexMatchingConfigured j d).1 then
        loadArray l regexMatchingConfigured rest (loadSingle l regexMatchingConfigured j d).2
      else loadSingle l regexMatchingConfigured j d

/-- `load`. -/
def load (l : Loader) (regexMatchingConfigured : Bool) (j : Json) (d : ProvisionStore) :
    Except Fault LoadResult × ProvisionStore :=
  match j with
  | .arr items => loadArray l regexMatchingConfigured items d
  | j => loadSingle l regexMatchingConfigured j d

/-- `clear`: whether something was there. -/
def clear (d : ProvisionStore) : Bool × ProvisionStore := (!d.map.entries.isEmpty, emptied)

/-- `employ` of the provision under a key. -/
def employ (k : String) (d : ProvisionStore) : ProvisionStore :=
  match d.map.lookup k with
  | none => d
  | some e => { d with map := d.map.insert k { e with employed := true } }

/-- The loop over the ordered keys; a missing provision is a null pointer that is
    dereferenced. -/
def fetch (d : ProvisionStore) : List String → Except Fault (List StoredProvision)
  | [] => .ok []
  | k :: rest =>
      match d.map.lookup k with
      | none => .error .undefined
      | some e => do return e :: (← d.fetch rest)

/-- What a listing goes through, in its order. -/
def elements (walk : Iteration StoredProvision) (ordered : Bool) (d : ProvisionStore) :
    Except Fault (List StoredProvision) :=
  if ordered then d.fetch d.orderedKeys else .ok (walk.walk (values d.map))

/-- The array of `asJsonString`. -/
def asJson (walk : Iteration StoredProvision) (ordered getUnused : Bool) (d : ProvisionStore) :
    Except Fault (List Json) := do
  let all ← d.elements walk ordered
  return (all.filter (fun e => !(getUnused && e.employed))).map StoredProvision.json

/-- The store without documents and marks. -/
def data (d : ProvisionStore) : AdminServerProvisionData :=
  ⟨mapValues StoredProvision.provisioned d.map, d.orderedKeys⟩

end ProvisionStore

/-! ## The store without the documents -/

section Data

variable (l : Loader) (regexMatchingConfigured : Bool) (d : ProvisionStore)

theorem data_add (e : StoredProvision) : (d.add e).data = d.data.add e.provisioned := by
  unfold ProvisionStore.data ProvisionStore.add AdminServerProvisionData.add
  rw [mapValues_insert, lookup_mapValues, Option.isSome_map]
  rfl

theorem data_loadSingle (j : Json) :
    H2Provisions.loadSingle l regexMatchingConfigured j d.data
      = ((d.loadSingle l regexMatchingConfigured j).1,
          (d.loadSingle l regexMatchingConfigured j).2.data) := by
  unfold H2Provisions.loadSingle ProvisionStore.loadSingle
  split
  · cases loadProvision l.lib l.compiles l.schemaOf regexMatchingConfigured j with
    | error e => rfl
    | ok loaded =>
        cases loaded with
        | none => rfl
        | some p =>
            show (Except.ok LoadResult.Success, d.data.add p) = _
            rw [← data_add d { provisioned := p, json := j }]
  · rfl

theorem data_loadArray (items : List Json) :
    H2Provisions.loadArray l regexMatchingConfigured items d.data
      = ((d.loadArray l regexMatchingConfigured items).1,
          (d.loadArray l regexMatchingConfigured items).2.data) := by
  induction items generalizing d with
  | nil => rfl
  | cons j rest ih =>
      rw [H2Provisions.loadArray, data_loadSingle, ProvisionStore.loadArray]
      by_cases hgood : success (d.loadSingle l regexMatchingConfigured j).1 = true
      · rw [if_pos hgood, success_iff.mp hgood]
        exact ih _
      · rw [if_neg hgood]
        split
        · rename_i heq
          exact absurd (success_iff.mpr (congrArg Prod.fst heq)) hgood
        · rfl

/-- Documents and marks do not matter to a load. -/
theorem data_load (j : Json) :
    H2Provisions.loadDocument l regexMatchingConfigured j d.data
      = ((d.load l regexMatchingConfigured j).1, (d.load l regexMatchingConfigured j).2.data) := by
  cases j with
  | arr items => exact data_loadArray l regexMatchingConfigured d items
  | null | bool | int | uint | float | str | obj =>
      exact data_loadSingle l regexMatchingConfigured d _

/-- An array is loaded document by document. -/
theorem loadArray_eq (items : List Json) :
    success (d.loadArray l regexMatchingConfigured items).1
        = (loadEach (ProvisionStore.loadSingle l regexMatchingConfigured) success items d).1.all
          success
      ∧ (d.loadArray l regexMatchingConfigured items).2
        = (loadEach (ProvisionStore.loadSingle l regexMatchingConfigured) success items d).2 := by
  induction items generalizing d with
  | nil => exact ⟨rfl, rfl⟩
  | cons j rest ih =>
      rw [ProvisionStore.loadArray]
      cases hgood : success (d.loadSingle l regexMatchingConfigured j).1 with
      | true =>
          rw [loadEach_cons_good hgood, List.all_cons, hgood]
          exact ih _
      | false =>
          rw [loadEach_cons_bad hgood]
          exact ⟨by simp [hgood], rfl⟩

end Data

theorem lookup_employ (d : ProvisionStore) (k k' : String) :
    (d.employ k).map.lookup k'
      = (d.map.lookup k').map (fun e => if k' = k then { e with employed := true } else e) := by
  unfold ProvisionStore.employ
  cases hk : d.map.lookup k with
  | none =>
      by_cases h : k' = k
      · rw [h, hk]
        rfl
      · simp [h]
  | some e =>
      by_cases h : k' = k
      · rw [h, hk]
        simp
      · show (d.map.insert k _).lookup k' = _
        rw [AList.lookup_insert_ne h]
        simp [h]

@[simp] theorem orderedKeys_employ (d : ProvisionStore) (k : String) :
    (d.employ k).orderedKeys = d.orderedKeys := by
  unfold ProvisionStore.employ
  cases d.map.lookup k with
  | none => rfl
  | some e => rfl

/-! ## What every run keeps -/

/-- Each provision stands under its key, once in the order, and is what its document is
    read as under some algorithm. -/
structure Kept (l : Loader) (d : ProvisionStore) : Prop where
  nodup : d.orderedKeys.Nodup
  keys : ∀ k, k ∈ d.orderedKeys ↔ (d.map.lookup k).isSome = true
  keyed : Keyed StoredProvision.getKey d.map
  loaded : ∀ k e, d.map.lookup k = some e → l.validate e.json = true
    ∧ ∃ regexMatchingConfigured,
      loadProvision l.lib l.compiles l.schemaOf regexMatchingConfigured e.json
        = .ok (some e.provisioned)

theorem kept_emptied (l : Loader) : Kept l ProvisionStore.emptied where
  nodup := List.nodup_nil
  keys := by simp [ProvisionStore.emptied]
  keyed := keyed_empty
  loaded := by simp [ProvisionStore.emptied]

namespace Kept

variable {l : Loader} {d : ProvisionStore}

theorem add (h : Kept l d) {e : StoredProvision} (hvalid : l.validate e.json = true)
    {regexMatchingConfigured : Bool}
    (hload : loadProvision l.lib l.compiles l.schemaOf regexMatchingConfigured e.json
      = .ok (some e.provisioned)) : Kept l (d.add e) := by
  have hthere : ∀ k, ((d.add e).map.lookup k).isSome = true
      ↔ k = e.getKey ∨ (d.map.lookup k).isSome = true := by
    intro k
    show ((d.map.insert e.getKey e).lookup k).isSome = true ↔ _
    by_cases hk : k = e.getKey
    · subst hk
      rw [AList.lookup_insert]
      exact ⟨fun _ => Or.inl rfl, fun _ => rfl⟩
    · rw [AList.lookup_insert_ne hk]
      simp [hk]
  refine ⟨?_, ?_, h.keyed.insert e, ?_⟩
  · unfold ProvisionStore.add
    by_cases hold : (d.map.lookup e.getKey).isSome = true
    · rw [if_pos hold]
      exact h.nodup
    · rw [if_neg hold]
      have hnew : e.getKey ∉ d.orderedKeys := fun hmem => hold ((h.keys _).mp hmem)
      exact List.nodup_append.mpr ⟨h.nodup, List.nodup_singleton _,
        fun a ha b hb hab => hnew (by rwa [← List.mem_singleton.mp hb, ← hab])⟩
  · intro k
    rw [hthere]
    unfold ProvisionStore.add
    by_cases hold : (d.map.lookup e.getKey).isSome = true
    · rw [if_pos hold, h.keys]
      exact ⟨Or.inr, fun hk => hk.elim (fun hk => by rw [hk]; exact hold) id⟩
    · rw [if_neg hold, List.mem_append, List.mem_singleton, h.keys]
      exact or_comm
  · intro k e' he'
    by_cases hk : k = e.getKey
    · have hfound : (d.add e).map.lookup k = some e := by
        rw [hk]
        exact AList.lookup_insert _
      obtain rfl := Option.some.inj (hfound.symm.trans he')
      exact ⟨hvalid, regexMatchingConfigured, hload⟩
    · have hsame : (d.add e).map.lookup k = d.map.lookup k := AList.lookup_insert_ne hk
      exact h.loaded k e' (hsame.symm.trans he')

theorem loadSingle (h : Kept l d) (regexMatchingConfigured : Bool) (j : Json) :
    Kept l (d.loadSingle l regexMatchingConfigured j).2 := by
  unfold ProvisionStore.loadSingle
  split
  · rename_i hvalid
    split
    · exact h
    · exact h
    · rename_i hload
      exact h.add hvalid hload
  · exact h

theorem load (h : Kept l d) (regexMatchingConfigured : Bool) (j : Json) :
    Kept l (d.load l regexMatchingConfigured j).2 := by
  have harray : ∀ (items : List Json) (d : ProvisionStore), Kept l d →
      Kept l (d.loadArray l regexMatchingConfigured items).2 := by
    intro items
    induction items with
    | nil => exact fun d hd => hd
    | cons j rest ih =>
        intro d hd
        rw [ProvisionStore.loadArray]
        split
        · exact ih _ (hd.loadSingle regexMatchingConfigured j)
        · exact hd.loadSingle regexMatchingConfigured j
  cases j with
  | arr items => exact harray items d h
  | null | bool | int | uint | float | str | obj => exact h.loadSingle regexMatchingConfigured _

theorem employ (h : Kept l d) (k : String) : Kept l (d.employ k) := by
  refine ⟨?_, ?_, ?_, ?_⟩
  · rw [orderedKeys_employ]
    exact h.nodup
  · intro k'
    rw [orderedKeys_employ, h.keys, lookup_employ, Option.isSome_map]
  · intro k' e' he'
    rw [lookup_employ] at he'
    obtain ⟨e, he, rfl⟩ := Option.map_eq_some_iff.mp he'
    rw [← h.keyed k' e he]
    split <;> rfl
  · intro k' e' he'
    rw [lookup_employ] at he'
    obtain ⟨e, he, rfl⟩ := Option.map_eq_some_iff.mp he'
    have hloaded := h.loaded k' e he
    split
    · exact hloaded
    · exact hloaded

end Kept

/-! ## Listings -/

/-- The provisions in the order in which their keys came first. -/
def inOrder (d : ProvisionStore) : List StoredProvision := d.orderedKeys.filterMap d.map.lookup

namespace Kept

variable {l : Loader} {d : ProvisionStore} (h : Kept l d)

include h

theorem fetch : d.fetch d.orderedKeys = .ok (inOrder d) := by
  have hall : ∀ keys : List String, (∀ k ∈ keys, k ∈ d.orderedKeys) →
      d.fetch keys = .ok (keys.filterMap d.map.lookup) := by
    intro keys
    induction keys with
    | nil => exact fun _ => rfl
    | cons k keys ih =>
        intro hkeys
        obtain ⟨e, he⟩ := Option.isSome_iff_exists.mp
          ((h.keys k).mp (hkeys k List.mem_cons_self))
        have hrest := ih fun k' hk' => hkeys k' (List.mem_cons_of_mem k hk')
        rw [ProvisionStore.fetch, he, List.filterMap_cons, he, hrest]
        rfl
  exact hall d.orderedKeys fun _ hk => hk

theorem inOrder_keys : (inOrder d).map StoredProvision.getKey = d.orderedKeys := by
  have hall : ∀ keys : List String, (∀ k ∈ keys, k ∈ d.orderedKeys) →
      (keys.filterMap d.map.lookup).map StoredProvision.getKey = keys := by
    intro keys
    induction keys with
    | nil => exact fun _ => rfl
    | cons k keys ih =>
        intro hkeys
        obtain ⟨e, he⟩ := Option.isSome_iff_exists.mp
          ((h.keys k).mp (hkeys k List.mem_cons_self))
        have hrest := ih fun k' hk' => hkeys k' (List.mem_cons_of_mem k hk')
        rw [List.filterMap_cons, he]
        show e.getKey :: _ = k :: keys
        rw [hrest, h.keyed k e he]
  exact hall d.orderedKeys fun _ hk => hk

theorem mem_inOrder (e : StoredProvision) :
    e ∈ inOrder d ↔ d.map.lookup e.getKey = some e := by
  constructor
  · intro he
    obtain ⟨k, -, hk⟩ := List.mem_filterMap.mp he
    rw [h.keyed k e hk]
    exact hk
  · intro he
    refine List.mem_filterMap.mpr ⟨e.getKey, (h.keys _).mpr ?_, he⟩
    rw [he]
    rfl

/-- Both orders have the same provisions. -/
theorem perm : (values d.map).Perm (inOrder d) := by
  have hordered : ((inOrder d).map StoredProvision.getKey).Nodup := by
    rw [h.inOrder_keys]
    exact h.nodup
  refine (List.perm_ext_iff_of_nodup (List.Nodup.of_map _ h.keyed.nodup)
    (List.Nodup.of_map _ hordered)).mpr ?_
  intro e
  rw [h.keyed.mem_values, h.mem_inOrder]

/-- A listing goes through each provision once, and never meets a missing one. -/
theorem elements (walk : Iteration StoredProvision) (ordered : Bool) :
    ∃ all, d.elements walk ordered = .ok all ∧ all.Perm (inOrder d)
      ∧ (ordered = true → all = inOrder d) := by
  unfold ProvisionStore.elements
  cases ordered with
  | true => exact ⟨inOrder d, h.fetch, List.Perm.refl _, fun _ => rfl⟩
  | false => exact ⟨_, rfl, (walk.perm _).trans h.perm, fun hno => nomatch hno⟩

end Kept

/-! ## Loading a document again -/

/-- What `load` makes of a provision under an algorithm. -/
def under (regexMatchingConfigured : Bool) (p : Provisioned) : Provisioned :=
  { p with regex := if regexMatchingConfigured then some p.getKey else none }

/-- The end of `load`. -/
theorem finish (compiles : String → Bool) (p : Provisioned) (hp : p.regex = none) (now : Bool) :
    (if now = true then
        if compiles p.getKey = true then
          (.ok (some { p with regex := some p.getKey }) : Except Fault (Option Provisioned))
        else .ok none
      else .ok (some p))
      = .ok (if now && !compiles p.getKey then none else some (under now p)) := by
  cases now with
  | false =>
      show Except.ok (some p) = Except.ok (some { p with regex := none })
      rw [← hp]
  | true =>
      cases hcompiles : compiles p.getKey with
      | false => rfl
      | true => rfl

/-- A document that was read once is read again, unless its key is no regular expression and
    the algorithm needs one. -/
theorem loadProvision_again {lib : Lib} {compiles : String → Bool}
    {schemaOf : String → Option Json} {before : Bool} {j : Json} {p : Provisioned}
    (h : loadProvision lib compiles schemaOf before j = .ok (some p)) (now : Bool) :
    loadProvision lib compiles schemaOf now j
      = .ok (if now && !compiles p.getKey then none else some (under now p)) := by
  unfold loadProvision at h ⊢
  obtain ⟨requestMethod, hmethod, h⟩ := bind_ok h
  obtain ⟨responseCode, hcode, h⟩ := bind_ok h
  rw [hmethod, ok_bind, hcode, ok_bind]
  dsimp only at h ⊢
  split at h
  · cases h
  · rename_i hids
    obtain ⟨responseHeaders, hheaders, h⟩ := bind_ok h
    obtain ⟨⟨responseBody, responseBodyAsString⟩, hbody, h⟩ := bind_ok h
    obtain ⟨responseDelayMs, hdelay, h⟩ := bind_ok h
    obtain ⟨transformations, htransform, h⟩ := bind_ok h
    rw [if_neg hids, hheaders, ok_bind, hbody, ok_bind, hdelay, ok_bind, htransform, ok_bind]
    have hbefore := (finish compiles _ rfl before).symm.trans h
    refine (finish compiles _ rfl now).trans ?_
    split at hbefore
    · cases hbefore
    · obtain rfl := Option.some.inj (Except.ok.inj hbefore)
      rfl

/-- The provision that its document makes under an algorithm. -/
def remade (regexMatchingConfigured : Bool) (e : StoredProvision) : StoredProvision where
  provisioned := under regexMatchingConfigured e.provisioned
  json := e.json

/-- A document the algorithm can read. -/
def readable (l : Loader) (regexMatchingConfigured : Bool) (e : StoredProvision) : Bool :=
  !(regexMatchingConfigured && !l.compiles e.getKey)

section Restore

variable {l : Loader} {d : ProvisionStore} (now : Bool)

/-- The document of a provision, posted again. -/
theorem Kept.loadSingle_document (h : Kept l d) {e : StoredProvision} (he : e ∈ inOrder d)
    (d' : ProvisionStore) :
    d'.loadSingle l now e.json
      = if readable l now e then (.ok .Success, d'.add (remade now e))
        else (.ok .BadContent, d') := by
  obtain ⟨hvalid, before, hload⟩ := h.loaded _ e ((h.mem_inOrder e).mp he)
  unfold ProvisionStore.loadSingle
  rw [if_pos hvalid, loadProvision_again hload now]
  show _ = if (!(now && !l.compiles e.provisioned.getKey)) = true then _ else _
  cases now && !l.compiles e.provisioned.getKey with
  | true => rfl
  | false => rfl

/-- The documents of provisions of the store are taken, or stop at one whose key the
    algorithm cannot read. -/
theorem Kept.loadArray_documents (h : Kept l d) (all : List StoredProvision)
    (hall : ∀ e ∈ all, e ∈ inOrder d) (d' : ProvisionStore) :
    (d'.loadArray l now (all.map StoredProvision.json)).1
      = if all.all (readable l now) then .ok .Success else .ok .BadContent := by
  induction all generalizing d' with
  | nil => rfl
  | cons e all ih =>
      have hrest := ih fun e' he' => hall e' (List.mem_cons_of_mem e he')
      rw [List.map_cons, ProvisionStore.loadArray,
        h.loadSingle_document now (hall e List.mem_cons_self), List.all_cons]
      cases hread : readable l now e with
      | true => exact hrest _
      | false => rfl

/-- A new key comes last. -/
theorem Kept.inOrder_add (h : Kept l d) {e : StoredProvision}
    (hnew : e.getKey ∉ (inOrder d).map StoredProvision.getKey) :
    inOrder (d.add e) = inOrder d ++ [e] := by
  rw [h.inOrder_keys] at hnew
  have hnone : ¬ (d.map.lookup e.getKey).isSome = true := fun hk => hnew ((h.keys _).mpr hk)
  have hkeys : (d.add e).orderedKeys = d.orderedKeys ++ [e.getKey] := if_neg hnone
  have hself : (d.add e).map.lookup e.getKey = some e := AList.lookup_insert _
  have hsame : d.orderedKeys.filterMap (d.add e).map.lookup = inOrder d := by
    refine List.filterMap_congr ?_
    intro k hk
    exact AList.lookup_insert_ne fun hke => hnew (hke ▸ hk)
  rw [inOrder, hkeys, List.filterMap_append, hsame, List.filterMap_cons, hself]
  rfl

/-- What the loads make of a document. -/
def acceptedDocument (l : Loader) (now : Bool) (j : Json) : Option StoredProvision :=
  (accepted l now j).map fun p => { provisioned := p, json := j }

theorem appends (l : Loader) :
    Appends (Kept l) (ProvisionStore.loadSingle l now) success StoredProvision.getKey inOrder
      (acceptedDocument l now) := by
  intro j d e hd haccept
  obtain ⟨p, hp, rfl⟩ := Option.map_eq_some_iff.mp haccept
  have hload : d.loadSingle l now j = (.ok .Success, d.add { provisioned := p, json := j }) := by
    unfold accepted at hp
    unfold ProvisionStore.loadSingle
    split at hp
    · rename_i hvalid
      rw [if_pos hvalid]
      split at hp
      · rename_i hread
        obtain rfl := Option.some.inj hp
        rw [hread]
      · cases hp
    · cases hp
  refine ⟨hd.loadSingle now j, ?_, fun hnew => ?_⟩
  · rw [hload]
    rfl
  · rw [hload]
    exact hd.inOrder_add hnew

/-- The document of a provision is accepted as the provision remade. -/
theorem Kept.accepted_document (h : Kept l d) {e : StoredProvision} (he : e ∈ inOrder d)
    (hread : readable l now e = true) :
    acceptedDocument l now e.json = some (remade now e) := by
  obtain ⟨hvalid, before, hload⟩ := h.loaded _ e ((h.mem_inOrder e).mp he)
  have hnot : (now && !l.compiles e.provisioned.getKey) = false := by
    unfold readable at hread
    rwa [Bool.not_eq_true'] at hread
  unfold acceptedDocument accepted
  rw [if_pos hvalid, loadProvision_again hload now, hnot]
  rfl

/-- **RESTORED**: the documents of a store, all of which the algorithm can read, loaded in
    some order into an empty store. -/
theorem Kept.restored (h : Kept l d) {all : List StoredProvision} (hall : all.Perm (inOrder d))
    (hread : all.all (readable l now) = true) :
    Kept l (ProvisionStore.emptied.loadArray l now (all.map StoredProvision.json)).2
      ∧ inOrder (ProvisionStore.emptied.loadArray l now (all.map StoredProvision.json)).2
        = all.map (remade now)
      ∧ ∀ k, (ProvisionStore.emptied.loadArray l now
          (all.map StoredProvision.json)).2.map.lookup k = (d.map.lookup k).map (remade now) := by
  have haccept : (all.map StoredProvision.json).map (acceptedDocument l now)
      = (all.map (remade now)).map some := by
    rw [List.map_map, List.map_map]
    refine List.map_congr_left ?_
    intro e he
    exact h.accepted_document now (hall.mem_iff.mp he) (List.all_eq_true.mp hread e he)
  have hkeys : (all.map (remade now)).map StoredProvision.getKey
      = all.map StoredProvision.getKey := by
    rw [List.map_map]
    rfl
  have hnodup : (all.map StoredProvision.getKey).Nodup := by
    rw [(hall.map StoredProvision.getKey).nodup_iff, h.inOrder_keys]
    exact h.nodup
  obtain ⟨-, hkept, hview⟩ := loadEach_refill (appends now l) _ _ haccept
    ProvisionStore.emptied (kept_emptied l) (by rw [hkeys]; exact hnodup)
  rw [← (loadArray_eq l now ProvisionStore.emptied _).2] at hkept hview
  refine ⟨hkept, hview, ?_⟩
  refine h.keyed.lookup_refilled (f := remade now) (hall.trans h.perm.symm) (fun _ _ => rfl)
    hkept.keyed ?_
  have hperm := hkept.perm
  rw [hview] at hperm
  exact hperm

end Restore

/-! ## The interface -/

/-- The matching configured, and the provisions. -/
structure Admin where
  matching : Config := {}
  store : ProvisionStore := ProvisionStore.emptied

/-- What changes either, or uses a provision. -/
inductive Act where
  | loadMatching (c : Config)
  | load (j : Json)
  | clear
  | request (inState method classificationUri : String)

namespace Admin

def regexMatching (a : Admin) : Bool := a.matching.algorithm == .RegexMatching

/-- The traffic server over the provisions. -/
def server (a : Admin) : TrafficServer :=
  { matching := a.matching, provisions := a.store.data, world := World.blank }

/-- The key of the provision that a request selects. -/
def selected (l : Loader) (a : Admin) (inState method classificationUri : String) :
    Option String :=
  (a.server.select l.lib inState method classificationUri).map Provisioned.getKey

/-- The provision with this key is employed. -/
def use (a : Admin) : Option String → Admin
  | none => a
  | some k => { a with store := a.store.employ k }

/-- One step; a request employs the provision it selects, whatever comes of it then. -/
def step (l : Loader) (a : Admin) : Act → Admin
  | .loadMatching c => { a with matching := c }
  | .load j => { a with store := (a.store.load l a.regexMatching j).2 }
  | .clear => { a with store := a.store.clear.2 }
  | .request inState method classificationUri =>
      a.use (a.selected l inState method classificationUri)

/-- `GET server-provision`, and `GET server-provision/unused`. -/
def listing (walk : Iteration StoredProvision) (getUnused : Bool) (a : Admin) :
    Except Fault (List Json) :=
  a.store.asJson walk a.regexMatching getUnused

/-- `DELETE server-provision`, and a listing posted back. -/
def restore (l : Loader) (docs : List Json) (a : Admin) : Except Fault LoadResult × Admin :=
  ((a.store.clear.2.load l a.regexMatching (.arr docs)).1,
    { a with store := (a.store.clear.2.load l a.regexMatching (.arr docs)).2 })

/-- The state after a run from the start. -/
def reached (l : Loader) (acts : List Act) : Admin := run (step l) {} acts

end Admin

/-- **RUN LEMMA**: the store is kept in every run. -/
theorem kept_run (l : Loader) (acts : List Act) : Kept l (Admin.reached l acts).store := by
  refine run_invariant (I := fun a : Admin => Kept l a.store) ?_ acts _ (kept_emptied l)
  intro a act ha
  cases act with
  | loadMatching c => exact ha
  | load j => exact ha.load a.regexMatching j
  | clear => exact kept_emptied l
  | request inState method classificationUri =>
      show Kept l (a.use (a.selected l inState method classificationUri)).store
      cases a.selected l inState method classificationUri with
      | none => exact ha
      | some k => exact ha.employ k

theorem asJson_all {walk : Iteration StoredProvision} {ordered : Bool} {d : ProvisionStore}
    {all : List StoredProvision} (h : d.elements walk ordered = .ok all) :
    d.asJson walk ordered false = .ok (all.map StoredProvision.json) := by
  unfold ProvisionStore.asJson
  rw [h]
  have hfilter : (all.filter fun e => !(false && e.employed)) = all :=
    List.filter_eq_self.mpr fun _ _ => rfl
  show Except.ok ((all.filter fun e => !(false && e.employed)).map StoredProvision.json) = _
  rw [hfilter]

/-- **BACKUP**: after every run the provisions can be listed, in whatever order the map is
    walked.  Posted back into the emptied store, the listing is taken exactly when the
    algorithm in force can read each key, and stops at bad content otherwise.  Taken, it
    restores every provision under its key, unused and with the expression that this
    algorithm gives it, and lists the same documents, under `RegexMatching` in the same
    order. -/
theorem provisions_restored (l : Loader) (walk walk' : Iteration StoredProvision)
    (acts : List Act) :
    ∃ docs, (Admin.reached l acts).listing walk false = .ok docs
      ∧ ((Admin.reached l acts).restore l docs).1
        = (if (Admin.reached l acts).store.orderedKeys.all
              (fun k => !(Admin.reached l acts).regexMatching || l.compiles k)
          then .ok .Success else .ok .BadContent)
      ∧ (success ((Admin.reached l acts).restore l docs).1 = true →
        (∀ k, ((Admin.reached l acts).restore l docs).2.store.map.lookup k
            = ((Admin.reached l acts).store.map.lookup k).map
              (remade (Admin.reached l acts).regexMatching))
        ∧ ∃ docs', ((Admin.reached l acts).restore l docs).2.listing walk' false = .ok docs'
          ∧ docs'.Perm docs
          ∧ ((Admin.reached l acts).regexMatching = true → docs' = docs)) := by
  have h := kept_run l acts
  generalize Admin.reached l acts = a at h ⊢
  obtain ⟨all, helements, hperm, hordered⟩ := h.elements walk a.regexMatching
  have hresult : (a.restore l (all.map StoredProvision.json)).1
      = if all.all (readable l a.regexMatching) then .ok .Success else .ok .BadContent :=
    h.loadArray_documents a.regexMatching all (fun e he => hperm.mem_iff.mp he) _
  have hkeys : all.all (readable l a.regexMatching)
      = a.store.orderedKeys.all (fun k => !a.regexMatching || l.compiles k) := by
    rw [← h.inOrder_keys, List.all_map]
    rw [Bool.eq_iff_iff, List.all_eq_true, List.all_eq_true]
    have hone : ∀ e, readable l a.regexMatching e
        = ((fun k => !a.regexMatching || l.compiles k) ∘ StoredProvision.getKey) e := by
      intro e
      show (!(a.regexMatching && !l.compiles e.getKey)) = (!a.regexMatching || l.compiles e.getKey)
      rw [Bool.not_and, Bool.not_not]
    constructor
    · intro hall e he
      rw [← hone]
      exact hall e (hperm.mem_iff.mpr he)
    · intro hall e he
      rw [hone]
      exact hall e (hperm.mem_iff.mp he)
  refine ⟨all.map StoredProvision.json, asJson_all helements, ?_, ?_⟩
  · rw [hresult, hkeys]
  · intro hsuccess
    have hread : all.all (readable l a.regexMatching) = true := by
      rw [hresult] at hsuccess
      split at hsuccess
      · rename_i hall
        exact hall
      · cases hsuccess
    obtain ⟨hkept, hview, hlookup⟩ := h.restored a.regexMatching hperm hread
    obtain ⟨all', helements', hperm', hordered'⟩ := hkept.elements walk' a.regexMatching
    refine ⟨hlookup, _, asJson_all helements', ?_, ?_⟩
    · have hdocs := hperm'.map StoredProvision.json
      rw [hview, List.map_map] at hdocs
      exact hdocs
    · intro hregex
      rw [hordered' hregex, hview, List.map_map]
      rfl

/-! ## Unused provisions -/

/-- The keys a document or an array of them loads. -/
def loadedKeys (l : Loader) (regexMatchingConfigured : Bool) (j : Json) : List String :=
  match j with
  | .arr items => (acceptedItems l regexMatchingConfigured items).map Provisioned.getKey
  | j => (accepted l regexMatchingConfigured j).toList.map Provisioned.getKey

/-- A provision that is there and was not employed. -/
def Unused (k : String) (d : ProvisionStore) : Prop :=
  ∃ e, d.map.lookup k = some e ∧ e.employed = false

/-- The step loads a provision with this key. -/
def Loads (l : Loader) (k : String) (a : Admin) : Act → Prop
  | .load j => k ∈ loadedKeys l a.regexMatching j
  | _ => False

/-- The step removes the provision with this key, or employs it. -/
def Uses (l : Loader) (k : String) (a : Admin) : Act → Prop
  | .clear => True
  | .request inState method classificationUri =>
      a.selected l inState method classificationUri = some k
  | _ => False

theorem unused_add (d : ProvisionStore) {e : StoredProvision} (he : e.employed = false)
    (k : String) : Unused k (d.add e) ↔ k = e.getKey ∨ Unused k d := by
  unfold Unused ProvisionStore.add
  by_cases hk : k = e.getKey
  · subst hk
    simp [he]
  · simp [AList.lookup_insert_ne hk, hk]

theorem unused_loadSingle (l : Loader) (now : Bool) (d : ProvisionStore) (j : Json)
    (k : String) :
    Unused k (d.loadSingle l now j).2
      ↔ k ∈ (accepted l now j).toList.map Provisioned.getKey ∨ Unused k d := by
  unfold ProvisionStore.loadSingle accepted
  split
  · cases loadProvision l.lib l.compiles l.schemaOf now j with
    | error e => simp
    | ok loaded =>
        cases loaded with
        | none => simp
        | some p =>
            have hadd := unused_add d (e := { provisioned := p, json := j }) rfl k
            simpa [StoredProvision.getKey] using hadd
  · simp

/-- A load leaves its provisions unused, and the others as they were. -/
theorem unused_load (l : Loader) (now : Bool) (j : Json) (d : ProvisionStore) (k : String) :
    Unused k (d.load l now j).2 ↔ k ∈ loadedKeys l now j ∨ Unused k d := by
  have harray : ∀ (items : List Json) (d : ProvisionStore),
      Unused k (d.loadArray l now items).2
        ↔ k ∈ (acceptedItems l now items).map Provisioned.getKey ∨ Unused k d := by
    intro items
    induction items with
    | nil => intro d; simp [ProvisionStore.loadArray, acceptedItems]
    | cons j rest ih =>
        intro d
        have hsingle := unused_loadSingle l now d j k
        have haccept : success (d.loadSingle l now j).1 = (accepted l now j).isSome := by
          unfold ProvisionStore.loadSingle accepted
          split
          · cases loadProvision l.lib l.compiles l.schemaOf now j with
            | error e => rfl
            | ok loaded => cases loaded <;> rfl
          · rfl
        rw [ProvisionStore.loadArray, haccept, acceptedItems]
        cases hj : accepted l now j with
        | none =>
            rw [hj] at hsingle
            exact hsingle
        | some p =>
            rw [hj] at hsingle
            show Unused k (ProvisionStore.loadArray l now rest _).2 ↔ _
            rw [ih, hsingle]
            simp [or_assoc, or_comm]
  cases j with
  | arr items => exact harray items d
  | null | bool | int | uint | float | str | obj => exact unused_loadSingle l now d _ k

/-- **STEP LEMMA**: a step loads the provision, or uses or removes it, or leaves it. -/
theorem unused_step (l : Loader) (k : String) (a : Admin) (act : Act) :
    Unused k (a.step l act).store
      ↔ Loads l k a act ∨ (Unused k a.store ∧ ¬ Uses l k a act) := by
  cases act with
  | loadMatching c => simp [Loads, Uses, Admin.step]
  | load j =>
      show Unused k (a.store.load l a.regexMatching j).2 ↔ _
      rw [unused_load]
      simp [Loads, Uses]
  | clear => simp [Loads, Uses, Unused, Admin.step, ProvisionStore.clear, ProvisionStore.emptied]
  | request inState method classificationUri =>
      show Unused k (a.use (a.selected l inState method classificationUri)).store ↔ _
      cases hsel : a.selected l inState method classificationUri with
      | none => simp [Loads, Uses, Admin.use, hsel]
      | some k' =>
          show Unused k (a.store.employ k') ↔ _
          unfold Unused
          rw [lookup_employ]
          by_cases hk : k = k'
          · simp [Loads, Uses, hsel, hk]
          · simp [Loads, Uses, hsel, hk, Ne.symm hk]

/-- The provision was loaded, and since its last load no request selected it and nothing
    removed it. -/
def UnusedSince (l : Loader) (acts : List Act) (k : String) : Prop :=
  ∃ pre act post, acts = pre ++ act :: post ∧ Loads l k (Admin.reached l pre) act
    ∧ AllSteps (Admin.step l) (fun a b => ¬ Uses l k a b)
      ((Admin.reached l pre).step l act) post

theorem unused_run (l : Loader) (acts : List Act) (k : String) :
    Unused k (Admin.reached l acts).store ↔ UnusedSince l acts k := by
  have hempty : ¬ Unused k (({} : Admin).store) := by
    rintro ⟨e, he, -⟩
    cases he
  have hlatch := @run_latch _ _ (Admin.step l) (fun _ => True) (fun a => Unused k a.store)
    (fun a act => Loads l k a act) (fun a act => ¬ Uses l k a act) (fun _ _ h => h)
    (fun a act _ => unused_step l k a act) acts {} True.intro
  refine hlatch.trans ⟨?_, Or.inr⟩
  rintro (⟨h, -⟩ | h)
  · exact absurd h hempty
  · exact h

end H2ProvisionDocuments
