import Mathlib.Algebra.Ring.Nat
import H2agent.EventQueryProofs
import H2agent.JsonAssignProofs
import H2agent.LookupKeyProofs

/-! # The summary of a store

    `MockData::summary` walks over all keys, adds up the events, and lists the first keys with
    the number of their events.  The members of a key are assigned to one JSON object that all
    keys share.  What a key does not assign is left as the key before it had it, and a key
    without a provision does not assign `provisionUri`.

    * `refills_eq_iff`: objects that are filled one after the other in one place, against
      objects of their own;
    * `summary_faithful_iff`: exactly when the list is right, for both stores after any
      operations and in any order of the walk. -/

namespace H2Summary

open CppText H2Convert H2Key H2Lookup H2Store JsonValue JsonValue.Json StepRun

/-! ## An object that is filled again -/

/-- Assign members to an object. -/
def put (ms doc : List (String × Json)) : List (String × Json) :=
  ms.foldl (fun doc kv => setField kv.1 kv.2 doc) doc

/-- One object, filled for each list of members and copied. -/
def refills : List (String × Json) → List (List (String × Json)) → List (List (String × Json))
  | _, [] => []
  | doc, ms :: mss => put ms doc :: refills (put ms doc) mss

/-- The names that are assigned. -/
def names (ms : List (String × Json)) : List String := ms.map Prod.fst

theorem put_append (a b doc : List (String × Json)) : put (a ++ b) doc = put b (put a doc) :=
  List.foldl_append ..

/-- What is assigned covers what was there. -/
theorem field_put (k : String) (ms doc : List (String × Json)) :
    field k (put ms doc) = (field k (put ms [])).or (field k doc) := by
  induction ms generalizing doc with
  | nil => rfl
  | cons kv ms ih =>
      obtain ⟨name, v⟩ := kv
      show field k (put ms (setField name v doc))
        = (field k (put ms (setField name v []))).or (field k doc)
      rw [ih (setField name v doc), ih (setField name v []), field_setField, field_setField,
        Option.or_assoc]
      by_cases hk : k = name
      · rw [if_pos hk, if_pos hk, Option.some_or]
      · rw [if_neg hk, if_neg hk]
        rfl

theorem field_put_eq_none_iff (k : String) (ms : List (String × Json)) :
    field k (put ms []) = none ↔ k ∉ names ms := by
  induction ms with
  | nil => exact ⟨fun _ h => (by cases h), fun _ => rfl⟩
  | cons kv ms ih =>
      obtain ⟨name, v⟩ := kv
      show field k (put ms (setField name v [])) = none ↔ k ∉ name :: names ms
      rw [field_put, Option.or_eq_none_iff, ih, field_setField, List.mem_cons, not_or, and_comm]
      by_cases hk : k = name
      · rw [if_pos hk]
        exact ⟨fun h => (by cases h.1), fun h => absurd hk h.1⟩
      · rw [if_neg hk]
        exact ⟨fun h => ⟨hk, h.2⟩, fun h => ⟨rfl, h.2⟩⟩

theorem inOrder_put {doc : List (String × Json)} (h : InOrder doc) (ms : List (String × Json)) :
    InOrder (put ms doc) := by
  induction ms generalizing doc with
  | nil => exact h
  | cons kv ms ih => exact ih (h.setField kv.1 kv.2)

theorem inOrder_put_nil (ms : List (String × Json)) : InOrder (put ms []) :=
  inOrder_put (show InOrder [] from List.Pairwise.nil) ms

/-- Nothing is left over exactly when all that was there is assigned. -/
theorem put_eq_iff {doc : List (String × Json)} (h : InOrder doc) (ms : List (String × Json)) :
    put ms doc = put ms [] ↔ ∀ k, field k doc ≠ none → k ∈ names ms := by
  constructor
  · intro heq k hk
    by_contra hnot
    have hleft := field_put k ms doc
    rw [heq, (field_put_eq_none_iff k ms).mpr hnot, Option.none_or] at hleft
    exact hk hleft.symm
  · intro hcovered
    refine (inOrder_put h ms).ext (inOrder_put_nil ms) fun k => ?_
    rw [field_put]
    cases hk : field k doc with
    | none => rw [Option.or_none]
    | some v =>
        have hassigned : field k (put ms []) ≠ none := by
          rw [Ne, field_put_eq_none_iff, not_not]
          exact hcovered k (by rw [hk]; exact Option.some_ne_none v)
        obtain ⟨w, hw⟩ := Option.ne_none_iff_exists'.mp hassigned
        rw [hw, Option.some_or]

/-- **REFILLING**: the copies are what each list of members fills by itself, exactly when each
    list assigns all that an earlier one assigns, and all that was there. -/
theorem refills_eq_iff {doc : List (String × Json)} (h : InOrder doc)
    (mss : List (List (String × Json))) :
    refills doc mss = mss.map (fun ms => put ms []) ↔
      (∀ ms ∈ mss, ∀ k, field k doc ≠ none → k ∈ names ms)
        ∧ mss.Pairwise fun a b => names a ⊆ names b := by
  induction mss generalizing doc with
  | nil => exact ⟨fun _ => ⟨fun _ h => (by cases h), .nil⟩, fun _ => rfl⟩
  | cons ms mss ih =>
      have hnames : ∀ k, field k (put ms []) ≠ none ↔ k ∈ names ms := fun k => by
        rw [Ne, field_put_eq_none_iff, not_not]
      rw [refills, List.map_cons, List.cons.injEq, List.pairwise_cons, List.forall_mem_cons]
      constructor
      · rintro ⟨hhead, htail⟩
        have hcovered := (put_eq_iff h ms).mp hhead
        rw [hhead] at htail
        obtain ⟨hrest, hpairs⟩ := (ih (inOrder_put_nil ms)).mp htail
        have hsub : ∀ ms' ∈ mss, names ms ⊆ names ms' :=
          fun ms' hms' k hk => hrest ms' hms' k ((hnames k).mpr hk)
        exact ⟨⟨hcovered, fun ms' hms' k hk => hsub ms' hms' (hcovered k hk)⟩, hsub, hpairs⟩
      · rintro ⟨⟨hcovered, -⟩, hsub, hpairs⟩
        have hhead := (put_eq_iff h ms).mpr hcovered
        refine ⟨hhead, ?_⟩
        rw [hhead]
        exact (ih (inOrder_put_nil ms)).mpr
          ⟨fun ms' hms' k hk => hsub ms' hms' ((hnames k).mp hk), hpairs⟩

/-! ## The document -/

variable {E : Type}

/-- `DataKey::keyToJson` on an object that may have members. -/
def keyToJson (k : DataKey) (doc : List (String × Json)) : List (String × Json) :=
  let doc := setField "method" (.str k.method) doc
  let doc := setField "uri" (.str k.uri) doc
  let doc := if k.provisionUri.isEmpty then doc
    else setField "provisionUri" (.str k.provisionUri) doc
  if k.nkeys = 3 then setField "clientEndpointId" (.str k.clientEndpointId) doc else doc

/-- The variables the walk changes; `key` is one object for all keys. -/
structure Walk where
  totalEvents : Nat
  displayedKeys : Nat
  key : List (String × Json)
  list : List Json

/-- What is done for a history. -/
def Walk.visit (maxKeys : Nat) (w : Walk) (value : MockEventsHistory E) : Walk :=
  let historySize := value.events.length
  let w := { w with totalEvents := w.totalEvents + historySize }
  if w.displayedKeys < maxKeys then
    let key := setField "amount" (.uint historySize) (keyToJson value.dataKey w.key)
    { w with key := key, list := w.list ++ [.obj key], displayedKeys := w.displayedKeys + 1 }
  else w

/-- `forEach` over the store. -/
def walk (maxKeys : Nat) (m : MockData E) : Walk :=
  (m.entries.map fun kv => kv.2).foldl (Walk.visit maxKeys) ⟨0, 0, [], []⟩

/-- The number of keys to be listed; a text that is not read is no limit, and a sign is not
    looked at. -/
def maxKeysOf (maxKeys : String) : Nat :=
  match string2uint64andSign maxKeys with
  | none => 18446744073709551615
  | some (n, _) => n

/-- `MockData::summary`, which returns the text of this document. -/
def summary (maxKeys : String) (m : MockData E) : Json :=
  let w := walk (maxKeysOf maxKeys) m
  .obj ((if w.displayedKeys > 0 then
      [("displayedKeys", .obj [("amount", .uint w.displayedKeys), ("list", .arr w.list)])] else [])
    ++ [("totalEvents", .uint w.totalEvents), ("totalKeys", .uint m.entries.length)])

/-! ## What the summary is to say -/

/-- The list of a summary; there is none when nothing is displayed. -/
def displayedList (document : Json) : List Json :=
  match getAt ["displayedKeys", "list"] document with
  | some (.arr l) => l
  | _ => []

/-- The members of a key, and the size of its history. -/
def ownEntry (h : MockEventsHistory E) : Json :=
  .obj (setField "amount" (.uint h.events.length) (H2Query.keyToJson h.dataKey))

/-- As many keys of the store as asked for, each once and with its own members and its own number
    of events; and the number of all events. -/
structure FaithfulSummary (maxKeys : Nat) (m : MockData E) (document : Json) : Prop where
  list : ∃ shown : List (Σ _ : String, MockEventsHistory E),
    shown ⊆ m.entries ∧ shown.NodupKeys ∧ shown.length = min maxKeys m.entries.length
      ∧ displayedList document = shown.map fun kv => ownEntry kv.2
  totalEvents : getAt ["totalEvents"] document
    = some (.uint (m.entries.map fun kv => kv.2.events.length).sum)

/-- Among the keys that are listed, none without a provision is visited after one with it. -/
def ProvisionsLast (maxKeys : Nat) (m : MockData E) : Prop :=
  (m.entries.take maxKeys).Pairwise fun a b =>
    a.2.dataKey.provisionUri ≠ "" → b.2.dataKey.provisionUri ≠ ""

instance (maxKeys : Nat) (m : MockData E) : Decidable (ProvisionsLast maxKeys m) :=
  inferInstanceAs (Decidable (List.Pairwise _ _))

/-! ## The walk -/

/-- What is assigned for a history. -/
def members (h : MockEventsHistory E) : List (String × Json) :=
  [("method", .str h.dataKey.method), ("uri", .str h.dataKey.uri)]
    ++ (if h.dataKey.provisionUri.isEmpty then []
      else [("provisionUri", .str h.dataKey.provisionUri)])
    ++ (if h.dataKey.nkeys = 3 then [("clientEndpointId", .str h.dataKey.clientEndpointId)] else [])
    ++ [("amount", .uint h.events.length)]

theorem put_members (h : MockEventsHistory E) (doc : List (String × Json)) :
    put (members h) doc
      = setField "amount" (.uint h.events.length) (keyToJson h.dataKey doc) := by
  rw [members, put_append, put_append, put_append, keyToJson]
  split <;> split <;> rfl

theorem ownEntry_eq (h : MockEventsHistory E) : ownEntry h = .obj (put (members h) []) := by
  rw [put_members]
  rfl

/-- A key for which there is room. -/
theorem visit_listed {maxKeys t n : Nat} {key : List (String × Json)} {list : List Json}
    (hroom : n < maxKeys) (h : MockEventsHistory E) :
    Walk.visit maxKeys ⟨t, n, key, list⟩ h = ⟨t + h.events.length, n + 1, put (members h) key,
      list ++ [.obj (put (members h) key)]⟩ := by
  rw [Walk.visit, put_members]
  exact if_pos hroom

/-- A key for which there is none is counted only. -/
theorem visit_counted {maxKeys t n : Nat} {key : List (String × Json)} {list : List Json}
    (hfull : ¬ n < maxKeys) (h : MockEventsHistory E) :
    Walk.visit maxKeys ⟨t, n, key, list⟩ h = ⟨t + h.events.length, n, key, list⟩ := by
  rw [Walk.visit]
  exact if_neg hfull

/-- **THE WALK**: all events are counted, and as many keys as asked for are listed, each as the
    object shared by them all then is. -/
theorem foldl_visit (maxKeys : Nat) (l : List (MockEventsHistory E)) (t n : Nat)
    (key : List (String × Json)) (list : List Json) :
    ∃ key', l.foldl (Walk.visit maxKeys) ⟨t, n, key, list⟩
      = ⟨t + (l.map fun h => h.events.length).sum, n + min (maxKeys - n) l.length, key',
        list ++ (refills key ((l.take (maxKeys - n)).map members)).map .obj⟩ := by
  induction l generalizing t n key list with
  | nil =>
      rw [List.take_nil, List.length_nil, Nat.min_zero]
      exact ⟨key, congrArg (Walk.mk t n key) (List.append_nil list).symm⟩
  | cons h l ih =>
      rw [List.foldl_cons, List.map_cons, List.sum_cons, ← Nat.add_assoc, List.length_cons]
      by_cases hroom : n < maxKeys
      · obtain ⟨key', hrest⟩ := ih (t + h.events.length) (n + 1) (put (members h) key)
          (list ++ [.obj (put (members h) key)])
        have hroom' : maxKeys - n = (maxKeys - (n + 1)) + 1 := by omega
        have hcount : n + 1 + min (maxKeys - (n + 1)) l.length
            = n + min (maxKeys - (n + 1) + 1) (l.length + 1) := by omega
        refine ⟨key', ?_⟩
        rw [visit_listed hroom, hrest, hroom', hcount, List.take_succ_cons, List.map_cons, refills,
          List.map_cons, List.append_assoc, List.singleton_append]
      · obtain ⟨key', hrest⟩ := ih (t + h.events.length) n key list
        have hfull : maxKeys - n = 0 := by omega
        refine ⟨key', ?_⟩
        rw [visit_counted hroom, hrest, hfull, List.take_zero, List.take_zero, Nat.zero_min,
          Nat.zero_min]

/-- What the document says. -/
theorem summary_contents (maxKeys : String) (m : MockData E) :
    displayedList (summary maxKeys m)
        = (refills [] ((m.entries.take (maxKeysOf maxKeys)).map fun kv => members kv.2)).map .obj
      ∧ getAt ["totalEvents"] (summary maxKeys m)
        = some (.uint (m.entries.map fun kv => kv.2.events.length).sum) := by
  obtain ⟨key', hwalk⟩ := foldl_visit (maxKeysOf maxKeys) (m.entries.map fun kv => kv.2) 0 0 [] []
  rw [Nat.zero_add, Nat.zero_add, Nat.sub_zero, List.nil_append, List.length_map, ← List.map_take,
    List.map_map, List.map_map] at hwalk
  rw [summary, walk, hwalk]
  dsimp only
  by_cases hnone : min (maxKeysOf maxKeys) m.entries.length = 0
  · have htake : m.entries.take (maxKeysOf maxKeys) = [] := by
      rw [← List.length_eq_zero_iff, List.length_take]
      exact hnone
    rw [htake, if_neg (by omega)]
    exact ⟨rfl, rfl⟩
  · rw [if_pos (by omega)]
    exact ⟨rfl, rfl⟩

/-! ## The entries and their keys -/

/-- Whatever was there before, an object that is filled tells the key. -/
theorem field_put_members (h : MockEventsHistory E) (doc : List (String × Json)) :
    field "method" (put (members h) doc) = some (.str h.dataKey.method)
      ∧ field "uri" (put (members h) doc) = some (.str h.dataKey.uri)
      ∧ (h.dataKey.nkeys = 3 → field "clientEndpointId" (put (members h) doc)
        = some (.str h.dataKey.clientEndpointId)) := by
  rw [put_members, keyToJson]
  by_cases hprovision : h.dataKey.provisionUri.isEmpty = true <;>
    by_cases hclient : h.dataKey.nkeys = 3 <;>
    simp [field_setField, hprovision, hclient]

variable {parts : Nat} {m : MockData E}

/-- Objects with the same members are those of one key. -/
theorem eq_of_put (hm : Keyed (fun k => k.nkeys = parts) m) {doc doc' : List (String × Json)}
    {kv kv' : Σ _ : String, MockEventsHistory E} (hkv : kv ∈ m.entries) (hkv' : kv' ∈ m.entries)
    (h : put (members kv.2) doc = put (members kv'.2) doc') : kv = kv' := by
  obtain ⟨k, v⟩ := kv
  obtain ⟨k', v'⟩ := kv'
  have hlookup : m.lookup k = some v := AList.mem_lookup_iff.mpr hkv
  have hlookup' : m.lookup k' = some v' := AList.mem_lookup_iff.mpr hkv'
  obtain ⟨hkey, hparts⟩ := hm k v hlookup
  obtain ⟨hkey', hparts'⟩ := hm k' v' hlookup'
  obtain ⟨hmethod, huri, hclient⟩ := field_put_members v doc
  obtain ⟨hmethod', huri', hclient'⟩ := field_put_members v' doc'
  rw [h, hmethod'] at hmethod
  rw [h, huri'] at huri
  injection hmethod with hmethod
  injection hmethod with hmethod
  injection huri with huri
  injection huri with huri
  have hsame : k = k' := by
    rw [← hkey, ← hkey', DataKey.getKey, DataKey.getKey, hparts, hparts', hmethod, huri]
    by_cases hthree : parts = 3
    · have hid := (hclient (hparts.trans hthree)).symm
      rw [h, hclient' (hparts'.trans hthree)] at hid
      injection hid with hid
      injection hid with hid
      rw [hid]
    · rw [if_neg hthree, if_neg hthree]
  subst hsame
  rw [hlookup] at hlookup'
  rw [Option.some.inj hlookup']

/-- A list of own entries that is the list made by the walk is that of the keys visited. -/
theorem shown_eq (hm : Keyed (fun k => k.nkeys = parts) m) (doc : List (String × Json))
    {visited shown : List (Σ _ : String, MockEventsHistory E)} (hvisited : visited ⊆ m.entries)
    (hshown : shown ⊆ m.entries)
    (h : refills doc (visited.map fun kv => members kv.2)
      = shown.map fun kv => put (members kv.2) []) : visited = shown := by
  induction visited generalizing doc shown with
  | nil => exact (List.map_eq_nil_iff.mp h.symm).symm
  | cons kv visited ih =>
      cases shown with
      | nil => cases h
      | cons kv' shown =>
          rw [List.map_cons, refills, List.map_cons, List.cons.injEq] at h
          have hhead := eq_of_put hm (hvisited List.mem_cons_self) (hshown List.mem_cons_self) h.1
          have htail := ih _ (fun x hx => hvisited (List.mem_cons_of_mem _ hx))
            (fun x hx => hshown (List.mem_cons_of_mem _ hx)) h.2
          rw [hhead, htail]

/-- With as many parts, a key assigns all that another one assigns when it has a provision, or
    the other one has none. -/
theorem names_subset_iff {a b : MockEventsHistory E} (hparts : a.dataKey.nkeys = b.dataKey.nkeys) :
    names (members a) ⊆ names (members b)
      ↔ (a.dataKey.provisionUri ≠ "" → b.dataKey.provisionUri ≠ "") := by
  rw [Ne, Ne, ← String.isEmpty_iff, ← String.isEmpty_iff, members, members, hparts]
  by_cases ha : a.dataKey.provisionUri.isEmpty = true <;>
    by_cases hb : b.dataKey.provisionUri.isEmpty = true <;>
    by_cases hclient : b.dataKey.nkeys = 3 <;>
    simp [names, ha, hb, hclient]

/-- The entries of the walk are the own ones exactly when no listed key without a provision is
    visited after one with it. -/
theorem refills_own_iff (hm : Keyed (fun k => k.nkeys = parts) m) (maxKeys : Nat) :
    refills [] ((m.entries.take maxKeys).map fun kv => members kv.2)
        = (m.entries.take maxKeys).map (fun kv => put (members kv.2) [])
      ↔ ProvisionsLast maxKeys m := by
  have hparts : ∀ kv ∈ m.entries.take maxKeys, kv.2.dataKey.nkeys = parts := fun kv hkv =>
    (hm kv.1 kv.2 (AList.mem_lookup_iff.mpr (List.mem_of_mem_take hkv))).2
  have hnames : ∀ a ∈ m.entries.take maxKeys, ∀ b ∈ m.entries.take maxKeys,
      (names (members a.2) ⊆ names (members b.2)
        ↔ (a.2.dataKey.provisionUri ≠ "" → b.2.dataKey.provisionUri ≠ "")) :=
    fun a ha b hb => names_subset_iff ((hparts a ha).trans (hparts b hb).symm)
  have hrefills := refills_eq_iff (show InOrder [] from List.Pairwise.nil)
    ((m.entries.take maxKeys).map fun kv => members kv.2)
  rw [List.map_map, List.pairwise_map] at hrefills
  refine hrefills.trans ⟨fun h => ?_, fun h => ⟨fun _ _ k hk => absurd rfl hk, ?_⟩⟩
  · exact h.2.imp_of_mem fun {a b} ha hb => (hnames a ha b hb).mp
  · exact List.Pairwise.imp_of_mem (fun {a b} ha hb => (hnames a ha b hb).mpr) h

/-- The list displayed is one of own entries exactly when the walk makes the same objects. -/
theorem displayed_iff (maxKeys : String) (shown : List (Σ _ : String, MockEventsHistory E)) :
    displayedList (summary maxKeys m) = shown.map (fun kv => ownEntry kv.2)
      ↔ refills [] ((m.entries.take (maxKeysOf maxKeys)).map fun kv => members kv.2)
        = shown.map fun kv => put (members kv.2) [] := by
  have hshown : shown.map (fun kv => ownEntry kv.2)
      = (shown.map fun kv => put (members kv.2) []).map .obj := by
    rw [List.map_map]
    exact List.map_congr_left fun kv _ => ownEntry_eq kv.2
  have hobj : Function.Injective Json.obj := by
    intro a b h
    injection h
  rw [(summary_contents maxKeys m).1, hshown]
  exact (List.map_injective_iff.mpr hobj).eq_iff

/-- The summary of a keyed store is right exactly when no listed key without a provision is
    visited after one with it. -/
theorem faithful_iff (hm : Keyed (fun k => k.nkeys = parts) m) (maxKeys : String) :
    FaithfulSummary (maxKeysOf maxKeys) m (summary maxKeys m)
      ↔ ProvisionsLast (maxKeysOf maxKeys) m := by
  have hvisited : m.entries.take (maxKeysOf maxKeys) ⊆ m.entries := List.take_subset ..
  rw [← refills_own_iff hm]
  constructor
  · rintro ⟨⟨shown, hshown, -, -, hdisplayed⟩, -⟩
    have hrefills := (displayed_iff maxKeys shown).mp hdisplayed
    rwa [← shown_eq hm [] hvisited hshown hrefills] at hrefills
  · intro hrefills
    refine ⟨⟨m.entries.take (maxKeysOf maxKeys), hvisited, ?_, ?_, ?_⟩, (summary_contents maxKeys m).2⟩
    · exact m.nodupKeys.sublist (List.take_sublist ..)
    · rw [List.length_take]
    · exact (displayed_iff maxKeys _).mpr hrefills

/-! ## The two stores -/

/-- What is keyed stays so in another order. -/
theorem keyed_perm {C : DataKey → Prop} {m m' : MockData E} (hm : Keyed C m')
    (h : m.entries.Perm m'.entries) : Keyed C m :=
  fun k v hlook => hm k v ((AList.perm_lookup h).symm.trans hlook)

section Stores

variable [MockEventLike E]

/-- The server store after some operations. -/
def serverStore (ops : List (KeyedOp E 2)) : MockData E :=
  (run (fun d (o : KeyedOp E 2) => (serverExec d o.op).2) MockServerData.fresh ops).map

/-- The client store after some operations. -/
def clientStore (ops : List (KeyedOp E 3)) : MockData E :=
  run (fun d (o : KeyedOp E 3) => (clientExec d o.op).2) ∅ ops

/-- A store after some operations, its keys in the order in which they are visited. -/
inductive Reached (m : MockData E) : Prop where
  | server (ops : List (KeyedOp E 2)) (h : m.entries.Perm (serverStore ops).entries)
  | client (ops : List (KeyedOp E 3)) (h : m.entries.Perm (clientStore ops).entries)

theorem keyed_serverStore (ops : List (KeyedOp E 2)) :
    Keyed (fun k => k.nkeys = 2) (serverStore ops) := by
  have hstep : ∀ (d : MockServerData E) (o : KeyedOp E 2), Keyed (fun k => k.nkeys = 2) d.map →
      Keyed (fun k => k.nkeys = 2) (serverExec d o.op).2.map := by
    intro d o hd
    rw [(serverExec_map d o.op).2]
    exact hd.exec o.op o.parts
  exact run_invariant (I := fun d : MockServerData E => Keyed (fun k => k.nkeys = 2) d.map) hstep
    ops MockServerData.fresh (keyed_empty _)

theorem keyed_clientStore (ops : List (KeyedOp E 3)) :
    Keyed (fun k => k.nkeys = 3) (clientStore ops) := by
  have hstep : ∀ (d : MockClientData E) (o : KeyedOp E 3), Keyed (fun k => k.nkeys = 3) d →
      Keyed (fun k => k.nkeys = 3) (clientExec d o.op).2 :=
    fun d o hd => hd.exec o.op o.parts
  exact run_invariant (I := fun d : MockClientData E => Keyed (fun k => k.nkeys = 3) d) hstep
    ops ∅ (keyed_empty _)

/-- **SUMMARY**: after any operations on either store, and in any order of the walk, the summary
    lists as many keys as asked for, each with its own members and its own number of events, and
    counts all events, exactly when no listed key without a provision is visited after one
    with it. -/
theorem summary_faithful_iff (maxKeys : String) (m : MockData E) (hm : Reached m) :
    FaithfulSummary (maxKeysOf maxKeys) m (summary maxKeys m)
      ↔ ProvisionsLast (maxKeysOf maxKeys) m := by
  cases hm with
  | server ops h => exact faithful_iff (keyed_perm (keyed_serverStore ops) h) maxKeys
  | client ops h => exact faithful_iff (keyed_perm (keyed_clientStore ops) h) maxKeys

end Stores

/-! ### Two receptions -/

/-- A reception at the server. -/
def received (method uri provisionUri : String) : KeyedOp H2Transformation.MockEvent 2 where
  op := .loadEvent ((DataKey.ofServer method uri).setProvisionUri provisionUri)
    ⟨"initial", 1, .null⟩ true
  parts := fun _ hk => Option.some.inj hk ▸ rfl

/-- The key that has a provision is visited last. -/
theorem summary_faithful_provision_last :
    FaithfulSummary 2 (serverStore [received "GET" "/a" "/a", received "GET" "/b" ""])
      (summary "2" (serverStore [received "GET" "/a" "/a", received "GET" "/b" ""])) := by
  have hiff := summary_faithful_iff "2"
    (serverStore [received "GET" "/a" "/a", received "GET" "/b" ""]) (.server _ (.refl _))
  exact hiff.mpr (by decide)

/-- The key that has none is visited last, and is listed with the provision of the other one. -/
theorem summary_provision_left_over :
    displayedList (summary "2" (serverStore [received "GET" "/b" "", received "GET" "/a" "/a"]))
        = [.obj [("amount", .uint 1), ("method", .str "GET"), ("provisionUri", .str "/a"),
            ("uri", .str "/a")],
          .obj [("amount", .uint 1), ("method", .str "GET"), ("provisionUri", .str "/a"),
            ("uri", .str "/b")]]
      ∧ ¬ FaithfulSummary 2 (serverStore [received "GET" "/b" "", received "GET" "/a" "/a"])
        (summary "2" (serverStore [received "GET" "/b" "", received "GET" "/a" "/a"])) := by
  refine ⟨rfl, fun h => ?_⟩
  have hlast := (faithful_iff (keyed_serverStore _) "2").mp h
  exact absurd hlast (by decide)

end H2Summary
