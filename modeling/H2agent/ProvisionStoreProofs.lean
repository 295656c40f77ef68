import H2agent.TrafficServerProofs
import H2agent.TransformationLoadProofs

/-! # The store of server provisions — map and order in step

    `AdminServerProvisionData` keeps its provisions twice: in a map, and as a
    list of keys in the order in which they came first.  Documents are loaded
    one by one or in an array, whose load ends at the first that is refused or
    throws; what came before it stays.

    The log of a run holds the provisions inserted since the last clear.
    `Consistent` says what the two structures are in its terms, `step_consistent`
    that every operation keeps them so, and `provision_store_consistent` that
    the search for a regular expression therefore never meets a missing
    provision and finds the first match in that order. -/

namespace H2Provisions

open CppText H2Convert H2Key H2Load H2ServerProvision H2Store H2Traffic H2Transformation
open JsonValue StepRun

/-! ## Loading one document -/

section Load

variable (lib : Lib) (compiles : String → Bool) (schemaOf : String → Option Json)

/-- A conversion to `unsigned int`. -/
def getUnsignedInt : Json → Except Fault Nat
  | .bool b => .ok (if b then 1 else 0)
  | .int i => .ok (wrapU32 (toU64 i))
  | .uint u => .ok (wrapU32 u)
  | .float f => .ok (wrapU32 (lib.floatToU64 f))
  | _ => .error .json

/-- A member that counts only when it is a string. -/
def stringMember (key : String) (j : Json) : Option String :=
  match find key j with
  | some (.str s) => some s
  | _ => none

/-- A state; an empty one is the initial one, as is a missing one. -/
def stateMember (key : String) (j : Json) : String :=
  match stringMember key j with
  | some s => if s.isEmpty then defaultState else s
  | none => defaultState

def loadHeaders : List (String × Json) → Except Fault HeaderMap
  | [] => .ok []
  | (key, v) :: rest => do
      let value ← getString v
      return (key, value) :: (← loadHeaders rest)

def responseHeadersOf (j : Json) : Except Fault HeaderMap :=
  match find "responseHeaders" j with
  | some (.obj fields) => loadHeaders fields
  | _ => .ok []

/-- `response_body_` and its text. -/
def responseBodyOf (j : Json) : Except Fault (Json × String) :=
  match find "responseBody" j with
  | none => .ok (.null, "")
  | some body =>
      match body with
      | .obj _ | .arr _ =>
          match lib.dump body with
          | some text => .ok (body, text)
          | none => .error .json
      | .str s => .ok (.null, s)
      | .int i => .ok (.null, toString (wrapI32 i))
      | .uint u => .ok (.null, toString (wrapI32 u))
      | .float f => .ok (.null, lib.floatText f)
      | .bool b => .ok (.null, if b then "true" else "false")
      | .null => .ok (.null, "null")

def responseDelayMsOf (j : Json) : Except Fault Nat :=
  match find "responseDelayMs" j with
  | some (.int i) => getUnsignedInt lib (.int i)
  | some (.uint u) => getUnsignedInt lib (.uint u)
  | some (.float f) => getUnsignedInt lib (.float f)
  | _ => .ok 0

/-- What a loop over a JSON value visits. -/
def visited : Json → List Json
  | .arr l => l
  | .obj fields => fields.map Prod.snd
  | .null => []
  | j => [j]

def transformationsOf (j : Json) : Except Fault Transformations :=
  match find "transform" j with
  | none => .ok .nil
  | some items => loadTransformations lib compiles (visited items)

/-- `AdminServerProvision::load`: an exception, the answer `false`, or the
    provision.  An empty schema identifier is refused, and under the algorithm
    `RegexMatching` a key that is no regular expression. -/
def loadProvision (regexMatchingConfigured : Bool) (j : Json) :
    Except Fault (Option Provisioned) := do
  let requestMethod ← (deref "requestMethod" j).bind getString
  let responseCode ← (deref "responseCode" j).bind (getUnsignedInt lib)
  let requestUri := (stringMember "requestUri" j).getD ""
  let requestSchemaId := stringMember "requestSchemaId" j
  let responseSchemaId := stringMember "responseSchemaId" j
  if requestSchemaId = some "" || responseSchemaId = some "" then return none
  let responseHeaders ← responseHeadersOf j
  let (responseBody, responseBodyAsString) ← responseBodyOf lib j
  let responseDelayMs ← responseDelayMsOf lib j
  let transformations ← transformationsOf lib compiles j
  let provision : AdminServerProvision :=
    { inState := stateMember "inState" j, outState := stateMember "outState" j, responseCode,
      responseHeaders, responseBody, responseBodyAsString, responseDelayMs,
      requestSchema := requestSchemaId.bind schemaOf,
      responseSchema := responseSchemaId.bind schemaOf, transformations }
  let loaded : Provisioned := ⟨requestMethod, requestUri, none, provision⟩
  if regexMatchingConfigured then
    if compiles loaded.getKey then return some { loaded with regex := some loaded.getKey }
    else return none
  else return some loaded

end Load

/-! ## The store -/

/-- `AdminServerProvisionData::LoadResult`. -/
inductive LoadResult where
  | Success | BadSchema | BadContent
  deriving DecidableEq, Repr

/-- What the validator and the libraries do with documents. -/
structure Loader where
  lib : Lib
  compiles : String → Bool
  schemaOf : String → Option Json
  validate : Json → Bool

/-- `loadSingle`: the result, or the exception that leaves it, and the store. -/
def loadSingle (l : Loader) (regexMatchingConfigured : Bool) (j : Json)
    (d : AdminServerProvisionData) : Except Fault LoadResult × AdminServerProvisionData :=
  if l.validate j then
    match loadProvision l.lib l.compiles l.schemaOf regexMatchingConfigured j with
    | .error e => (.error e, d)
    | .ok none => (.ok .BadContent, d)
    | .ok (some p) => (.ok .Success, d.add p)
  else (.ok .BadSchema, d)

/-- The loop over an array. -/
def loadArray (l : Loader) (regexMatchingConfigured : Bool) :
    List Json → AdminServerProvisionData → Except Fault LoadResult × AdminServerProvisionData
  | [], d => (.ok .Success, d)
  | j :: rest, d =>
      match loadSingle l regexMatchingConfigured j d with
      | (.ok .Success, d') => loadArray l regexMatchingConfigured rest d'
      | other => other

/-- `AdminServerProvisionData::load`. -/
def loadDocument (l : Loader) (regexMatchingConfigured : Bool) (j : Json)
    (d : AdminServerProvisionData) : Except Fault LoadResult × AdminServerProvisionData :=
  match j with
  | .arr items => loadArray l regexMatchingConfigured items d
  | j => loadSingle l regexMatchingConfigured j d

/-- The operations on the store; the matching algorithm may be another at every
    load. -/
inductive StoreAct where
  | load (regexMatchingConfigured : Bool) (j : Json)
  | clear

/-- The store before anything is loaded, and after `clear`. -/
def emptied : AdminServerProvisionData := ⟨∅, []⟩

/-- One operation. -/
def storeStep (l : Loader) (d : AdminServerProvisionData) : StoreAct → AdminServerProvisionData
  | .load regexMatchingConfigured j => (loadDocument l regexMatchingConfigured j d).2
  | .clear => emptied

/-- An expression never assigned matches nothing. -/
def matchesKey (lib : Lib) (key : String) (p : Provisioned) : Bool :=
  match p.regex with
  | none => false
  | some regex => (lib.regexMatch regex key).isSome

/-- The loop of `findRegexMatching`; a missing provision is a null pointer that
    is dereferenced. -/
def regexLoop (lib : Lib) (key : String) (d : AdminServerProvisionData) :
    List String → Except Fault (Option Provisioned)
  | [] => .ok none
  | k :: rest =>
      match d.map.lookup k with
      | none => .error .undefined
      | some p => if matchesKey lib key p then .ok (some p) else regexLoop lib key d rest

/-- `findRegexMatching` with its pointers. -/
def searchRegexMatching (lib : Lib) (d : AdminServerProvisionData) (inState method uri : String) :
    Except Fault (Option Provisioned) :=
  regexLoop lib (calculateStringKey inState method uri) d d.orderedKeys

/-! ## The log of insertions -/

/-- The provision a document is accepted as. -/
def accepted (l : Loader) (regexMatchingConfigured : Bool) (j : Json) : Option Provisioned :=
  if l.validate j then
    match loadProvision l.lib l.compiles l.schemaOf regexMatchingConfigured j with
    | .ok (some p) => some p
    | _ => none
  else none

/-- The provisions of an array up to the first document that is not accepted. -/
def acceptedItems (l : Loader) (regexMatchingConfigured : Bool) : List Json → List Provisioned
  | [] => []
  | j :: rest =>
      match accepted l regexMatchingConfigured j with
      | some p => p :: acceptedItems l regexMatchingConfigured rest
      | none => []

/-- The insertions since the last clear, after one more operation. -/
def logStep (l : Loader) (log : List Provisioned) : StoreAct → List Provisioned
  | .load regexMatchingConfigured (.arr items) =>
      log ++ acceptedItems l regexMatchingConfigured items
  | .load regexMatchingConfigured j => log ++ (accepted l regexMatchingConfigured j).toList
  | .clear => []

/-- The store in terms of the insertions: no key twice, the keys of the map, in
    the order in which they were inserted first, each with its last provision. -/
structure Consistent (d : AdminServerProvisionData) (log : List Provisioned) : Prop where
  nodup : d.orderedKeys.Nodup
  keys : ∀ k, k ∈ d.orderedKeys ↔ (d.map.lookup k).isSome = true
  first_insertion : d.orderedKeys.Pairwise (fun k k' =>
    (log.map Provisioned.getKey).idxOf k < (log.map Provisioned.getKey).idxOf k')
  latest : ∀ k, d.map.lookup k = log.reverse.find? (fun p => p.getKey = k)

/-- The keys of the store are those inserted. -/
theorem Consistent.mem_log {d : AdminServerProvisionData} {log : List Provisioned}
    (h : Consistent d log) (k : String) :
    k ∈ d.orderedKeys ↔ k ∈ log.map Provisioned.getKey := by
  rw [h.keys, h.latest, List.find?_isSome]
  simp [eq_comm]

theorem consistent_emptied : Consistent emptied [] :=
  ⟨List.nodup_nil, by simp [emptied], List.Pairwise.nil, by simp [emptied]⟩

/-- **STEP LEMMA**: one insertion.  A key that is there keeps its place, a new
    one goes to the end of both orders. -/
theorem Consistent.add {d : AdminServerProvisionData} {log : List Provisioned}
    (h : Consistent d log) (p : Provisioned) : Consistent (d.add p) (log ++ [p]) := by
  have hlatest : ∀ k, (d.add p).map.lookup k
      = (log ++ [p]).reverse.find? (fun q => q.getKey = k) := by
    intro k
    rw [List.reverse_append, List.reverse_singleton, List.singleton_append, List.find?_cons]
    by_cases hk : p.getKey = k
    · rw [decide_eq_true hk, ← hk]
      exact AList.lookup_insert _
    · rw [decide_eq_false hk]
      exact (AList.lookup_insert_ne (Ne.symm hk)).trans (h.latest k)
  have hidx : ∀ k ∈ log.map Provisioned.getKey,
      ((log ++ [p]).map Provisioned.getKey).idxOf k = (log.map Provisioned.getKey).idxOf k := by
    intro k hk
    rw [List.map_append, List.idxOf_append_of_mem hk]
  have hold : d.orderedKeys.Pairwise (fun k k' =>
      ((log ++ [p]).map Provisioned.getKey).idxOf k
        < ((log ++ [p]).map Provisioned.getKey).idxOf k') := by
    refine h.first_insertion.imp_of_mem ?_
    intro k k' hk hk' hlt
    rw [hidx k ((h.mem_log k).mp hk), hidx k' ((h.mem_log k').mp hk')]
    exact hlt
  by_cases hthere : (d.map.lookup p.getKey).isSome = true
  · have hkeys : (d.add p).orderedKeys = d.orderedKeys := if_pos hthere
    refine ⟨hkeys ▸ h.nodup, ?_, ?_, hlatest⟩
    · intro k
      rw [hkeys, h.keys]
      by_cases hk : k = p.getKey
      · rw [hk, hthere]
        exact ⟨fun _ => by simp [AdminServerProvisionData.add], fun _ => rfl⟩
      · rw [show (d.add p).map.lookup k = d.map.lookup k from AList.lookup_insert_ne hk]
    · rw [hkeys]
      exact hold
  · -- a new key comes after all keys of the log
    have hkeys : (d.add p).orderedKeys = d.orderedKeys ++ [p.getKey] := if_neg hthere
    have hnew : p.getKey ∉ d.orderedKeys := fun hm => hthere ((h.keys _).mp hm)
    refine ⟨?_, ?_, ?_, hlatest⟩
    · rw [hkeys]
      exact List.nodup_append.mpr ⟨h.nodup, List.nodup_singleton _,
        fun a ha b hb hab => hnew (by rwa [← List.mem_singleton.mp hb, ← hab])⟩
    · intro k
      rw [hkeys, List.mem_append, List.mem_singleton, h.keys]
      by_cases hk : k = p.getKey
      · rw [hk]
        exact ⟨fun _ => by simp [AdminServerProvisionData.add], fun _ => .inr rfl⟩
      · rw [show (d.add p).map.lookup k = d.map.lookup k from AList.lookup_insert_ne hk]
        simp [hk]
    · rw [hkeys]
      refine List.pairwise_append.mpr ⟨?_, List.pairwise_singleton _ _, ?_⟩
      · exact hold
      · intro k hk k' hk'
        rw [List.mem_singleton.mp hk']
        have hmem := (h.mem_log k).mp hk
        have hnew' : p.getKey ∉ log.map Provisioned.getKey := fun hm => hnew ((h.mem_log _).mpr hm)
        rw [hidx k hmem, List.map_append, List.idxOf_append, if_neg hnew']
        exact Nat.lt_of_lt_of_le (List.idxOf_lt_length_of_mem hmem) (Nat.le_add_left _ _)

/-! ## Loads and whole runs -/

variable {l : Loader}

/-- A single document is inserted when it is accepted, and changes nothing
    otherwise. -/
theorem loadSingle_spec (regexMatchingConfigured : Bool) (j : Json)
    (d : AdminServerProvisionData) :
    (∃ p, accepted l regexMatchingConfigured j = some p
        ∧ loadSingle l regexMatchingConfigured j d = (.ok .Success, d.add p))
      ∨ (accepted l regexMatchingConfigured j = none
        ∧ ∃ r, loadSingle l regexMatchingConfigured j d = (r, d) ∧ r ≠ .ok .Success) := by
  unfold accepted loadSingle
  by_cases hv : l.validate j = true
  · rw [if_pos hv, if_pos hv]
    cases hp : loadProvision l.lib l.compiles l.schemaOf regexMatchingConfigured j with
    | error e => exact .inr ⟨rfl, _, rfl, nofun⟩
    | ok loaded =>
        cases loaded with
        | none => exact .inr ⟨rfl, _, rfl, nofun⟩
        | some p => exact .inl ⟨p, rfl, rfl⟩
  · rw [if_neg hv, if_neg hv]
    exact .inr ⟨rfl, _, rfl, nofun⟩

/-- A single document keeps the store consistent. -/
theorem Consistent.loadSingle {d : AdminServerProvisionData} {log : List Provisioned}
    (h : Consistent d log) (regexMatchingConfigured : Bool) (j : Json) :
    Consistent (H2Provisions.loadSingle l regexMatchingConfigured j d).2
      (log ++ (accepted l regexMatchingConfigured j).toList) := by
  rcases loadSingle_spec regexMatchingConfigured j d with ⟨p, hp, heq⟩ | ⟨hp, r, heq, _⟩
  · rw [heq, hp]
    exact h.add p
  · rw [heq, hp, Option.toList_none, List.append_nil]
    exact h

/-- So does an array, wherever its load ends. -/
theorem Consistent.loadArray (regexMatchingConfigured : Bool) (items : List Json)
    {d : AdminServerProvisionData} {log : List Provisioned} (h : Consistent d log) :
    Consistent (H2Provisions.loadArray l regexMatchingConfigured items d).2
      (log ++ acceptedItems l regexMatchingConfigured items) := by
  induction items generalizing d log with
  | nil =>
      rw [acceptedItems, List.append_nil]
      exact h
  | cons j rest ih =>
      rw [H2Provisions.loadArray, acceptedItems]
      rcases loadSingle_spec regexMatchingConfigured j d with ⟨p, hp, heq⟩ | ⟨hp, r, heq, hr⟩
      · rw [heq, hp]
        have hrest := ih (h.add p)
        rw [List.append_assoc, List.singleton_append] at hrest
        exact hrest
      · -- the load ends here with the store as it was
        rw [heq, hp, List.append_nil]
        have hend : (match (r, d) with
            | (.ok .Success, d') => H2Provisions.loadArray l regexMatchingConfigured rest d'
            | other => other) = (r, d) := by
          split
          · rename_i hs
            exact absurd (congrArg Prod.fst hs) hr
          · rfl
        rw [hend]
        exact h

/-- **STEP LEMMA**: every operation keeps the store consistent with the log. -/
theorem step_consistent {d : AdminServerProvisionData} {log : List Provisioned}
    (h : Consistent d log) (a : StoreAct) :
    Consistent (storeStep l d a) (logStep l log a) := by
  cases a with
  | clear => exact consistent_emptied
  | load regexMatchingConfigured j =>
      cases j with
      | arr items => exact h.loadArray regexMatchingConfigured items
      | null => exact h.loadSingle regexMatchingConfigured .null
      | bool b => exact h.loadSingle regexMatchingConfigured (.bool b)
      | int i => exact h.loadSingle regexMatchingConfigured (.int i)
      | uint n => exact h.loadSingle regexMatchingConfigured (.uint n)
      | float f => exact h.loadSingle regexMatchingConfigured (.float f)
      | str s => exact h.loadSingle regexMatchingConfigured (.str s)
      | obj fields => exact h.loadSingle regexMatchingConfigured (.obj fields)

/-- **RUN LEMMA**: after any operations the store is consistent with the log. -/
theorem run_consistent (acts : List StoreAct) {d : AdminServerProvisionData}
    {log : List Provisioned} (h : Consistent d log) :
    Consistent (run (storeStep l) d acts) (run (logStep l) log acts) := by
  induction acts generalizing d log with
  | nil => exact h
  | cons a acts ih => exact ih (step_consistent h a)

/-! ## The search -/

/-- What the search has to return: the provision of the first key, in the order
    of the list, that matches; nothing when none does. -/
def FirstMatch (lib : Lib) (key : String) (d : AdminServerProvisionData) (keys : List String)
    (found : Option Provisioned) : Prop :=
  match found with
  | none => ∀ k ∈ keys, ∀ p, d.map.lookup k = some p → matchesKey lib key p = false
  | some p =>
      ∃ pre k post, keys = pre ++ k :: post ∧ d.map.lookup k = some p
        ∧ matchesKey lib key p = true
        ∧ ∀ k' ∈ pre, ∀ p', d.map.lookup k' = some p' → matchesKey lib key p' = false

/-- Over keys of the map the loop meets no null pointer and finds the first match. -/
theorem regexLoop_spec (lib : Lib) (key : String) {d : AdminServerProvisionData}
    {keys : List String} (h : ∀ k ∈ keys, (d.map.lookup k).isSome = true) :
    ∃ found, regexLoop lib key d keys = .ok found ∧ FirstMatch lib key d keys found := by
  induction keys with
  | nil => exact ⟨none, rfl, by simp [FirstMatch]⟩
  | cons k keys ih =>
      obtain ⟨p, hp⟩ := Option.isSome_iff_exists.mp (h k (by simp))
      rw [regexLoop, hp]
      dsimp only
      by_cases hm : matchesKey lib key p = true
      · rw [if_pos hm]
        exact ⟨some p, rfl, [], k, keys, rfl, hp, hm, nofun⟩
      · rw [if_neg hm]
        have hmiss : ∀ q, d.map.lookup k = some q → matchesKey lib key q = false := by
          intro q hq
          rw [hp] at hq
          rw [← Option.some.inj hq]
          exact Bool.not_eq_true _ ▸ hm
        obtain ⟨found, heq, hfirst⟩ := ih (fun k' hk' => h k' (by simp [hk']))
        refine ⟨found, heq, ?_⟩
        cases found with
        | none =>
            intro k' hk'
            rcases List.mem_cons.mp hk' with rfl | hk'
            · exact hmiss
            · exact hfirst k' hk'
        | some q =>
            obtain ⟨pre, k', post, rfl, hlookup, hmatch, hpre⟩ := hfirst
            refine ⟨k :: pre, k', post, rfl, hlookup, hmatch, ?_⟩
            intro k'' hk''
            rcases List.mem_cons.mp hk'' with rfl | hk''
            · exact hmiss
            · exact hpre k'' hk''

/-- **STORE CONSISTENCY**: after any loads, with failing documents anywhere, and
    clears, the keys are without duplicates those of the map in the order of
    their first insertion, and the search of a regular expression returns,
    without meeting a missing provision, the first match in that order. -/
theorem provision_store_consistent (l : Loader) (acts : List StoreAct) :
    Consistent (run (storeStep l) emptied acts) (run (logStep l) [] acts)
      ∧ ∀ inState method uri, ∃ found,
          searchRegexMatching l.lib (run (storeStep l) emptied acts) inState method uri
            = .ok found
          ∧ FirstMatch l.lib (calculateStringKey inState method uri)
              (run (storeStep l) emptied acts)
              (run (storeStep l) emptied acts).orderedKeys found := by
  have h : Consistent (run (storeStep l) emptied acts) (run (logStep l) [] acts) :=
    run_consistent acts consistent_emptied
  refine ⟨h, ?_⟩
  intro inState method uri
  exact regexLoop_spec l.lib _ (fun k hk => (h.keys k).mp hk)

/-- The loop over keys of the map is the search the traffic server makes. -/
theorem regexLoop_eq_find (lib : Lib) (key : String) {d : AdminServerProvisionData}
    {keys : List String} (h : ∀ k ∈ keys, (d.map.lookup k).isSome = true) :
    regexLoop lib key d keys
      = .ok ((keys.filterMap (fun k => d.map.lookup k)).find? (matchesKey lib key)) := by
  induction keys with
  | nil => rfl
  | cons k keys ih =>
      obtain ⟨p, hp⟩ := Option.isSome_iff_exists.mp (h k (by simp))
      have hlist : (k :: keys).filterMap (fun k => d.map.lookup k)
          = p :: keys.filterMap (fun k => d.map.lookup k) := by
        rw [List.filterMap_cons, hp]
      rw [regexLoop, hp, hlist, List.find?_cons]
      dsimp only
      cases hm : matchesKey lib key p with
      | true => rfl
      | false => exact ih (fun k' hk' => h k' (by simp [hk']))

/-- In every store that operations lead to, `findRegexMatching` of the traffic
    server is the search with its pointers. -/
theorem searchRegexMatching_eq (l : Loader) (acts : List StoreAct) (inState method uri : String) :
    searchRegexMatching l.lib (run (storeStep l) emptied acts) inState method uri
      = .ok ((run (storeStep l) emptied acts).findRegexMatching l.lib inState method uri) := by
  have h : Consistent (run (storeStep l) emptied acts) (run (logStep l) [] acts) :=
    run_consistent acts consistent_emptied
  exact regexLoop_eq_find l.lib _ (fun k hk => (h.keys k).mp hk)

end H2Provisions
