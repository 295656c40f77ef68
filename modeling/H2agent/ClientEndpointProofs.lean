import Mathlib.Data.List.Induction
import H2agent.TransformationProofs

/-! # Client endpoints

    `AdminClientEndpoint` and `AdminClientEndpointData`: where client requests
    are sent to.  The registry holds shared pointers, and a request that is on
    its way keeps the one it was given, so an endpoint is an object with an
    address of its own: the map says which object stands behind an identifier
    now.

    A document for a registered identifier is loaded into the object that is
    there, but only when host, port or secure differ: a document that changes
    nothing but `permit` is answered with success and dropped.
    `endpoint_update_takes_effect_iff` says which sequences of documents end
    with the values of the last one.

    Connections are left out: `connect` opens them and changes no field that is
    read here. -/

namespace H2Endpoint

open CppText H2Convert H2Key H2Transformation JsonValue

/-! ## Documents -/

/-- What `AdminClientEndpoint::load` reads of a document (`readDocument`), assigns
    (`AdminClientEndpoint.assign`) and then validates (`accepted`). -/
structure EndpointDocument where
  id : String
  host : String
  port : Int
  secure : Bool
  permit : Bool
  deriving DecidableEq, Repr

/-- The reading part of `AdminClientEndpoint::load`. -/
def readDocument (lib : Lib) (j : Json) : Except Fault EndpointDocument := do
  let id ← mandatoryText j "id"
  let host ← mandatoryText j "host"
  let port ← mandatoryInt lib j "port"
  return ⟨id, host, port, optionalFlag j "secure" false, optionalFlag j "permit" true⟩

/-- The validations that are not in the schema. -/
def EndpointDocument.accepted (doc : EndpointDocument) : Bool :=
  !doc.id.isEmpty && !doc.host.isEmpty

/-- Host, port and secure are the same. -/
def EndpointDocument.sameAddress (doc other : EndpointDocument) : Bool :=
  doc.host == other.host && doc.port == other.port && doc.secure == other.secure

/-! ## Endpoints -/

/-- `AdminClientEndpoint`. -/
structure AdminClientEndpoint where
  key : String := ""
  host : String := ""
  port : Int := 0
  secure : Bool := false
  permit : Bool := false
  sendSeq : Nat := 0
  deriving DecidableEq, Repr

namespace AdminClientEndpoint

/-- The assignments of `load`; the send sequence is no part of a document. -/
def assign (e : AdminClientEndpoint) (doc : EndpointDocument) : AdminClientEndpoint :=
  { e with
    key := doc.id, host := doc.host, port := doc.port, secure := doc.secure,
    permit := doc.permit }

/-- `incrementSendSeq`: the new value of an unsigned 64-bit counter. -/
def incrementSendSeq (e : AdminClientEndpoint) : Nat × AdminClientEndpoint :=
  let n := wrapU64 (e.sendSeq + 1)
  (n, { e with sendSeq := n })

/-- What an endpoint exposes, as a document. -/
def exposed (e : AdminClientEndpoint) : EndpointDocument :=
  ⟨e.key, e.host, e.port, e.secure, e.permit⟩

@[simp] theorem assign_key (e : AdminClientEndpoint) (doc : EndpointDocument) :
    (e.assign doc).key = doc.id := rfl

end AdminClientEndpoint

/-- `AdminClientEndpointData::LoadResult`. -/
inductive LoadResult where
  | Success | Accepted | BadSchema | BadContent
  deriving DecidableEq, Repr

/-- The results of a load that was done. -/
def LoadResult.good : LoadResult → Bool
  | .Success | .Accepted => true
  | _ => false

/-- `AdminClientEndpointData`: the objects made so far, and which of them is
    registered under an identifier.  A registered object has the identifier it is
    registered under, so no object is registered twice. -/
structure AdminClientEndpointData where
  map : TextMap Nat
  objects : Nat → AdminClientEndpoint
  made : Nat
  keyed : ∀ id p, map.lookup id = some p → p < made ∧ (objects p).key = id

namespace AdminClientEndpointData

/-- No endpoint. -/
def empty : AdminClientEndpointData where
  map := ∅
  objects _ := {}
  made := 0
  keyed id p h := by
    rw [AList.lookup_empty] at h
    cases h

/-- The object registered under an identifier. -/
def pointer (d : AdminClientEndpointData) (id : String) : Option Nat := d.map.lookup id

/-- `find`. -/
def find (d : AdminClientEndpointData) (id : String) : Option AdminClientEndpoint :=
  (d.pointer id).map d.objects

/-- `Map::add` of a new object under its key. -/
def add (d : AdminClientEndpointData) (e : AdminClientEndpoint) : AdminClientEndpointData where
  map := d.map.insert e.key d.made
  objects := Function.update d.objects d.made e
  made := d.made + 1
  keyed id p h := by
    by_cases hid : id = e.key
    · rw [hid, AList.lookup_insert] at h
      cases h
      exact ⟨Nat.lt_succ_self d.made, by rw [Function.update_self, hid]⟩
    · rw [AList.lookup_insert_ne hid] at h
      obtain ⟨hp, hkey⟩ := d.keyed id p h
      exact ⟨Nat.lt_succ_of_lt hp, by rw [Function.update_of_ne (Nat.ne_of_lt hp), hkey]⟩

/-- Change an object in place, the key apart. -/
def modify (d : AdminClientEndpointData) (p : Nat) (e : AdminClientEndpoint)
    (hkey : e.key = (d.objects p).key) : AdminClientEndpointData where
  map := d.map
  objects := Function.update d.objects p e
  made := d.made
  keyed id q h := by
    obtain ⟨hq, hid⟩ := d.keyed id q h
    refine ⟨hq, ?_⟩
    by_cases hpq : q = p
    · rw [hpq, Function.update_self, hkey, ← hpq, hid]
    · rw [Function.update_of_ne hpq, hid]

/-- `Map::clear`: the objects live on as long as somebody holds them. -/
def clear (d : AdminClientEndpointData) : AdminClientEndpointData where
  map := ∅
  objects := d.objects
  made := d.made
  keyed id p h := by
    rw [AList.lookup_empty] at h
    cases h

/-- An accepted document: into the registered object when host, port or secure
    differ, into no object when they do not, into a new one without any. -/
def put (d : AdminClientEndpointData) (doc : EndpointDocument) :
    LoadResult × AdminClientEndpointData :=
  match h : d.pointer doc.id with
  | none => (.Success, d.add (AdminClientEndpoint.assign {} doc))
  | some p =>
      if (d.objects p).exposed.sameAddress doc then (.Success, d)
      else
        (.Accepted, d.modify p ((d.objects p).assign doc) (by
          rw [AdminClientEndpoint.assign_key, (d.keyed doc.id p h).2]))

/-- `loadSingle`.  The validator is a library applied to the schema of client
    endpoints. -/
def loadSingle (valid : Json → Bool) (lib : Lib) (d : AdminClientEndpointData) (j : Json) :
    Except Fault (LoadResult × AdminClientEndpointData) :=
  if !valid j then .ok (.BadSchema, d)
  else
    match readDocument lib j with
    | .error e => .error e
    | .ok doc => .ok (if doc.accepted then d.put doc else (.BadContent, d))

/-- The loop of `load` over an array: the first bad item ends it. -/
def loadEach (valid : Json → Bool) (lib : Lib) :
    List Json → Bool → AdminClientEndpointData →
      Except Fault (LoadResult × AdminClientEndpointData)
  | [], oneAccepted, d => .ok (if oneAccepted then .Accepted else .Success, d)
  | j :: js, oneAccepted, d =>
      match d.loadSingle valid lib j with
      | .error e => .error e
      | .ok (result, d) =>
          if result.good then
            loadEach valid lib js (oneAccepted || result == .Accepted) d
          else .ok (result, d)

/-- `load`. -/
def load (valid : Json → Bool) (lib : Lib) (d : AdminClientEndpointData) (j : Json) :
    Except Fault (LoadResult × AdminClientEndpointData) :=
  match j with
  | .arr js => loadEach valid lib js false d
  | j => d.loadSingle valid lib j

/-- Loads one after the other, all of them done. -/
def loadAll (valid : Json → Bool) (lib : Lib) :
    List Json → AdminClientEndpointData → Option AdminClientEndpointData
  | [], d => some d
  | j :: js, d =>
      match d.load valid lib j with
      | .error _ => none
      | .ok (result, d) => if result.good then loadAll valid lib js d else none

/-- What is exposed under an identifier. -/
def exposedUnder (d : AdminClientEndpointData) (id : String) : Option EndpointDocument :=
  (d.find id).map AdminClientEndpoint.exposed

end AdminClientEndpointData

/-! ## What a sequence of documents leaves -/

/-- The documents of a load. -/
def documentsOf (lib : Lib) (j : Json) : List EndpointDocument :=
  match j with
  | .arr js => js.filterMap (fun j => (readDocument lib j).toOption)
  | j => (readDocument lib j).toOption.toList

/-- What is exposed after one more document for an identifier. -/
def updated (old : Option EndpointDocument) (doc : EndpointDocument) : EndpointDocument :=
  match old with
  | none => doc
  | some shown => if shown.sameAddress doc then shown else doc

/-- What is exposed under an identifier after documents for any. -/
def updatedBy (id : String) (old : Option EndpointDocument) (docs : List EndpointDocument) :
    Option EndpointDocument :=
  (docs.filter (fun doc => doc.id == id)).foldl (fun shown doc => some (updated shown doc)) old

/-- The document since which host, port and secure are the same: the last one, or an
    older one (the youngest first). -/
def addressSince (last : EndpointDocument) : List EndpointDocument → EndpointDocument
  | [] => last
  | doc :: older => if doc.sameAddress last then addressSince doc older else last

section Updates

variable (valid : Json → Bool) (lib : Lib)

open AdminClientEndpointData

theorem find_add (d : AdminClientEndpointData) {e : AdminClientEndpoint} {key : String}
    (hkey : e.key = key) (id : String) :
    (d.add e).find id = if id = key then some e else d.find id := by
  simp only [find, pointer, add, hkey]
  by_cases hid : id = key
  · rw [if_pos hid, hid, AList.lookup_insert, Option.map_some, Function.update_self]
  · rw [if_neg hid, AList.lookup_insert_ne hid]
    cases hp : d.map.lookup id with
    | none => rfl
    | some p =>
        have hlt := (d.keyed id p hp).1
        rw [Option.map_some, Option.map_some, Function.update_of_ne (Nat.ne_of_lt hlt)]

theorem find_modify {d : AdminClientEndpointData} {p : Nat} {e : AdminClientEndpoint}
    (hkey : e.key = (d.objects p).key) {key : String} (hp : d.pointer key = some p)
    (id : String) :
    (d.modify p e hkey).find id = if id = key then some e else d.find id := by
  have hmap : (d.modify p e hkey).pointer id = d.pointer id := rfl
  have hobjects : (d.modify p e hkey).objects = Function.update d.objects p e := rfl
  rw [find, find, hmap, hobjects]
  by_cases hid : id = key
  · rw [if_pos hid, hid, hp, Option.map_some, Function.update_self]
  · rw [if_neg hid]
    cases hq : d.pointer id with
    | none => rfl
    | some q =>
        -- the object of another identifier is another object
        have hne : q ≠ p := by
          rintro rfl
          exact hid ((d.keyed id q hq).2.symm.trans (d.keyed key q hp).2)
        rw [Option.map_some, Option.map_some, Function.update_of_ne hne]

theorem updatedBy_single (id : String) (old : Option EndpointDocument) (doc : EndpointDocument) :
    updatedBy id old [doc] = if id = doc.id then some (updated old doc) else old := by
  by_cases hid : id = doc.id
  · rw [if_pos hid, updatedBy, List.filter_cons_of_pos (by simp [hid])]
    rfl
  · have hne : (doc.id == id) = false := beq_eq_false_iff_ne.mpr (fun h => hid h.symm)
    rw [if_neg hid, updatedBy, List.filter_cons_of_neg (by simp [hne])]
    rfl

/-- One document changes what is exposed under its identifier, and nothing else. -/
theorem put_exposedUnder (d : AdminClientEndpointData) (doc : EndpointDocument) (id : String) :
    (d.put doc).2.exposedUnder id = updatedBy id (d.exposedUnder id) [doc] := by
  rw [updatedBy_single]
  simp only [put]
  split
  · next hnone =>
      rw [exposedUnder, find_add d (AdminClientEndpoint.assign_key {} doc)]
      by_cases hid : id = doc.id
      · rw [if_pos hid, if_pos hid, hid, exposedUnder, find, hnone]
        rfl
      · rw [if_neg hid, if_neg hid]
        rfl
  · next p hp =>
      have hshown : d.exposedUnder doc.id = some (d.objects p).exposed := by
        rw [exposedUnder, find, hp]
        rfl
      by_cases hsame : (d.objects p).exposed.sameAddress doc = true
      · rw [if_pos hsame]
        by_cases hid : id = doc.id
        · rw [if_pos hid, hid, hshown, updated, if_pos hsame]
        · rw [if_neg hid]
      · rw [if_neg hsame, exposedUnder, find_modify _ hp]
        by_cases hid : id = doc.id
        · rw [if_pos hid, if_pos hid, hid, hshown, updated, if_neg hsame]
          rfl
        · rw [if_neg hid, if_neg hid]
          rfl

theorem updatedBy_append (id : String) (old : Option EndpointDocument)
    (docs more : List EndpointDocument) :
    updatedBy id old (docs ++ more) = updatedBy id (updatedBy id old docs) more := by
  rw [updatedBy, List.filter_append, List.foldl_append]
  rfl

theorem loadSingle_good {d d' : AdminClientEndpointData} {j : Json} {result : LoadResult}
    (h : d.loadSingle valid lib j = .ok (result, d')) (hgood : result.good = true) :
    ∃ doc, readDocument lib j = .ok doc ∧ d' = (d.put doc).2 := by
  simp only [loadSingle] at h
  split at h
  · cases h
    exact nomatch hgood
  · split at h
    · exact nomatch h
    · next doc hdoc =>
        refine ⟨doc, hdoc, ?_⟩
        split at h
        · exact (congrArg Prod.snd (Except.ok.inj h)).symm
        · cases h
          exact nomatch hgood

theorem loadEach_good (js : List Json) (oneAccepted : Bool) {d d' : AdminClientEndpointData}
    {result : LoadResult} (h : loadEach valid lib js oneAccepted d = .ok (result, d'))
    (hgood : result.good = true) (id : String) :
    d'.exposedUnder id = updatedBy id (d.exposedUnder id)
      (js.filterMap (fun j => (readDocument lib j).toOption)) := by
  induction js generalizing oneAccepted d with
  | nil =>
      cases h
      rfl
  | cons j js ih =>
      rw [loadEach] at h
      cases hj : d.loadSingle valid lib j with
      | error e =>
          rw [hj] at h
          exact nomatch h
      | ok out =>
          obtain ⟨r, d1⟩ := out
          rw [hj] at h
          by_cases hr : r.good = true
          · obtain ⟨doc, hdoc, rfl⟩ := loadSingle_good valid lib hj hr
            simp only [hr, if_true] at h
            rw [ih _ h, put_exposedUnder, ← updatedBy_append,
              List.filterMap_cons_some (by rw [hdoc]; rfl)]
            rfl
          · simp only [hr] at h
            cases h
            exact (hr hgood).elim

theorem load_good {j : Json} {d d' : AdminClientEndpointData} {result : LoadResult}
    (h : d.load valid lib j = .ok (result, d')) (hgood : result.good = true) (id : String) :
    d'.exposedUnder id = updatedBy id (d.exposedUnder id) (documentsOf lib j) := by
  simp only [load] at h
  split at h
  · exact loadEach_good valid lib _ _ h hgood id
  · next harr =>
      obtain ⟨doc, hdoc, rfl⟩ := loadSingle_good valid lib h hgood
      have hdocs : documentsOf lib j = [doc] := by
        rw [documentsOf]
        · rw [hdoc]
          rfl
        · exact harr
      rw [put_exposedUnder, hdocs]

/-- What a sequence of loads leaves is decided by the documents, one at a time. -/
theorem loadAll_exposedUnder (js : List Json) {d d' : AdminClientEndpointData}
    (h : loadAll valid lib js d = some d') (id : String) :
    d'.exposedUnder id
      = updatedBy id (d.exposedUnder id) (js.flatMap (documentsOf lib)) := by
  induction js generalizing d with
  | nil =>
      cases h
      rfl
  | cons j js ih =>
      rw [loadAll] at h
      cases hj : d.load valid lib j with
      | error e =>
          rw [hj] at h
          exact nomatch h
      | ok out =>
          obtain ⟨r, d1⟩ := out
          rw [hj] at h
          by_cases hr : r.good = true
          · simp only [hr, if_true] at h
            rw [ih h, load_good valid lib hj hr, List.flatMap_cons, updatedBy_append]
          · simp only [hr] at h
            exact nomatch h

/-! ## The last document -/

theorem sameAddress_iff {doc other : EndpointDocument} :
    doc.sameAddress other = true
      ↔ doc.host = other.host ∧ doc.port = other.port ∧ doc.secure = other.secure := by
  simp only [EndpointDocument.sameAddress, Bool.and_eq_true, beq_iff_eq, and_assoc]

/-- The address since a document is its own. -/
theorem addressSince_sameAddress (last : EndpointDocument) (older : List EndpointDocument) :
    (addressSince last older).sameAddress last = true := by
  induction older generalizing last with
  | nil => exact sameAddress_iff.mpr ⟨rfl, rfl, rfl⟩
  | cons doc older ih =>
      rw [addressSince]
      by_cases hsame : doc.sameAddress last = true
      · rw [if_pos hsame]
        obtain ⟨hh, hp, hs⟩ := sameAddress_iff.mp (ih doc)
        obtain ⟨hh', hp', hs'⟩ := sameAddress_iff.mp hsame
        exact sameAddress_iff.mpr ⟨hh.trans hh', hp.trans hp', hs.trans hs'⟩
      · rw [if_neg hsame]
        exact sameAddress_iff.mpr ⟨rfl, rfl, rfl⟩

/-- Updates show the document since which the address is the same. -/
theorem foldl_updated (older : List EndpointDocument) (last : EndpointDocument) :
    (older ++ [last]).foldl (fun shown doc => some (updated shown doc)) none
      = some (addressSince last older.reverse) := by
  induction older using List.reverseRecOn generalizing last with
  | nil => rfl
  | append_singleton older doc ih =>
      rw [List.foldl_append, ih doc, List.reverse_concat, addressSince]
      -- what is shown has the address of `doc`, so both compare alike with `last`
      obtain ⟨hh, hp, hs⟩ := sameAddress_iff.mp (addressSince_sameAddress doc older.reverse)
      have hsame : (addressSince doc older.reverse).sameAddress last = doc.sameAddress last := by
        simp only [EndpointDocument.sameAddress, hh, hp, hs]
      simp only [List.foldl_cons, List.foldl_nil, updated, hsame]

/-- **AN UPDATE TAKES EFFECT** exactly when the last document has the `permit` of the
    one since which host, port and secure are the same: after any sequence of loads
    that were all done, single documents or arrays on any identifiers, `find` exposes
    the values of the last document of an identifier if and only if this holds of the
    documents of that identifier. -/
theorem endpoint_update_takes_effect_iff (js : List Json) {d : AdminClientEndpointData}
    (h : loadAll valid lib js .empty = some d) (older : List EndpointDocument)
    (last : EndpointDocument)
    (hdocs : (js.flatMap (documentsOf lib)).filter (fun doc => doc.id == last.id)
      = older ++ [last]) :
    (∃ e, d.find last.id = some e ∧ e.host = last.host ∧ e.port = last.port
        ∧ e.secure = last.secure ∧ e.permit = last.permit)
      ↔ (addressSince last older.reverse).permit = last.permit := by
  have hshown : d.exposedUnder last.id = some (addressSince last older.reverse) := by
    rw [loadAll_exposedUnder valid lib js h, updatedBy, hdocs]
    exact foldl_updated older last
  obtain ⟨e, hfind, he⟩ := Option.map_eq_some_iff.mp hshown
  obtain ⟨hh, hp, hs⟩ := sameAddress_iff.mp (addressSince_sameAddress last older.reverse)
  rw [← he] at hh hp hs ⊢
  constructor
  · rintro ⟨e', hfind', -, -, -, hpermit⟩
    rw [hfind] at hfind'
    cases hfind'
    exact hpermit
  · intro hpermit
    exact ⟨e, hfind, hh, hp, hs, hpermit⟩

end Updates

/-- A document for the endpoint `a`. -/
def documentFor (permit : Bool) : Json :=
  .obj [("host", .str "localhost"), ("id", .str "a"), ("permit", .bool permit),
    ("port", .uint 8000)]

/-- The endpoint `a` moved to another host, and disabled with that. -/
def movedLoads : List Json :=
  [documentFor true,
    .arr [.obj [("host", .str "remote"), ("id", .str "a"), ("permit", .bool false),
      ("port", .uint 8000)]]]

/-- A change of the host takes the permit along. -/
theorem moved_endpoint_is_disabled :
    (AdminClientEndpointData.loadAll (fun _ => true) idleLib movedLoads .empty).isSome = true
      ∧ ∀ d, AdminClientEndpointData.loadAll (fun _ => true) idleLib movedLoads .empty = some d →
        ∃ e, d.find "a" = some e ∧ e.host = "remote" ∧ e.port = 8000 ∧ e.secure = false
          ∧ e.permit = false :=
  ⟨by decide, fun _ h =>
    (endpoint_update_takes_effect_iff (fun _ => true) idleLib movedLoads h
      [⟨"a", "localhost", 8000, false, true⟩] ⟨"a", "remote", 8000, false, false⟩
      (by decide)).mpr (by decide)⟩

/-- The endpoint `a` loaded, and then disabled where it is. -/
def disablingLoads : List Json := [documentFor true, documentFor false]

/-- The last document disables the endpoint; all loads succeed, and the endpoint stays
    enabled. -/
theorem disabling_alone_is_dropped :
    readDocument idleLib (documentFor false) = .ok ⟨"a", "localhost", 8000, false, false⟩
      ∧ ∃ d e, AdminClientEndpointData.loadAll (fun _ => true) idleLib disablingLoads .empty
          = some d
        ∧ d.find "a" = some e ∧ e.permit = true := by
  refine ⟨by decide, ?_⟩
  have hshown : (AdminClientEndpointData.loadAll (fun _ => true) idleLib disablingLoads
      .empty).bind (fun d => d.find "a")
      = some { key := "a", host := "localhost", port := 8000, permit := true } := by decide
  obtain ⟨d, hload, hfind⟩ := Option.bind_eq_some_iff.mp hshown
  exact ⟨d, _, hload, hfind, rfl⟩

end H2Endpoint
