import H2agent.ClientProvisionProofs
import H2agent.DocumentLoadProofs
import H2agent.JsonAssignProofs
import H2agent.MapListingProofs
import H2agent.ProvisionDocumentProofs
import H2agent.TriggeringProofs

/-! # Client provisions with their documents

    A client provision shows its document together with its dynamics, which it writes into
    the document when it is loaded, while its timer runs, and each time it is listed.  The
    schema of client provisions does not know that member.

    * `saveDynamics_shown` — dynamics saved over others leave nothing of them;
    * `kept_run` — in every run each provision comes from a valid document and shows it;
    * `client_provisions_restored` — a listing is never taken back, unless it is empty;
      without the dynamics it is, and makes every provision again. -/

namespace H2ClientDocuments

open CppText DocumentLoad H2ClientProvision H2Convert H2Key H2Load H2Provisions H2Store
open H2ProvisionDocuments (success success_iff)
open H2Transformation H2Trigger JsonValue Json MapListing StepRun

/-! ## Loading one document -/

/-- `DEFAULT_ADMIN_PROVISION_CLIENT_OUT_STATE`. -/
def clientOutState : String := "road-closed"

/-- What `load` reads of a document. -/
structure LoadedProvision where
  clientProvisionId : String
  clientEndpointId : String
  provision : AdminClientProvision

/-- `getKey`. -/
def LoadedProvision.getKey (p : LoadedProvision) : String :=
  calculateStringKey p.provision.inState p.clientProvisionId ""

section Load

variable (lib : Lib) (compiles : String → Bool) (schemaOf : String → Option Json)

/-- The state left behind; without one the road is closed. -/
def outStateMember (j : Json) : String :=
  match stringMember "outState" j with
  | some s => if s.isEmpty then defaultState else s
  | none => clientOutState

def requestHeadersOf (j : Json) : Except Fault HeaderMap :=
  match find "requestHeaders" j with
  | some (.obj fields) => loadHeaders fields
  | _ => .ok []

/-- `request_body_` and its text. -/
def requestBodyOf (j : Json) : Except Fault (Json × String) :=
  match find "requestBody" j with
  | none => .ok (.null, "")
  | some body =>
      match body with
      | .obj _ | .arr _ =>
          match lib.dump body with
          | some text => .ok (body, text)
          | none => .error .json
      | .str s => .ok (.null, s)
      | .int i => .ok (.null, toString (wrapI32 i))
      | .uint u => .ok (.null, toString (wrapI32 u))
      | .float f => .ok (.null, lib.floatText f)
      | .bool b => .ok (.null, if b then "true" else "false")
      | .null => .ok (.null, "null")

/-- A member that counts only when it is a number. -/
def numberMember (key : String) (j : Json) : Except Fault Nat :=
  match find key j with
  | some (.int i) => getUnsignedInt lib (.int i)
  | some (.uint u) => getUnsignedInt lib (.uint u)
  | some (.float f) => getUnsignedInt lib (.float f)
  | _ => .ok 0

def itemsOf (key : String) (j : Json) : Except Fault Transformations :=
  match find key j with
  | none => .ok .nil
  | some items => loadTransformations lib compiles (visited items)

/-- `AdminClientProvision::load`: an exception, the answer `false`, or the provision.  The
    states that mark the ends of a chain are refused where they cannot stand, and so is an
    empty schema identifier. -/
def loadProvision (j : Json) : Except Fault (Option LoadedProvision) := do
  let clientProvisionId ← (deref "id" j).bind getString
  let clientEndpointId := (stringMember "endpoint" j).getD ""
  let requestMethod := (stringMember "requestMethod" j).getD ""
  let requestUri := (stringMember "requestUri" j).getD ""
  let inState := stateMember "inState" j
  if inState = clientOutState then return none
  let outState := outStateMember j
  if outState = defaultState then return none
  let requestSchemaId := stringMember "requestSchemaId" j
  let responseSchemaId := stringMember "responseSchemaId" j
  if requestSchemaId = some "" || responseSchemaId = some "" then return none
  let requestHeaders ← requestHeadersOf j
  let (requestBody, requestBodyAsString) ← requestBodyOf lib j
  let requestDelayMs ← numberMember lib "requestDelayMs" j
  let requestTimeoutMs ← numberMember lib "timeoutMs" j
  let expectedResponseStatusCode ← numberMember lib "expectedResponseStatusCode" j
  let transformations ← itemsOf lib compiles "transform" j
  let onResponseTransformations ← itemsOf lib compiles "onResponseTransform" j
  return some ⟨clientProvisionId, clientEndpointId,
    { inState, outState, requestMethod, requestUri, requestHeaders, requestBody,
      requestBodyAsString, requestDelayMs, requestTimeoutMs, expectedResponseStatusCode,
      requestSchema := requestSchemaId.bind schemaOf,
      responseSchema := responseSchemaId.bind schemaOf,
      transformations, onResponseTransformations }⟩

end Load

/-! ## The dynamics in the document -/

/-- The assignments of `saveDynamics`. -/
def dynamicsWrites (d : Dynamics) : List Write :=
  [(["dynamics", "sequence"], .int d.seq), (["dynamics", "sequenceBegin"], .int d.seqBegin),
    (["dynamics", "sequenceEnd"], .int d.seqEnd), (["dynamics", "cps"], .uint d.cps),
    (["dynamics", "repeat"], .bool d.repeat_)]

/-- `saveDynamics`; `none` is an exception. -/
def saveDynamics (d : Dynamics) (j : Json) : Option Json := assignAll (dynamicsWrites d) j

/-- The dynamics assigned to the members of an object. -/
def dynamicsFields (d : Dynamics) (fields : List (String × Json)) : List (String × Json) :=
  setField "repeat" (.bool d.repeat_) (setField "cps" (.uint d.cps)
    (setField "sequenceEnd" (.int d.seqEnd) (setField "sequenceBegin" (.int d.seqBegin)
      (setField "sequence" (.int d.seq) fields))))

/-- A document with its dynamics. -/
def shown (d : Dynamics) (fields : List (String × Json)) : Json :=
  .obj (setField "dynamics" (.obj (dynamicsFields d [])) fields)

/-- Dynamics saved over others leave nothing of them. -/
theorem dynamicsFields_again (d d' : Dynamics) :
    dynamicsFields d (dynamicsFields d' []) = dynamicsFields d [] := by
  have hempty : InOrder [] := List.Pairwise.nil
  have hordered : ∀ (d : Dynamics) {fields : List (String × Json)}, InOrder fields →
      InOrder (dynamicsFields d fields) := fun d _ h =>
    ((((h.setField _ _).setField _ _).setField _ _).setField _ _).setField _ _
  refine InOrder.ext (hordered d (hordered d' hempty)) (hordered d hempty) ?_
  intro k
  simp only [dynamicsFields, field_setField]
  grind

/-- `saveDynamics` in a document, by what its member was before. -/
theorem saveDynamics_eq (d : Dynamics) {fields members : List (String × Json)}
    (h : objectFields ((field "dynamics" fields).getD .null) = some members) :
    saveDynamics d (.obj fields)
      = some (.obj (setField "dynamics" (.obj (dynamicsFields d members)) fields)) := by
  have hfield : ∀ c, field "dynamics" (setField "dynamics" c fields) = some c := by
    intro c
    rw [field_setField, if_pos rfl]
  have hobj : ∀ fs, objectFields (.obj fs) = some fs := fun _ => rfl
  simp only [saveDynamics, dynamicsWrites, assignAll, assign, hobj, h, hfield, Option.bind_some,
    Option.map_some, Option.getD_some, setField_setField, dynamicsFields]

/-- `saveDynamics` in a document without dynamics. -/
theorem saveDynamics_of_none (d : Dynamics) {fields : List (String × Json)}
    (h : field "dynamics" fields = none) : saveDynamics d (.obj fields) = some (shown d fields) :=
  saveDynamics_eq d (by rw [h]; rfl)

/-- `saveDynamics` in a document it was called for before. -/
theorem saveDynamics_shown (d d' : Dynamics) (fields : List (String × Json)) :
    saveDynamics d (shown d' fields) = some (shown d fields) := by
  have hfield : field "dynamics" (setField "dynamics" (.obj (dynamicsFields d' [])) fields)
      = some (.obj (dynamicsFields d' [])) := by
    rw [field_setField, if_pos rfl]
  unfold shown
  rw [saveDynamics_eq d (by rw [hfield]; rfl), dynamicsFields_again, setField_setField]

/-- A document without its dynamics. -/
def withoutDynamics : Json → Json
  | .obj fields => .obj (dropField "dynamics" fields)
  | j => j

theorem dropField_setField {key : String} {fields : List (String × Json)}
    (h : field key fields = none) (v : Json) : dropField key (setField key v fields) = fields := by
  induction fields with
  | nil => simp [setField, dropField]
  | cons kv rest ih =>
      obtain ⟨k, w⟩ := kv
      have hk : k ≠ key := by
        intro heq
        rw [field_cons, if_pos heq] at h
        cases h
      rw [field_cons, if_neg hk] at h
      rw [setField, if_neg hk]
      by_cases hlt : key < k
      · rw [if_pos hlt, dropField, if_pos rfl]
      · rw [if_neg hlt, dropField, if_neg hk, ih h]

/-! ## The store -/

/-- The members that the schema of client provisions knows. -/
def knownMembers : List String :=
  ["description", "id", "inState", "outState", "endpoint", "requestMethod", "requestUri",
    "requestSchemaId", "requestHeaders", "requestBody", "requestDelayMs", "timeoutMs",
    "transform", "onResponseTransform", "responseSchemaId", "expectedResponseStatusCode"]

/-- What the validator and the libraries do with documents; `rest` is what the schema asks
    of the members it knows. -/
structure Loader where
  lib : Lib
  compiles : String → Bool
  schemaOf : String → Option Json
  rest : Json → Bool

/-- The schema: an object with an identifier and without other members. -/
def Loader.validate (l : Loader) (j : Json) : Bool :=
  match j with
  | .obj fields =>
      fields.all (fun f => knownMembers.contains f.1) && (field "id" fields).isSome && l.rest j
  | _ => false

/-- The dynamics of a provision that was never triggered. -/
def idle : Dynamics := ⟨0, 0, 0, 0, false, false⟩

/-- `AdminClientProvision`: what was read, the document with the dynamics saved last, the
    dynamics, and whether it was employed. -/
structure StoredProvision where
  loaded : LoadedProvision
  json : Json
  dynamics : Dynamics := idle
  employed : Bool := false

def StoredProvision.getKey (e : StoredProvision) : String := e.loaded.getKey

/-- `AdminClientProvisionData`. -/
abbrev ProvisionStore := TextMap StoredProvision

namespace ProvisionStore

/-- `loadSingle`. -/
def loadSingle (l : Loader) (j : Json) (d : ProvisionStore) :
    Except Fault LoadResult × ProvisionStore :=
  if l.validate j then
    match loadProvision l.lib l.compiles l.schemaOf j with
    | .error e => (.error e, d)
    | .ok none => (.ok .BadContent, d)
    | .ok (some p) =>
        match saveDynamics idle j with
        | none => (.error .json, d)
        | some json => (.ok .Success, d.insert p.getKey { loaded := p, json := json })
  else (.ok .BadSchema, d)

/-- The loop over an array. -/
def loadArray (l : Loader) : List Json → ProvisionStore → Except Fault LoadResult × ProvisionStore
  | [], d => (.ok .Success, d)
  | j :: rest, d =>
      if success (loadSingle l j d).1 then loadArray l rest (loadSingle l j d).2
      else loadSingle l j d

/-- `load`. -/
def load (l : Loader) (j : Json) (d : ProvisionStore) :
    Except Fault LoadResult × ProvisionStore :=
  match j with
  | .arr items => loadArray l items d
  | j => loadSingle l j d

/-- The provision under a key is changed. -/
def change (k : String) (f : StoredProvision → StoredProvision) (d : ProvisionStore) :
    ProvisionStore :=
  match d.lookup k with
  | none => d
  | some e => d.insert k (f e)

/-- `getJson` of each provision, of those never employed where they are asked for; an
    exception leaves the whole. -/
def shownAll (getUnused : Bool) : List StoredProvision → Except Fault (List Json)
  | [] => .ok []
  | e :: rest =>
      if getUnused && e.employed then shownAll getUnused rest
      else
        match saveDynamics e.dynamics e.json with
        | none => .error .json
        | some json => do return json :: (← shownAll getUnused rest)

/-- The array of `asJsonString`. -/
def asJson (walk : Iteration StoredProvision) (getUnused : Bool) (d : ProvisionStore) :
    Except Fault (List Json) :=
  shownAll getUnused (walk.walk (values d))

end ProvisionStore

/-- What happens to the store: documents come and go, a chain employs a provision, a trigger
    or a tick changes its dynamics, and the timer or a listing saves them. -/
inductive Act where
  | load (j : Json)
  | clear
  | employ (k : String)
  | advance (k : String) (dynamics : Dynamics)
  | save (k : String)

/-- `saveDynamics` of a provision; an exception leaves the document. -/
def StoredProvision.save (e : StoredProvision) : StoredProvision :=
  { e with json := (saveDynamics e.dynamics e.json).getD e.json }

/-- One step. -/
def step (l : Loader) (d : ProvisionStore) : Act → ProvisionStore
  | .load j => (d.load l j).2
  | .clear => ∅
  | .employ k => d.change k fun e => { e with employed := true }
  | .advance k dynamics => d.change k fun e => { e with dynamics := dynamics }
  | .save k => d.change k StoredProvision.save

/-- The store after a run from the start. -/
def reached (l : Loader) (acts : List Act) : ProvisionStore := run (step l) ∅ acts

/-! ## What every run keeps -/

/-- The provision is what a valid document is read as, and shows that document with
    dynamics. -/
def Documented (l : Loader) (e : StoredProvision) (fields : List (String × Json)) : Prop :=
  l.validate (.obj fields) = true ∧ field "dynamics" fields = none
    ∧ loadProvision l.lib l.compiles l.schemaOf (.obj fields) = .ok (some e.loaded)
    ∧ ∃ d, e.json = shown d fields

/-- Each provision stands under its key, and comes from a document. -/
structure Kept (l : Loader) (d : ProvisionStore) : Prop where
  keyed : Keyed StoredProvision.getKey d
  documented : ∀ k e, d.lookup k = some e → ∃ fields, Documented l e fields

theorem kept_empty (l : Loader) : Kept l ∅ := ⟨keyed_empty, by simp⟩

/-- A valid document has no dynamics. -/
theorem validate_obj {l : Loader} {j : Json} (h : l.validate j = true) :
    ∃ fields, j = .obj fields ∧ field "dynamics" fields = none := by
  cases j with
  | obj fields =>
      refine ⟨fields, rfl, ?_⟩
      cases hfield : field "dynamics" fields with
      | none => rfl
      | some v =>
          unfold Loader.validate at h
          rw [Bool.and_eq_true, Bool.and_eq_true, List.all_eq_true] at h
          have hknown := h.1.1 _ (mem_of_field hfield)
          rw [List.contains_iff_mem] at hknown
          have hunknown : "dynamics" ∉ knownMembers := by decide
          exact absurd hknown hunknown
  | null | bool | int | uint | float | str | arr => cases h

/-- A document with dynamics is no valid one. -/
theorem validate_shown (l : Loader) (d : Dynamics) (fields : List (String × Json)) :
    l.validate (shown d fields) = false := by
  cases hvalid : l.validate (shown d fields) with
  | false => rfl
  | true =>
      obtain ⟨fields', heq, hnone⟩ := validate_obj hvalid
      injection heq with heq
      rw [← heq, field_setField, if_pos rfl] at hnone
      cases hnone

/-- What a document is loaded as. -/
def acceptedDocument (l : Loader) (j : Json) : Option StoredProvision :=
  if l.validate j then
    match loadProvision l.lib l.compiles l.schemaOf j with
    | .ok (some p) => (saveDynamics idle j).map fun json => { loaded := p, json := json }
    | _ => none
  else none

theorem acceptedDocument_obj {l : Loader} {j : Json} {e : StoredProvision}
    (h : acceptedDocument l j = some e) :
    ∃ fields, j = .obj fields ∧ e.json = shown idle fields ∧ e.dynamics = idle
      ∧ e.employed = false ∧ Documented l e fields := by
  unfold acceptedDocument at h
  split at h
  · rename_i hvalid
    obtain ⟨fields, rfl, hnone⟩ := validate_obj hvalid
    split at h
    · rename_i p hload
      rw [saveDynamics_of_none idle hnone] at h
      obtain rfl := Option.some.inj h
      exact ⟨fields, rfl, rfl, rfl, rfl, hvalid, hnone, hload, idle, rfl⟩
    · cases h
  · cases h

/-- A single document is inserted when it is accepted, and changes nothing otherwise. -/
theorem loadSingle_spec (l : Loader) (j : Json) (d : ProvisionStore) :
    (∃ e, acceptedDocument l j = some e
        ∧ d.loadSingle l j = (.ok .Success, d.insert e.getKey e))
      ∨ (acceptedDocument l j = none ∧ ∃ r, d.loadSingle l j = (r, d) ∧ success r = false) := by
  unfold acceptedDocument ProvisionStore.loadSingle
  by_cases hvalid : l.validate j = true
  · rw [if_pos hvalid, if_pos hvalid]
    cases loadProvision l.lib l.compiles l.schemaOf j with
    | error e => exact Or.inr ⟨rfl, _, rfl, rfl⟩
    | ok loaded =>
        cases loaded with
        | none => exact Or.inr ⟨rfl, _, rfl, rfl⟩
        | some p =>
            cases saveDynamics idle j with
            | none => exact Or.inr ⟨rfl, _, rfl, rfl⟩
            | some json => exact Or.inl ⟨_, rfl, rfl⟩
  · rw [if_neg hvalid, if_neg hvalid]
    exact Or.inr ⟨rfl, _, rfl, rfl⟩

theorem lookup_change (d : ProvisionStore) (k k' : String) (f : StoredProvision → StoredProvision) :
    (d.change k f).lookup k' = (d.lookup k').map (fun e => if k' = k then f e else e) := by
  unfold ProvisionStore.change
  cases hk : d.lookup k with
  | none =>
      by_cases h : k' = k
      · rw [h, hk]
        rfl
      · simp [h]
  | some e =>
      by_cases h : k' = k
      · rw [h, hk]
        simp
      · show (d.insert k _).lookup k' = _
        rw [AList.lookup_insert_ne h]
        simp [h]

namespace Kept

variable {l : Loader} {d : ProvisionStore}

theorem insert (h : Kept l d) {j : Json} {e : StoredProvision}
    (he : acceptedDocument l j = some e) : Kept l (d.insert e.getKey e) := by
  refine ⟨h.keyed.insert e, ?_⟩
  intro k e' he'
  by_cases hk : k = e.getKey
  · rw [hk, AList.lookup_insert] at he'
    obtain rfl := Option.some.inj he'
    obtain ⟨fields, -, -, -, -, hdoc⟩ := acceptedDocument_obj he
    exact ⟨fields, hdoc⟩
  · rw [AList.lookup_insert_ne hk] at he'
    exact h.documented k e' he'

theorem loadSingle (h : Kept l d) (j : Json) : Kept l (d.loadSingle l j).2 := by
  rcases loadSingle_spec l j d with ⟨e, he, heq⟩ | ⟨-, r, heq, -⟩
  · rw [heq]
    exact h.insert he
  · rw [heq]
    exact h

theorem load (h : Kept l d) (j : Json) : Kept l (d.load l j).2 := by
  have harray : ∀ (items : List Json) (d : ProvisionStore), Kept l d →
      Kept l (d.loadArray l items).2 := by
    intro items
    induction items with
    | nil => exact fun d hd => hd
    | cons j rest ih =>
        intro d hd
        rw [ProvisionStore.loadArray]
        split
        · exact ih _ (hd.loadSingle j)
        · exact hd.loadSingle j
  cases j with
  | arr items => exact harray items d h
  | null | bool | int | uint | float | str | obj => exact h.loadSingle _

/-- A change that leaves the provision and the document it came from. -/
theorem change (h : Kept l d) (k : String) {f : StoredProvision → StoredProvision}
    (hkey : ∀ e, (f e).getKey = e.getKey)
    (hdoc : ∀ e fields, Documented l e fields → Documented l (f e) fields) :
    Kept l (d.change k f) := by
  refine ⟨?_, ?_⟩
  · intro k' e' he'
    rw [lookup_change] at he'
    obtain ⟨e, he, rfl⟩ := Option.map_eq_some_iff.mp he'
    rw [← h.keyed k' e he]
    split
    · exact hkey e
    · rfl
  · intro k' e' he'
    rw [lookup_change] at he'
    obtain ⟨e, he, rfl⟩ := Option.map_eq_some_iff.mp he'
    obtain ⟨fields, hfields⟩ := h.documented k' e he
    split
    · exact ⟨fields, hdoc e fields hfields⟩
    · exact ⟨fields, hfields⟩

end Kept

theorem Documented.save {l : Loader} {e : StoredProvision} {fields : List (String × Json)}
    (h : Documented l e fields) : Documented l e.save fields := by
  obtain ⟨hvalid, hnone, hload, d, hjson⟩ := h
  refine ⟨hvalid, hnone, hload, e.dynamics, ?_⟩
  show (saveDynamics e.dynamics e.json).getD e.json = _
  rw [hjson, saveDynamics_shown]
  rfl

/-- **RUN LEMMA**: the store is kept in every run. -/
theorem kept_run (l : Loader) (acts : List Act) : Kept l (reached l acts) := by
  refine run_invariant (I := Kept l) ?_ acts _ (kept_empty l)
  intro d act hd
  cases act with
  | load j => exact hd.load j
  | clear => exact kept_empty l
  | employ k => exact hd.change k (fun _ => rfl) fun _ _ h => h
  | advance k dynamics => exact hd.change k (fun _ => rfl) fun _ _ h => h
  | save k => exact hd.change k (fun _ => rfl) fun _ _ h => h.save

/-! ## Listings -/

/-- What a listing shows of a provision. -/
def displayed (e : StoredProvision) : Json := (saveDynamics e.dynamics e.json).getD e.json

theorem Documented.displayed {l : Loader} {e : StoredProvision} {fields : List (String × Json)}
    (h : Documented l e fields) :
    saveDynamics e.dynamics e.json = some (H2ClientDocuments.displayed e)
      ∧ H2ClientDocuments.displayed e = shown e.dynamics fields := by
  obtain ⟨-, -, -, d, hjson⟩ := h
  have hsave : saveDynamics e.dynamics e.json = some (shown e.dynamics fields) := by
    rw [hjson, saveDynamics_shown]
  have hdisplayed : H2ClientDocuments.displayed e = shown e.dynamics fields := by
    show (saveDynamics e.dynamics e.json).getD e.json = _
    rw [hsave]
    rfl
  rw [hdisplayed]
  exact ⟨hsave, rfl⟩

/-- A listing shows every provision, or every one not employed. -/
theorem shownAll_eq {l : Loader} (getUnused : Bool) {all : List StoredProvision}
    (h : ∀ e ∈ all, ∃ fields, Documented l e fields) :
    ProvisionStore.shownAll getUnused all
      = .ok ((all.filter fun e => !(getUnused && e.employed)).map displayed) := by
  induction all with
  | nil => rfl
  | cons e all ih =>
      have hrest := ih fun e' he' => h e' (List.mem_cons_of_mem e he')
      obtain ⟨fields, hfields⟩ := h e List.mem_cons_self
      rw [ProvisionStore.shownAll, hrest, hfields.displayed.1]
      cases hskip : getUnused && e.employed with
      | true =>
          rw [List.filter_cons_of_neg (by simp [hskip])]
          rfl
      | false =>
          rw [List.filter_cons_of_pos (by simp [hskip])]
          rfl

/-- The provision that its document, without the dynamics, makes again. -/
def renewed (e : StoredProvision) : StoredProvision where
  loaded := e.loaded
  json := (saveDynamics idle e.json).getD e.json

/-- The document of a provision without its dynamics is accepted. -/
theorem Documented.accepted {l : Loader} {e : StoredProvision} {fields : List (String × Json)}
    (h : Documented l e fields) :
    acceptedDocument l (withoutDynamics (H2ClientDocuments.displayed e)) = some (renewed e) := by
  obtain ⟨-, hdisplayed⟩ := h.displayed
  obtain ⟨hvalid, hnone, hload, d, hjson⟩ := h
  have hplain : withoutDynamics (shown e.dynamics fields) = .obj fields :=
    congrArg Json.obj (dropField_setField hnone _)
  have hrenewed : renewed e = { loaded := e.loaded, json := shown idle fields } := by
    unfold renewed
    rw [hjson, saveDynamics_shown]
    rfl
  unfold acceptedDocument
  rw [hdisplayed, hplain, if_pos hvalid, hload, saveDynamics_of_none idle hnone, hrenewed]
  rfl

theorem loadArray_eq (l : Loader) (items : List Json) (d : ProvisionStore) :
    success (d.loadArray l items).1
        = (loadEach (ProvisionStore.loadSingle l) success items d).1.all success
      ∧ (d.loadArray l items).2 = (loadEach (ProvisionStore.loadSingle l) success items d).2 := by
  induction items generalizing d with
  | nil => exact ⟨rfl, rfl⟩
  | cons j rest ih =>
      rw [ProvisionStore.loadArray]
      cases hgood : success (d.loadSingle l j).1 with
      | true =>
          rw [loadEach_cons_good hgood, List.all_cons, hgood]
          exact ih _
      | false =>
          rw [loadEach_cons_bad hgood]
          exact ⟨by simp [hgood], rfl⟩

theorem appends (l : Loader) :
    Appends (Kept l) (ProvisionStore.loadSingle l) success StoredProvision.getKey values
      (acceptedDocument l) := by
  intro j d e hd haccept
  rcases loadSingle_spec l j d with ⟨e', he', heq⟩ | ⟨hnone, -⟩
  · obtain rfl := Option.some.inj (he'.symm.trans haccept)
    rw [heq]
    refine ⟨hd.insert he', rfl, fun hnew => values_insert_of_new ?_ _⟩
    intro hmem
    rw [hd.keyed.keys, List.mem_reverse] at hnew
    exact hnew (AList.mem_keys.mp hmem)
  · rw [hnone] at haccept
    cases haccept

/-- **BACKUP**: after every run the client provisions can be listed, in whatever order the
    map is walked.  The listing is refused whole by every store, unless it is empty: each
    document shows dynamics, which the schema does not know.  Without them it is taken by
    the empty store, where it makes every provision again, idle and unused. -/
theorem client_provisions_restored (l : Loader) (walk : Iteration StoredProvision)
    (acts : List Act) :
    ∃ docs, (reached l acts).asJson walk false = .ok docs
      ∧ (docs ≠ [] → ∀ d : ProvisionStore, d.load l (.arr docs) = (.ok .BadSchema, d))
      ∧ (ProvisionStore.load l (.arr (docs.map withoutDynamics)) ∅).1 = .ok .Success
      ∧ ∀ k, (ProvisionStore.load l (.arr (docs.map withoutDynamics)) ∅).2.lookup k
        = ((reached l acts).lookup k).map renewed := by
  have h := kept_run l acts
  generalize reached l acts = s at h ⊢
  have hperm : (walk.walk (values s)).Perm (values s) := walk.perm _
  have hdoc : ∀ e ∈ walk.walk (values s), ∃ fields, Documented l e fields := by
    intro e he
    exact h.documented _ e ((h.keyed.mem_values e).mp (hperm.mem_iff.mp he))
  have hlisted : s.asJson walk false = .ok ((walk.walk (values s)).map displayed) := by
    have hfilter : ((walk.walk (values s)).filter fun e => !(false && e.employed))
        = walk.walk (values s) := List.filter_eq_self.mpr fun _ _ => rfl
    show ProvisionStore.shownAll false (walk.walk (values s)) = _
    rw [shownAll_eq false hdoc, hfilter]
  have haccept : (((walk.walk (values s)).map displayed).map withoutDynamics).map
      (acceptedDocument l) = ((walk.walk (values s)).map renewed).map some := by
    rw [List.map_map, List.map_map, List.map_map]
    refine List.map_congr_left ?_
    intro e he
    obtain ⟨fields, hfields⟩ := hdoc e he
    exact hfields.accepted
  have hnodup : (((walk.walk (values s)).map renewed).map StoredProvision.getKey).Nodup := by
    rw [List.map_map]
    exact (hperm.map StoredProvision.getKey).nodup_iff.mpr h.keyed.nodup
  obtain ⟨hall, hkept, hvalues⟩ := loadEach_refill (appends l) _ _ haccept ∅ (kept_empty l)
    (by rw [values_empty]; exact hnodup)
  obtain ⟨hresult, hstore⟩ := loadArray_eq l
    (((walk.walk (values s)).map displayed).map withoutDynamics) ∅
  refine ⟨_, hlisted, ?_, ?_, ?_⟩
  · intro hne d
    obtain ⟨e, rest, hwalk⟩ := List.exists_cons_of_ne_nil (fun hnil => hne (by rw [hnil]; rfl) :
      walk.walk (values s) ≠ [])
    obtain ⟨fields, hfields⟩ := hdoc e (by rw [hwalk]; exact List.mem_cons_self)
    have hinvalid : ¬ l.validate (displayed e) = true := by
      rw [hfields.displayed.2, validate_shown]
      exact Bool.false_ne_true
    have hsingle : d.loadSingle l (displayed e) = (.ok .BadSchema, d) := if_neg hinvalid
    rw [hwalk]
    show d.loadArray l (displayed e :: rest.map displayed) = _
    rw [ProvisionStore.loadArray, hsingle]
    rfl
  · exact success_iff.mp (hresult.trans hall)
  · have hkept' := hkept
    rw [← hstore] at hkept' hvalues
    exact h.keyed.lookup_refilled (f := renewed) hperm (fun _ _ => rfl) hkept'.keyed
      (List.Perm.of_eq hvalues)

end H2ClientDocuments
