import H2agent.StepRunProofs
import H2agent.TransformationProofs

/-! # Schemas and the provisions that keep them

    `AdminSchemaData` is the registry of schemas.  A provision refers to a schema
    by its identifier, and keeps the pointer that its getter found first
    (`request_schema_`, `response_schema_`): from then on the getter returns what
    is kept, whatever the registry has under the identifier.  The registry is
    asked for its size, not for the schema, so even an empty registry does not
    clear what is kept.

    `schemas_fresh_iff` says in which runs of schema loads, clears and getter
    calls every call returns the schema that is registered. -/

namespace H2Schema

open H2Convert H2Key H2Transformation JsonValue StepRun

/-! ## The registry -/

/-- `AdminSchema`. -/
structure AdminSchema where
  key : String
  json : Json

/-- `AdminSchemaData::LoadResult`. -/
inductive LoadResult where
  | Success | BadSchema | BadContent
  deriving DecidableEq, Repr

/-- What the validator library says: of a document against the schema of schemas,
    and of a schema that is to be set. -/
structure Validator where
  valid : Json → Bool
  accepts : Json → Bool

/-- `AdminSchemaData`. -/
abbrev AdminSchemaData := TextMap AdminSchema

/-- `AdminSchema::load`: the schema, or that it was refused. -/
def AdminSchema.load (validator : Validator) (j : Json) : Except Fault (Option AdminSchema) := do
  let key ← mandatoryText j "id"
  match findMember j "schema" with
  | none => throw .undefined
  | some schema => return if validator.accepts schema then some ⟨key, j⟩ else none

namespace AdminSchemaData

/-- `find`. -/
def find (d : AdminSchemaData) (id : String) : Option AdminSchema := d.lookup id

/-- `loadSingle`: the result or the exception, and the registry left. -/
def loadSingle (validator : Validator) (d : AdminSchemaData) (j : Json) :
    Except Fault LoadResult × AdminSchemaData :=
  if !validator.valid j then (.ok .BadSchema, d)
  else
    match AdminSchema.load validator j with
    | .error e => (.error e, d)
    | .ok none => (.ok .BadContent, d)
    | .ok (some schema) => (.ok .Success, d.insert schema.key schema)

/-- The loop of `load` over an array: the first item that fails ends it. -/
def loadEach (validator : Validator) :
    List Json → AdminSchemaData → Except Fault LoadResult × AdminSchemaData
  | [], d => (.ok .Success, d)
  | j :: js, d =>
      match loadSingle validator d j with
      | (.ok .Success, d) => loadEach validator js d
      | failed => failed

/-- `load`. -/
def load (validator : Validator) (d : AdminSchemaData) (j : Json) :
    Except Fault LoadResult × AdminSchemaData :=
  match j with
  | .arr js => loadEach validator js d
  | j => loadSingle validator d j

end AdminSchemaData

/-! ## The getters -/

/-- What a provision has of its schemas: the identifiers and the pointers kept. -/
structure ProvisionSchemas where
  requestSchemaId : String := ""
  responseSchemaId : String := ""
  requestSchema : Option AdminSchema := none
  responseSchema : Option AdminSchema := none

/-- The body of every getter: the schema returned, which is the one kept unless no
    identifier is configured. -/
def keptSchema (schemas : AdminSchemaData) (id : String) (kept : Option AdminSchema) :
    Option AdminSchema × Option AdminSchema :=
  if id.isEmpty then (none, kept)
  else if schemas.keys.length != 0 then
    match kept with
    | some schema => (some schema, kept)
    | none => (schemas.find id, schemas.find id)
  else (kept, kept)

namespace AdminServerProvision

/-- `AdminServerProvision::getRequestSchema`. -/
def getRequestSchema (schemas : AdminSchemaData) (p : ProvisionSchemas) :
    Option AdminSchema × ProvisionSchemas :=
  let (schema, kept) := keptSchema schemas p.requestSchemaId p.requestSchema
  (schema, { p with requestSchema := kept })

/-- `AdminServerProvision::getResponseSchema`. -/
def getResponseSchema (schemas : AdminSchemaData) (p : ProvisionSchemas) :
    Option AdminSchema × ProvisionSchemas :=
  let (schema, kept) := keptSchema schemas p.responseSchemaId p.responseSchema
  (schema, { p with responseSchema := kept })

end AdminServerProvision

namespace AdminClientProvision

/-- `AdminClientProvision::getRequestSchema`. -/
def getRequestSchema (schemas : AdminSchemaData) (p : ProvisionSchemas) :
    Option AdminSchema × ProvisionSchemas :=
  let (schema, kept) := keptSchema schemas p.requestSchemaId p.requestSchema
  (schema, { p with requestSchema := kept })

/-- `AdminClientProvision::getResponseSchema`. -/
def getResponseSchema (schemas : AdminSchemaData) (p : ProvisionSchemas) :
    Option AdminSchema × ProvisionSchemas :=
  let (schema, kept) := keptSchema schemas p.responseSchemaId p.responseSchema
  (schema, { p with responseSchema := kept })

end AdminClientProvision

/-! ## Runs -/

/-- The four getters. -/
inductive Getter where
  | serverRequest | serverResponse | clientRequest | clientResponse
  deriving DecidableEq, Repr

/-- The registry and the provisions, by address.  A provision is reached by traffic as
    soon as it is loaded, and nothing is kept in it before. -/
structure SchemaSystem where
  schemas : AdminSchemaData
  serverProvisions : Nat → ProvisionSchemas
  clientProvisions : Nat → ProvisionSchemas

/-- What happens: loads and clears of schemas, and traffic that calls a getter of a
    provision. -/
inductive Act where
  | loadSchema (j : Json)
  | clearSchemas
  | get (g : Getter) (p : Nat)

namespace SchemaSystem

/-- A getter of a provision: what it returns, and the system left. -/
def get (s : SchemaSystem) (g : Getter) (p : Nat) : Option AdminSchema × SchemaSystem :=
  match g with
  | .serverRequest =>
      let (schema, q) := AdminServerProvision.getRequestSchema s.schemas (s.serverProvisions p)
      (schema, { s with serverProvisions := Function.update s.serverProvisions p q })
  | .serverResponse =>
      let (schema, q) := AdminServerProvision.getResponseSchema s.schemas (s.serverProvisions p)
      (schema, { s with serverProvisions := Function.update s.serverProvisions p q })
  | .clientRequest =>
      let (schema, q) := AdminClientProvision.getRequestSchema s.schemas (s.clientProvisions p)
      (schema, { s with clientProvisions := Function.update s.clientProvisions p q })
  | .clientResponse =>
      let (schema, q) := AdminClientProvision.getResponseSchema s.schemas (s.clientProvisions p)
      (schema, { s with clientProvisions := Function.update s.clientProvisions p q })

/-- One act. -/
def step (validator : Validator) (s : SchemaSystem) : Act → SchemaSystem
  | .loadSchema j => { s with schemas := (s.schemas.load validator j).2 }
  | .clearSchemas => { s with schemas := ∅ }
  | .get g p => (s.get g p).2

/-- The identifier a getter works with. -/
def idOf (s : SchemaSystem) (g : Getter) (p : Nat) : String :=
  match g with
  | .serverRequest => (s.serverProvisions p).requestSchemaId
  | .serverResponse => (s.serverProvisions p).responseSchemaId
  | .clientRequest => (s.clientProvisions p).requestSchemaId
  | .clientResponse => (s.clientProvisions p).responseSchemaId

/-- The pointer a getter works with. -/
def kept (s : SchemaSystem) (g : Getter) (p : Nat) : Option AdminSchema :=
  match g with
  | .serverRequest => (s.serverProvisions p).requestSchema
  | .serverResponse => (s.serverProvisions p).responseSchema
  | .clientRequest => (s.clientProvisions p).requestSchema
  | .clientResponse => (s.clientProvisions p).responseSchema

/-- The schema that is registered under the identifier configured, if any. -/
def registered (s : SchemaSystem) (g : Getter) (p : Nat) : Option AdminSchema :=
  if (s.idOf g p).isEmpty then none else s.schemas.find (s.idOf g p)

/-- An empty registry, and provisions with identifiers. -/
def start (server client : Nat → String × String) : SchemaSystem where
  schemas := ∅
  serverProvisions p := { requestSchemaId := (server p).1, responseSchemaId := (server p).2 }
  clientProvisions p := { requestSchemaId := (client p).1, responseSchemaId := (client p).2 }

end SchemaSystem

/-! ## What one getter call does -/

theorem keptSchema_some (schemas : AdminSchemaData) {id : String} {schema : AdminSchema}
    (hid : id.isEmpty = false) :
    keptSchema schemas id (some schema) = (some schema, some schema) := by
  rw [keptSchema, if_neg (by simp [hid])]
  split
  · rfl
  · rfl

theorem lookup_of_no_keys {schemas : AdminSchemaData} (h : schemas.keys.length = 0)
    (id : String) : schemas.lookup id = none := by
  rw [AList.lookup_eq_none]
  intro hmem
  have hkey : id ∈ schemas.keys := hmem
  rw [List.length_eq_zero_iff.mp h] at hkey
  exact nomatch hkey

/-- With nothing kept, a getter asks the registry, and keeps what it gets. -/
theorem keptSchema_none (schemas : AdminSchemaData) (id : String) :
    keptSchema schemas id none
      = (if id.isEmpty then none else schemas.find id,
          if id.isEmpty then none else schemas.find id) := by
  rw [keptSchema]
  by_cases hid : id.isEmpty = true
  · rw [if_pos hid, if_pos hid]
  · rw [if_neg hid, if_neg hid]
    by_cases hsize : schemas.keys.length = 0
    · have hnone : schemas.find id = none := lookup_of_no_keys hsize id
      rw [if_neg (by simp [hsize]), hnone]
    · rw [if_pos (by simp [hsize])]

/-- What a getter returns of a configured schema is what it keeps. -/
theorem keptSchema_snd (schemas : AdminSchemaData) {id : String} (kept : Option AdminSchema)
    (hid : id.isEmpty = false) :
    (keptSchema schemas id kept).2 = (keptSchema schemas id kept).1 := by
  cases kept with
  | none =>
      rw [keptSchema_none]
  | some schema => rw [keptSchema_some schemas hid]

namespace SchemaSystem

variable (validator : Validator) (s : SchemaSystem)

theorem get_result (g : Getter) (p : Nat) :
    (s.get g p).1 = (keptSchema s.schemas (s.idOf g p) (s.kept g p)).1 := by
  cases g <;> rfl

theorem get_kept_self (g : Getter) (p : Nat) :
    (s.get g p).2.kept g p = (keptSchema s.schemas (s.idOf g p) (s.kept g p)).2 := by
  cases g <;> simp only [get, kept, Function.update_self] <;> rfl

/-- A call touches the pointer of its own getter in its own provision. -/
theorem get_kept_other {g g' : Getter} {p q : Nat} (h : ¬ (g' = g ∧ q = p)) :
    (s.get g p).2.kept g' q = s.kept g' q := by
  by_cases hq : q = p
  · have hg : g' ≠ g := fun hg => h ⟨hg, hq⟩
    subst hq
    cases g <;> cases g' <;> first
      | exact (hg rfl).elim
      | rfl
      | (simp only [get, kept, Function.update_self]; rfl)
  · cases g <;> cases g' <;> first
      | rfl
      | (simp only [get, kept, Function.update_of_ne hq])

theorem get_idOf (g g' : Getter) (p q : Nat) : (s.get g p).2.idOf g' q = s.idOf g' q := by
  by_cases hq : q = p
  · subst hq
    cases g <;> cases g' <;> first
      | rfl
      | (simp only [get, idOf, Function.update_self]; rfl)
  · cases g <;> cases g' <;> first
      | rfl
      | (simp only [get, idOf, Function.update_of_ne hq])

theorem idOf_of_registered {g : Getter} {p : Nat} {schema : AdminSchema}
    (h : s.registered g p = some schema) : (s.idOf g p).isEmpty = false := by
  cases hid : (s.idOf g p).isEmpty with
  | false => rfl
  | true =>
      rw [registered, if_pos hid] at h
      exact nomatch h

theorem step_idOf (a : Act) (g : Getter) (p : Nat) :
    (s.step validator a).idOf g p = s.idOf g p := by
  cases a with
  | loadSchema j => cases g <;> rfl
  | clearSchemas => cases g <;> rfl
  | get g' q => exact get_idOf s g' g q p

/-- What is kept stays. -/
theorem step_kept_some (a : Act) {g : Getter} {p : Nat} {schema : AdminSchema}
    (hid : (s.idOf g p).isEmpty = false) (h : s.kept g p = some schema) :
    (s.step validator a).kept g p = some schema := by
  cases a with
  | loadSchema j => cases g <;> exact h
  | clearSchemas => cases g <;> exact h
  | get g' q =>
      by_cases hown : g = g' ∧ p = q
      · obtain ⟨rfl, rfl⟩ := hown
        show (s.get g p).2.kept g p = some schema
        rw [get_kept_self, h, keptSchema_some _ hid]
      · show (s.get g' q).2.kept g p = some schema
        rw [get_kept_other s hown, h]

/-- What is kept after a step was kept before, or was registered when the step called
    the getter. -/
theorem step_kept_origin (a : Act) {g : Getter} {p : Nat} {schema : AdminSchema}
    (h : (s.step validator a).kept g p = some schema) :
    s.kept g p = some schema ∨ (a = .get g p ∧ s.registered g p = some schema) := by
  cases a with
  | loadSchema j => exact .inl (by cases g <;> exact h)
  | clearSchemas => exact .inl (by cases g <;> exact h)
  | get g' q =>
      have h' : (s.get g' q).2.kept g p = some schema := h
      by_cases hown : g = g' ∧ p = q
      · obtain ⟨rfl, rfl⟩ := hown
        rw [get_kept_self] at h'
        cases hk : s.kept g p with
        | none =>
            rw [hk, keptSchema_none] at h'
            exact .inr ⟨rfl, h'⟩
        | some old =>
            left
            rw [hk, keptSchema] at h'
            split at h'
            · exact h'
            · split at h'
              · exact h'
              · exact h'
      · rw [get_kept_other s hown] at h'
        exact .inl h'

/-! ## Along a run -/

theorem run_idOf (acts : List Act) (g : Getter) (p : Nat) :
    (run (step validator) s acts).idOf g p = s.idOf g p := by
  induction acts generalizing s with
  | nil => rfl
  | cons a acts ih => rw [run_cons, ih, step_idOf]

theorem run_kept_some (acts : List Act) {g : Getter} {p : Nat} {schema : AdminSchema}
    (hid : (s.idOf g p).isEmpty = false) (h : s.kept g p = some schema) :
    (run (step validator) s acts).kept g p = some schema := by
  induction acts generalizing s with
  | nil => exact h
  | cons a acts ih =>
      refine ih (s.step validator a) ?_ (step_kept_some validator s a hid h)
      rw [step_idOf, hid]

theorem run_kept_origin (acts : List Act) {g : Getter} {p : Nat} {schema : AdminSchema}
    (hs : s.kept g p = none) (h : (run (step validator) s acts).kept g p = some schema) :
    ∃ pre mid, acts = pre ++ .get g p :: mid
      ∧ (run (step validator) s pre).registered g p = some schema := by
  -- the first step after which something is kept is the call that found it
  induction acts generalizing s with
  | nil =>
      rw [run, hs] at h
      exact nomatch h
  | cons a acts ih =>
      rw [run_cons] at h
      cases hk : (s.step validator a).kept g p with
      | none =>
          obtain ⟨pre, mid, rfl, hreg⟩ := ih (s.step validator a) hk h
          exact ⟨a :: pre, mid, rfl, hreg⟩
      | some first =>
          rcases step_kept_origin validator s a hk with hold | ⟨rfl, hreg⟩
          · rw [hs] at hold
            exact nomatch hold
          · refine ⟨[], acts, rfl, ?_⟩
            have hid := idOf_of_registered s hreg
            have hstay := run_kept_some validator (s.step validator (.get g p)) acts
              (by rw [step_idOf, hid]) hk
            rw [hstay] at h
            rw [run, hreg, h]

/-- Every getter call of the run returns what is registered. -/
def Fresh (acts : List Act) : Prop :=
  ∀ pre g p post, acts = pre ++ .get g p :: post →
    ((run (step validator) s pre).get g p).1 = (run (step validator) s pre).registered g p

/-- No call of the run comes after one of the same getter of the same provision that found
    another schema registered than there is now. -/
def Unreplaced (acts : List Act) : Prop :=
  ∀ pre g p mid post, acts = pre ++ .get g p :: (mid ++ .get g p :: post) →
    (run (step validator) s pre).registered g p = none
      ∨ (run (step validator) s pre).registered g p
        = (run (step validator) s (pre ++ .get g p :: mid)).registered g p

end SchemaSystem

open SchemaSystem in
/-- **SCHEMAS ARE FRESH** in a run of schema loads, clears and traffic exactly when no
    schema is replaced or dropped between two calls of a getter that both see it: every
    call of a getter, server or client, request or response, returns the schema that is
    registered under the identifier of its provision if and only if no earlier call of it
    found another one. -/
theorem schemas_fresh_iff (validator : Validator) (server client : Nat → String × String)
    (acts : List Act) :
    Fresh validator (start server client) acts
      ↔ Unreplaced validator (start server client) acts := by
  constructor
  · rintro hfresh pre g p mid post rfl
    cases hreg : (run (step validator) (start server client) pre).registered g p with
    | none => exact .inl rfl
    | some schema =>
        right
        have hid := idOf_of_registered _ hreg
        rw [run_idOf] at hid
        have hfirst := hfresh pre g p (mid ++ .get g p :: post) rfl
        have hsecond := hfresh (pre ++ .get g p :: mid) g p post (by simp)
        -- the first call keeps what it returned, and the second one returns what is kept
        have hkept : (run (step validator) (start server client)
            (pre ++ .get g p :: mid)).kept g p = some schema := by
          rw [run_append]
          refine run_kept_some validator _ mid ?_ ?_
          · rw [step_idOf, run_idOf, hid]
          · show ((run (step validator) (start server client) pre).get g p).2.kept g p = some schema
            rw [get_result, hreg] at hfirst
            rw [get_kept_self, ← hfirst]
            exact keptSchema_snd _ _ (by rw [run_idOf, hid])
        rw [get_result, hkept, keptSchema_some _ (by rw [run_idOf, hid])] at hsecond
        exact hsecond
  · rintro hun pre g p post rfl
    rw [get_result]
    cases hk : (run (step validator) (start server client) pre).kept g p with
    | none =>
        rw [keptSchema_none]
        rfl
    | some schema =>
        have hstart : (start server client).kept g p = none := by cases g <;> rfl
        obtain ⟨pre', mid, rfl, hreg⟩ := run_kept_origin validator _ pre hstart hk
        have hid := idOf_of_registered _ hreg
        rw [run_idOf] at hid
        rw [keptSchema_some _ (by rw [run_idOf, hid])]
        rcases hun pre' g p mid post (by simp) with hnone | hsame
        · rw [hnone] at hreg
          exact nomatch hreg
        · rw [← hsame, hreg]

/-- A schema document. -/
def schemaDocument (kind : String) : Json :=
  .obj [("id", .str "s"), ("schema", .obj [("type", .str kind)])]

/-- A schema, a call, another schema under the same identifier, and a call. -/
def repostedSchema : List Act :=
  [.loadSchema (schemaDocument "object"), .get .serverRequest 0,
    .loadSchema (schemaDocument "array"), .get .serverRequest 0]

/-- The second call returns the schema that was replaced. -/
theorem reposted_schema_is_stale :
    ¬ SchemaSystem.Fresh ⟨fun _ => true, fun _ => true⟩
      (SchemaSystem.start (fun _ => ("s", "")) (fun _ => ("", ""))) repostedSchema := by
  intro h
  have hstale : some (AdminSchema.mk "s" (schemaDocument "object"))
      = some (AdminSchema.mk "s" (schemaDocument "array")) :=
    h (repostedSchema.take 3) .serverRequest 0 [] rfl
  have hkind := congrArg
    (Option.map (fun schema => Json.beq schema.json (schemaDocument "object"))) hstale
  exact absurd hkind (by decide)

end H2Schema
