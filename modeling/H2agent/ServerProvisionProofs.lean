import H2agent.FilterProofs
import H2agent.SourceProofs
import H2agent.TargetProofs

/-! # Server provisions

    `AdminServerProvision::transform`: what is prepared before the items run, the
    item loop with `executeOnFilterFail` (the two loops of `FallbackList`), and
    what is done with the body after it.

    One holder is shared by all items of a list and of its fallback lists, and
    every source is to rewrite it.  The eraser does not: `items_do_not_leak` says
    for which items the leftovers of earlier ones do not matter.

    The preparation scans the outermost list only, while fallback lists run to any
    depth: `inlined_fallback_same_reply` says when a turned down item can be
    replaced by its fallback list. -/

namespace H2ServerProvision

open FallbackList H2Convert H2Filter H2Key H2Source H2Store H2Target H2Transformation JsonValue

/-! ## One item -/

/-- The state of the item loop: what is built, and the holder. -/
structure ServerRun where
  state : ServerState
  sourceVault : TypeConverter

/-- `breakCondition`. -/
def ServerRun.stop (s : ServerRun) : Bool := s.state.world.breakCondition

/-- The flag `processSources` raises for an eraser. -/
def eraser (t : Transformation) : Bool := t.sourceType == .Eraser

/-- The last stage of an item. -/
def targetStage (env : Env) (t : Transformation) (state : ServerState) (groups : List String)
    (v : TypeConverter) : Outcome ServerRun Fault :=
  let (flag, state) := AdminServerProvision.processTargets env t ⟨v, eraser t, groups⟩ state
  .done flag ⟨state, v⟩

/-- The stages of an item once its source succeeded. -/
def filterStage (env : Env) (t : Transformation) (state : ServerState) (v : TypeConverter) :
    Outcome ServerRun Fault :=
  if t.hasFilter then
    -- a filter on an eraser counts as not passed
    if eraser t then .turnedDown ⟨state, v⟩
    else
      match AdminServerProvision.processFilters env state.world.vars state.world.vault t v with
      | .error e => .fault e
      | .ok f =>
          if f.passed then targetStage env t state f.groups f.holder
          else .turnedDown ⟨state, f.holder⟩
  else targetStage env t state [] v

/-- The state with the variables a source leaves. -/
def ServerState.withVars (state : ServerState) (vars : TextMap String) : ServerState :=
  { state with world := { state.world with vars := vars } }

/-- An item: source, filter and target, as both loops process it. -/
def processItem (env : Env) (req : ServerRequest) (t : Transformation) (s : ServerRun) :
    Outcome ServerRun Fault :=
  match AdminServerProvision.sourceValue env req s.state.responseBody.json t s.state.world with
  | .error e => .fault e
  | .ok found =>
      let (ok, v) := found.value.assign s.sourceVault
      if ok then filterStage env t (ServerState.withVars s.state found.vars) v
      else .skip ⟨ServerState.withVars s.state found.vars, v⟩

/-! ## The provision -/

/-- What `load` keeps of a provision.  The schemas are those its identifiers
    refer to when the request comes in. -/
structure AdminServerProvision where
  inState : String := defaultState
  outState : String := defaultState
  responseCode : Nat
  responseHeaders : HeaderMap := []
  responseBody : Json := .null
  responseBodyAsString : String := ""
  responseDelayMs : Nat := 0
  requestSchema : Option Json := none
  responseSchema : Option Json := none
  transformations : Transformations := .nil

/-- What is known of a request. -/
structure Reception where
  requestUri : String
  requestUriPath : String
  queryParameters : TextMap String
  bodyDataPart : DataPart
  headers : HeaderMap
  recvSeq : Nat

/-- The targets that build the response body as JSON. -/
def isJsonTarget : TargetType → Bool
  | .ResponseBodyJson_String | .ResponseBodyJson_Integer | .ResponseBodyJson_Unsigned
  | .ResponseBodyJson_Float | .ResponseBodyJson_Boolean | .ResponseBodyJson_Object
  | .ResponseBodyJson_JsonString => true
  | _ => false

namespace AdminServerProvision

/-- `usesResponseBodyAsTransformationJsonTarget`: a scan of the outermost list. -/
def usesJson (p : AdminServerProvision) : Bool :=
  p.transformations.outer.any (fun t => isJsonTarget t.targetType)

/-- `mustDecodeRequestBody`: a request schema, or a body that is not empty and a
    source on it in the outermost list. -/
def mustDecode (p : AdminServerProvision) (r : Reception) : Bool :=
  p.requestSchema.isSome
    || (p.transformations.outer.any (fun t => t.sourceType == .RequestBody)
        && !r.bodyDataPart.str.isEmpty)

/-- The request body as the items see it. -/
def dataPart (env : Env) (p : AdminServerProvision) (r : Reception) : DataPart :=
  if p.mustDecode r then r.bodyDataPart.decode env.lib r.headers else r.bodyDataPart

/-- The request as the items see it. -/
def request (env : Env) (p : AdminServerProvision) (r : Reception) : ServerRequest where
  requestUri := r.requestUri
  requestUriPath := r.requestUriPath
  queryParameters := r.queryParameters
  bodyDataPart := p.dataPart env r
  headers := r.headers
  recvSeq := r.recvSeq
  inState := p.inState
  responseBody := p.responseBody
  usesJson := p.usesJson

/-- The body before the items: a copy of the provisioned one as JSON, with the
    caller's empty text, or its text. -/
def initialBody (p : AdminServerProvision) : Body :=
  if p.usesJson then ⟨p.responseBody, ""⟩ else ⟨.null, p.responseBodyAsString⟩

/-- The values without transformations. -/
def initialState (p : AdminServerProvision) (w : World) (b : Body) : ServerState where
  world := { w with breakCondition := false }
  responseStatusCode := p.responseCode
  responseBody := b
  responseHeaders := p.responseHeaders
  responseDelayMs := p.responseDelayMs
  outState := p.outState
  outStateMethod := ""
  outStateUri := ""
  clientProvisionTriggers := []

/-- The loop starts with a fresh holder. -/
def start (p : AdminServerProvision) (w : World) : ServerRun :=
  ⟨p.initialState w p.initialBody, TypeConverter.fresh⟩

/-- The item loop, and `executeOnFilterFail` inside it. -/
def runItems (env : Env) (p : AdminServerProvision) (r : Reception) (w : World) :
    Except Fault ServerRun :=
  runMain ServerRun.stop id (processItem env (p.request env r)) p.transformations (p.start w)

/-- The text of a body built as JSON; a dump that throws leaves it as it was. -/
def finalBody (env : Env) (p : AdminServerProvision) (b : Body) : Body :=
  if p.usesJson && !b.json.empty then { b with text := (env.lib.dump b.json).getD b.text }
  else b

/-- After the items: the final body, and the response schema. -/
def finish (env : Env) (p : AdminServerProvision) (s : ServerState) : ServerState :=
  let s := { s with responseBody := p.finalBody env s.responseBody }
  match p.responseSchema with
  | none => s
  | some schema =>
      let document := if p.usesJson then s.responseBody.json else p.responseBody
      if (env.lib.validate schema document).isNone then s else { s with responseStatusCode := 500 }

/-- Whether the request schema lets the request in. -/
def accepts (env : Env) (p : AdminServerProvision) (r : Reception) : Bool :=
  match p.requestSchema with
  | none => true
  | some schema => (env.lib.validate schema (p.dataPart env r).json).isNone

/-- `AdminServerProvision::transform`. -/
def transform (env : Env) (p : AdminServerProvision) (r : Reception) (w : World) :
    Except Fault ServerState :=
  if p.accepts env r then
    match p.runItems env r w with
    | .error e => .error e
    | .ok s => .ok (p.finish env s.state)
  else .ok { p.initialState w ⟨.null, ""⟩ with responseStatusCode := 400 }

end AdminServerProvision

/-! ## What a transformation leaves -/

section Invariants

variable {env : Env} {I : ServerState → Prop}
  (hvars : ∀ x vars, I x → I (ServerState.withVars x vars))

include hvars

/-- **STEP LEMMA**: what other variables and the target of an item keep, the item
    keeps. -/
theorem processItem_keeps {t : Transformation}
    (htarget : ∀ inc x, I x → I (H2Target.AdminServerProvision.processTargets env t inc x).2)
    {req : ServerRequest} {s u : ServerRun} (hs : I s.state)
    (h : (processItem env req t s).state = some u) : I u.state := by
  simp only [processItem] at h
  split at h
  · cases h
  · next found _ =>
      have hfound := hvars s.state found.vars hs
      split at h
      · unfold filterStage at h
        split at h
        · split at h
          · cases h
            exact hfound
          · split at h
            · cases h
            · split at h
              · cases h
                exact htarget _ _ hfound
              · cases h
                exact hfound
        · cases h
          exact htarget _ _ hfound
      · cases h
        exact hfound

/-- **RUN LEMMA**: what other variables, another body or status code and the targets
    of all items keep, a transformation keeps. -/
theorem transform_keeps {P : Transformation → Prop}
    (htarget : ∀ t, P t → ∀ inc x, I x →
      I (H2Target.AdminServerProvision.processTargets env t inc x).2)
    (hresponse : ∀ x body code, I x → I { x with responseBody := body, responseStatusCode := code })
    {p : AdminServerProvision} (hp : p.transformations.All P) {w : World}
    (hinit : ∀ body, I (p.initialState w body)) {r : Reception} {out : ServerState}
    (h : p.transform env r w = .ok out) : I out := by
  simp only [AdminServerProvision.transform] at h
  split at h
  · split at h
    · cases h
    · next s hs =>
        have hrun : I s.state := by
          refine runMain_invariant (I := fun s : ServerRun => I s.state) ?_ ?_ p.transformations hp
            (hinit _) hs
          · exact fun _ h => h
          · exact fun t _ _ ht hs hu => processItem_keeps hvars (htarget t ht) hs hu
        cases h
        unfold AdminServerProvision.finish
        cases p.responseSchema with
        | none => exact hresponse _ _ _ hrun
        | some schema =>
            dsimp only
            generalize (env.lib.validate schema _).isNone = valid
            cases valid with
            | true => exact hresponse _ _ _ hrun
            | false => exact hresponse _ _ _ hrun
  · cases h
    exact hresponse _ _ _ (hinit _)

end Invariants

/-! ## Leftovers of earlier items -/

/-- The same state, whatever the holder. -/
def SameState (s s' : ServerRun) : Prop := s.state = s'.state

/-- The report on the empty value of every kind is the same. -/
def KindBlind (env : Env) (t : Transformation) : Prop :=
  t.hasFilter = true → ∀ j j' : Json, memberReport env t j.clear = memberReport env t j'.clear

/-- The items for which leftovers in the holder do not matter: an eraser must meet
    a filter or a target that does without the value, and a time a known unit.
    Any source of a plain value leaves the kind of the JSON member behind, which
    `JsonConstraint` and `SchemaId` must not tell apart. -/
def NoLeak (env : Env) (req : ServerRequest) (t : Transformation) : Prop :=
  (t.sourceType = .Eraser → t.hasFilter = true ∨ ErasesUnseen env t)
    ∧ (t.sourceType = .Timestamp → knownUnit t.source = true)
    ∧ (t.sourceType ≠ .Eraser → findsDocument req t = false → KindBlind env t)

/-- Two holders that show the same, and are the same under `K`. -/
structure Holders (K : Prop) (v w : TypeConverter) : Prop where
  view : SameView v w
  same : K → v = w

/-- The same state, and holders that show the same. -/
def SameRun (K : Prop) (s s' : ServerRun) : Prop :=
  s.state = s'.state ∧ Holders K s.sourceVault s'.sourceVault

section Leftovers

variable (env : Env) (req : ServerRequest) (t : Transformation) {K : Prop}
  {v w : TypeConverter}

theorem targetStage_congr (state : ServerState) (groups : List String) (h : SameView v w) :
    OutcomeRel (fun s s' : ServerRun => s.state = s'.state ∧ SameView s.sourceVault s'.sourceVault)
      (targetStage env t state groups v) (targetStage env t state groups w) := by
  simp only [targetStage, processTargets_congr h]
  exact .done _ ⟨rfl, h⟩

/-- Past the source, leftovers show through the view of the holder and the report
    on its JSON member. -/
theorem filterStage_congr (state : ServerState) (h : SameView v w)
    (hreport : t.hasFilter = true → eraser t = false →
      memberReport env t v.json = memberReport env t w.json) :
    OutcomeRel (fun s s' : ServerRun => s.state = s'.state ∧ SameView s.sourceVault s'.sourceVault)
      (filterStage env t state v) (filterStage env t state w) := by
  simp only [filterStage]
  by_cases hf : t.hasFilter = true
  · rw [if_pos hf, if_pos hf]
    by_cases he : eraser t = true
    · rw [if_pos he, if_pos he]
      exact .turnedDown ⟨rfl, h⟩
    · rw [if_neg he, if_neg he]
      have hsame := processFilters_congr state.world.vars state.world.vault h
        (hreport hf (Bool.eq_false_iff.mpr he))
      generalize H2Filter.AdminServerProvision.processFilters env state.world.vars
        state.world.vault t v = x at hsame ⊢
      generalize H2Filter.AdminServerProvision.processFilters env state.world.vars
        state.world.vault t w = y at hsame ⊢
      cases hsame with
      | error e => exact .fault e
      | ok passed groups hview =>
          cases passed with
          | true => exact targetStage_congr env t state groups hview
          | false => exact .turnedDown ⟨rfl, hview⟩
  · rw [if_neg hf, if_neg hf]
    exact targetStage_congr env t state [] h

/-- The same with holders that are equal under `K`, where the report does not
    matter. -/
theorem filterStage_holders (state : ServerState) (h : Holders K v w)
    (hreport : ¬ K → t.hasFilter = true → eraser t = false →
      memberReport env t v.json = memberReport env t w.json) :
    OutcomeRel (SameRun K) (filterStage env t state v) (filterStage env t state w) := by
  by_cases hK : K
  · rw [h.same hK]
    exact .refl (fun s => ⟨rfl, rfl, fun _ => rfl⟩) _
  · exact (filterStage_congr env t state h.view (hreport hK)).mono
      (fun s s' hs => ⟨hs.1, hs.2, fun hk => (hK hk).elim⟩)

/-- An eraser past its source: turned down by a filter, or on a target that does
    without the value. -/
theorem filterStage_eraser (state : ServerState) (v w : TypeConverter) (he : eraser t = true)
    (ht : t.hasFilter = true ∨ ErasesUnseen env t) :
    OutcomeRel (fun s s' : ServerRun => s.state = s'.state
        ∧ s.sourceVault = v ∧ s'.sourceVault = w)
      (filterStage env t state v) (filterStage env t state w) := by
  simp only [filterStage]
  by_cases hf : t.hasFilter = true
  · rw [if_pos hf, if_pos hf, if_pos he, if_pos he]
    exact .turnedDown ⟨rfl, rfl, rfl⟩
  · rw [if_neg hf, if_neg hf]
    have hunseen : ErasesUnseen env t := ht.resolve_left hf
    simp only [targetStage, he, processTargets_eraser (v := v) (w := w) hunseen]
    exact .done _ ⟨rfl, rfl, rfl⟩

/-- A source that calls no setter must meet a filter, or a target that does without
    the value. -/
def LeavesUnseen : Prop :=
  (t.sourceType = .Eraser → t.hasFilter = true ∨ ErasesUnseen env t)
    ∧ (t.sourceType = .Timestamp → knownUnit t.source = true)

/-- The kind of the JSON member a plain value leaves behind must not show. -/
def KindUnseen : Prop :=
  (t.sourceType = .Timestamp → knownUnit t.source = true)
    ∧ (t.sourceType ≠ .Eraser → findsDocument req t = false → KindBlind env t)

/-- The report on what a setter leaves does not tell leftovers apart. -/
theorem assign_report {x : World} {found : Sourced}
    (hspec : SourceSpec req t x found) (hkeep : found.value ≠ .keep)
    (hok : (found.value.assign v).1 = true) (hok' : (found.value.assign w).1 = true)
    (hkind : KindUnseen env req t) (hf : t.hasFilter = true) (he : eraser t = false) :
    memberReport env t (found.value.assign v).2.json
      = memberReport env t (found.value.assign w).2.json := by
  by_cases hwhole : found.value.Whole
  · rcases hwhole with hm | ⟨j, path, hj⟩
    · rw [hm] at hok
      exact nomatch hok
    · rw [hj] at hok ⊢
      exact congrArg (memberReport env t) (setObject_json hok w).symm
  · have hd : findsDocument req t = false :=
      Bool.eq_false_iff.mpr (fun hd => hwhole (hspec.whole hd))
    have hne : t.sourceType ≠ .Eraser := by
      intro h
      rw [eraser, h] at he
      exact nomatch he
    rw [assign_json hkeep hok hwhole, assign_json hkeep hok' hwhole]
    exact hkind.2 hne hd hf v.json w.json

/-- **LEFTOVERS AND THEIR END**: of two holders `v` and `w` an item makes one view, or
    leaves them as they are.  It does so too with holders that show the same
    already, and never shows which of the two it started from. -/
theorem processItem_holders {v₀ w₀ : TypeConverter} (state : ServerState)
    (hK : K → v₀.json.clear = w₀.json.clear) (hkind : K ∨ KindUnseen env req t)
    (hunseen : v = v₀ → LeavesUnseen env t)
    (h : Holders K v w ∨ (v = v₀ ∧ w = w₀)) :
    OutcomeRel (fun s s' : ServerRun => s.state = s'.state
        ∧ (Holders K s.sourceVault s'.sourceVault ∨ (s.sourceVault = v₀ ∧ s'.sourceVault = w₀)))
      (processItem env req t ⟨state, v⟩) (processItem env req t ⟨state, w⟩) := by
  have hclear : K → v.json.clear = w.json.clear := by
    intro hk
    rcases h with h | ⟨rfl, rfl⟩
    · rw [h.same hk]
    · exact hK hk
  simp only [processItem]
  cases hs : H2Source.AdminServerProvision.sourceValue env req state.responseBody.json t
      state.world with
  | error e => exact .fault e
  | ok found =>
      have hspec := sourceValue_spec env req state.responseBody.json t state.world found hs
      have hresult : ∀ s s' : ServerRun, SameRun K s s' → s.state = s'.state
          ∧ (Holders K s.sourceVault s'.sourceVault
            ∨ (s.sourceVault = v₀ ∧ s'.sourceVault = w₀)) :=
        fun s s' hs => ⟨hs.1, .inl hs.2⟩
      by_cases hmissing : found.value = .missing
      · simp only [hmissing]
        exact .skip ⟨rfl, h⟩
      by_cases hkeep : found.value = .keep
      · -- no setter was called: an eraser, or a time without a unit
        simp only [hkeep]
        rcases h with h | ⟨rfl, rfl⟩
        · refine (filterStage_holders env t _ h (fun hk hf he => ?_)).mono hresult
          rcases hspec.keep hkeep with her | ⟨ht, hu⟩
          · rw [eraser, her] at he
            exact nomatch he
          · rw [(hkind.resolve_left hk).1 ht] at hu
            exact nomatch hu
        · have he : t.sourceType = .Eraser := by
            rcases hspec.keep hkeep with he | ⟨ht, hu⟩
            · exact he
            · rw [(hunseen rfl).2 ht] at hu
              exact nomatch hu
          exact (filterStage_eraser env t _ v w (by rw [eraser, he]; rfl)
            ((hunseen rfl).1 he)).mono (fun s s' hs => ⟨hs.1, .inr hs.2⟩)
      · obtain ⟨hok, hview⟩ := assign_sameView hkeep hmissing v w
        have hholders : Holders K (found.value.assign v).2 (found.value.assign w).2 :=
          ⟨hview, fun hk => by rw [assign_sameKind hkeep hmissing (hclear hk)]⟩
        simp only [← hok]
        by_cases hv : (found.value.assign v).1 = true
        · rw [if_pos hv, if_pos hv]
          refine (filterStage_holders env t _ hholders (fun hk hf he => ?_)).mono hresult
          exact assign_report env req t hspec hkeep hv (hok ▸ hv) (hkind.resolve_left hk) hf he
        · rw [if_neg hv, if_neg hv]
          exact .skip ⟨rfl, .inl hholders⟩

/-- Under `NoLeak` an item ends alike whatever the holder showed before. -/
theorem leftovers_unseen (h : NoLeak env req t) (state : ServerState) (v w : TypeConverter) :
    OutcomeRel SameState (processItem env req t ⟨state, v⟩)
      (processItem env req t ⟨state, w⟩) := by
  obtain ⟨herase, htime, hkind⟩ := h
  exact (processItem_holders env req t (K := False) state (fun hk => hk.elim)
    (.inr ⟨htime, hkind⟩) (fun _ => ⟨herase, htime⟩) (.inr ⟨rfl, rfl⟩)).mono
    (fun s s' hs => hs.1)

end Leftovers

/-- A request without body, headers or parameters. -/
def plainRequest : ServerRequest where
  requestUri := "/"
  requestUriPath := "/"
  queryParameters := ∅
  bodyDataPart := ⟨"", false, false, .null⟩
  headers := []
  recvSeq := 1
  inState := defaultState
  responseBody := .null
  usesJson := false

/-- A response with nothing in it yet. -/
def blankState : ServerState := ⟨World.blank, 200, ⟨.null, ""⟩, [], 0, defaultState, "", "", []⟩

/-- An eraser on a vault entry. -/
def eraserEntry : Transformation :=
  { sourceType := .Eraser, targetType := .TGVar, target := "entry" }

/-- An eraser on a response header. -/
def eraserHeader : Transformation :=
  { sourceType := .Eraser, targetType := .ResponseHeader_t, target := "x-trace" }

end H2ServerProvision
