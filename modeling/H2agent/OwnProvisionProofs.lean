import H2agent.TrafficServerProofs

/-! # Provisions that work on their own key

    A provision whose items read the request, variables and the state, and write the
    response, variables and the state of the key itself, sees of the world the
    variables and the vault, and changes the variables only.  `transform_beside`
    runs it beside two worlds that agree on these: it builds the same in both,
    and leaves the rest of each alone. -/

namespace H2Isolation

open FallbackList H2Convert H2Filter H2Key H2ServerProvision H2Source H2Target H2Traffic
open H2Transformation JsonValue

/-! ## Items that work on their own key -/

/-- Sources on the request, on variables, on the state, and plain values. -/
def ownSource : SourceType → Bool
  | .RequestUri | .RequestUriPath | .RequestUriParam | .RequestBody | .RequestHeader
  | .RequestHeaders | .SVar | .InState | .Value => true
  | _ => false

/-- Targets on the response and on variables, and the state of the key itself. -/
def OwnTarget (t : Transformation) : Prop :=
  match t.targetType with
  | .ResponseBodyString | .ResponseBodyHexString | .ResponseBodyJson_String
  | .ResponseBodyJson_Integer | .ResponseBodyJson_Unsigned | .ResponseBodyJson_Float
  | .ResponseBodyJson_Boolean | .ResponseBodyJson_Object | .ResponseBodyJson_JsonString
  | .ResponseHeader_t | .ResponseStatusCode_t | .ResponseDelayMs | .TVar => True
  | .OutState => t.target = "" ∧ t.target2 = ""
  | _ => False

/-- An item that works on its own key. -/
def OwnItem (t : Transformation) : Prop := ownSource t.sourceType = true ∧ OwnTarget t

/-- A provision all of whose items, in fallback lists too, work on their own key. -/
def OwnProvision (p : AdminServerProvision) : Prop := p.transformations.All OwnItem

/-! ## Items beside another world -/

/-- A world with the variables and the flag of another. -/
def World.beside (a w : World) : World :=
  { a with vars := w.vars, breakCondition := w.breakCondition }

/-- What is built, placed beside another world. -/
def place (a : World) (x : ServerState) : ServerState :=
  { x with world := World.beside a x.world }

/-- What two outsides must have in common: the libraries and the schemas. -/
structure SameOutside (env env' : Env) : Prop where
  lib : env.lib = env'.lib
  schemas : env.schemas = env'.schemas

theorem processFilters_outside {env env' : Env} (h : SameOutside env env') (vars : TextMap String)
    (vault : Vault) (t : Transformation) (v : TypeConverter) :
    H2Filter.AdminServerProvision.processFilters env vars vault t v
      = H2Filter.AdminServerProvision.processFilters env' vars vault t v := by
  obtain ⟨lib, schemas⟩ := h
  cases env
  cases env'
  cases lib
  cases schemas
  rfl

theorem expand_outside {env env' : Env} (h : SameOutside env env') {w w' : World}
    (hvars : w.vars = w'.vars) (hvault : w.vault = w'.vault) (str : String)
    (patterns : List (String × String)) :
    expand env w str patterns = expand env' w' str patterns := by
  rw [expand, expand, h.lib, hvars, hvault]

/-- Requests that differ in the number the server gave them. -/
structure SameRequest (req req' : ServerRequest) : Prop where
  requestUri : req.requestUri = req'.requestUri
  requestUriPath : req.requestUriPath = req'.requestUriPath
  queryParameters : req.queryParameters = req'.queryParameters
  bodyDataPart : req.bodyDataPart = req'.bodyDataPart
  headers : req.headers = req'.headers
  inState : req.inState = req'.inState

theorem sourceValue_own {env env' : Env} (h : SameOutside env env') {req req' : ServerRequest}
    (hreq : SameRequest req req') (body : Json) {t : Transformation}
    (ht : ownSource t.sourceType = true) {w w' : World} (hvars : w.vars = w'.vars)
    (hvault : w.vault = w'.vault) :
    H2Source.AdminServerProvision.sourceValue env req body t w
      = H2Source.AdminServerProvision.sourceValue env' req' body t w' := by
  have hexpand := expand_outside h hvars hvault
  unfold H2Source.AdminServerProvision.sourceValue sharedSource
  cases hs : t.sourceType <;> rw [hs] at ht <;> cases ht <;>
    simp only [hexpand, hvars, hreq.requestUri, hreq.requestUriPath, hreq.queryParameters,
      hreq.bodyDataPart, hreq.headers, hreq.inState]

theorem varTarget_beside (lib : Lib) (t : Transformation) (target : String) (inc : Incoming)
    (a w : World) :
    varTarget lib t target inc (World.beside a w)
      = ((varTarget lib t target inc w).1, World.beside a (varTarget lib t target inc w).2) := by
  unfold varTarget
  split
  · cases inc.groups with
    | nil => rfl
    | cons whole groups => rfl
  · cases inc.holder.getString lib with
    | error e => rfl
    | ok s =>
        dsimp only
        split
        · rfl
        · split <;> rfl

theorem serverTarget_place {env env' : Env} (h : SameOutside env env') {t : Transformation}
    (ht : OwnTarget t) (target target2 : String) (inc : Incoming) (a : World) (x : ServerState) :
    serverTarget env' t target target2 inc (place a x)
      = ((serverTarget env t target target2 inc x).1,
          place a (serverTarget env t target target2 inc x).2) := by
  unfold serverTarget OwnTarget at *
  rw [← h.lib]
  cases htype : t.targetType <;> rw [htype] at ht <;> (try cases ht) <;>
    simp only [responseBodyTarget]
  -- what is left reads its value first, and does nothing when that fails
  case ResponseHeader_t => cases inc.holder.getString env.lib <;> rfl
  case ResponseStatusCode_t => cases inc.holder.getUnsigned env.lib <;> rfl
  case ResponseDelayMs => cases inc.holder.getUnsigned env.lib <;> rfl
  case OutState => cases inc.holder.getString env.lib <;> rfl
  case TVar =>
    simp only [worldTarget, htype]
    rw [← h.lib]
    exact congrArg (fun r : Bool × World => (r.1, { x with world := r.2 }))
      (varTarget_beside env.lib t target inc a x.world)
  all_goals rfl

/-- Targets see of the world the variables and the vault, and change the variables
    only. -/
theorem processTargets_place {env env' : Env} (h : SameOutside env env') {t : Transformation}
    (ht : OwnTarget t) (inc : Incoming) {a : World} {x : ServerState}
    (hvault : x.world.vault = a.vault) :
    H2Target.AdminServerProvision.processTargets env' t inc (place a x)
      = ((H2Target.AdminServerProvision.processTargets env t inc x).1,
          place a (H2Target.AdminServerProvision.processTargets env t inc x).2) := by
  have hvars : x.world.vars = (place a x).world.vars := rfl
  have hexpand : ∀ str patterns, expand env' (place a x).world str patterns
      = expand env x.world str patterns :=
    fun str patterns => (expand_outside h hvars hvault str patterns).symm
  have hnonempty : expandNonEmpty env' (place a x).world t.target2 t.target2Patterns
      = expandNonEmpty env x.world t.target2 t.target2Patterns := by
    unfold expandNonEmpty
    rw [hexpand]
  unfold H2Target.AdminServerProvision.processTargets
  rw [hexpand]
  cases expand env x.world t.target t.targetPatterns with
  | error e => rfl
  | ok target =>
      dsimp only
      rw [hnonempty]
      cases expandNonEmpty env x.world t.target2 t.target2Patterns with
      | error e => rfl
      | ok target2 => exact serverTarget_place h ht target target2 inc a x

/-- There is nothing to replace in the empty text. -/
theorem replaceEach_empty_text (lib : Lib) (vars : TextMap String) (vault : Vault)
    (patterns : List (String × String)) {r : String}
    (h : replaceEach lib vars vault patterns "" = .ok r) : r = "" := by
  have hempty : ∀ pattern replacement, searchReplaceAll "" pattern replacement = "" :=
    fun _ _ => rfl
  induction patterns with
  | nil => exact (Except.ok.inj h).symm
  | cons e rest ih =>
      obtain ⟨pattern, name⟩ := e
      rw [replaceEach] at h
      split at h
      · rw [hempty] at h
        exact ih h
      · split at h
        · exact ih h
        · split at h
          · cases h
          · rw [hempty] at h
            exact ih h

theorem expand_empty_text {env : Env} {w : World} {patterns : List (String × String)} {r : String}
    (h : expand env w "" patterns = .ok r) : r = "" := by
  unfold expand replaceVariables at h
  split at h
  · exact (Except.ok.inj h).symm
  · split at h
    · exact (Except.ok.inj h).symm
    · exact replaceEach_empty_text _ _ _ _ h

theorem serverTarget_method {env : Env} {t : Transformation} (ht : OwnTarget t)
    {target target2 : String} (htarget : t.targetType = .OutState → target = "") (inc : Incoming)
    {x : ServerState} (hx : x.outStateMethod = "") :
    (serverTarget env t target target2 inc x).2.outStateMethod = "" := by
  unfold serverTarget OwnTarget at *
  cases htype : t.targetType <;> rw [htype] at ht <;> (try cases ht) <;>
    simp only [responseBodyTarget]
  case OutState =>
    cases inc.holder.getString env.lib with
    | error e => exact hx
    | ok value => exact htarget htype
  case ResponseHeader_t => cases inc.holder.getString env.lib <;> exact hx
  case ResponseStatusCode_t => cases inc.holder.getUnsigned env.lib <;> exact hx
  case ResponseDelayMs => cases inc.holder.getUnsigned env.lib <;> exact hx
  all_goals exact hx

/-- No item asks for the state of another key. -/
theorem processTargets_method {env : Env} {t : Transformation} (ht : OwnTarget t) (inc : Incoming)
    {x : ServerState} (hx : x.outStateMethod = "") :
    (H2Target.AdminServerProvision.processTargets env t inc x).2.outStateMethod = "" := by
  unfold H2Target.AdminServerProvision.processTargets
  cases htarget : expand env x.world t.target t.targetPatterns with
  | error e => exact hx
  | ok target =>
      cases expandNonEmpty env x.world t.target2 t.target2Patterns with
      | error e => exact hx
      | ok target2 =>
          refine serverTarget_method ht (fun htype => ?_) inc hx
          unfold OwnTarget at ht
          rw [htype] at ht
          rw [ht.1] at htarget
          exact expand_empty_text htarget

/-- Two runs of the items of a provision, each beside its own world. -/
structure Beside (a b : World) (s s' : ServerRun) : Prop where
  own : s.state = place a s.state
  other : s'.state = place b s.state
  holder : s.sourceVault = s'.sourceVault
  method : s.state.outStateMethod = ""

section Beside

variable {a b : World} (hab : a.vault = b.vault)

theorem vault_of_own {x : ServerState} (h : x = place a x) : x.world.vault = a.vault := by
  rw [h]
  rfl

include hab in
theorem targetStage_beside {env env' : Env} (h : SameOutside env env') {t : Transformation}
    (ht : OwnTarget t) (groups : List String) (v : TypeConverter) {x : ServerState}
    (hx : x = place a x) (hm : x.outStateMethod = "") :
    OutcomeRel (Beside a b) (targetStage env t x groups v)
      (targetStage env' t (place b x) groups v) := by
  have hv := vault_of_own hx
  have hsame : SameOutside env env := ⟨rfl, rfl⟩
  have hown := processTargets_place hsame ht ⟨v, eraser t, groups⟩ hv
  have hother := processTargets_place h ht ⟨v, eraser t, groups⟩ (hv.trans hab)
  rw [← hx] at hown
  unfold targetStage
  rw [hother]
  exact .done _ ⟨congrArg Prod.snd hown, rfl, rfl, processTargets_method ht _ hm⟩

include hab in
theorem filterStage_beside {env env' : Env} (h : SameOutside env env') {t : Transformation}
    (ht : OwnTarget t) (v : TypeConverter) {x : ServerState} (hx : x = place a x)
    (hm : x.outStateMethod = "") :
    OutcomeRel (Beside a b) (filterStage env t x v) (filterStage env' t (place b x) v) := by
  have hstay : ∀ w : TypeConverter, Beside a b ⟨x, w⟩ ⟨place b x, w⟩ := fun w => ⟨hx, rfl, rfl, hm⟩
  have hvault : (place b x).world.vault = x.world.vault := ((vault_of_own hx).trans hab).symm
  have hfilters : H2Filter.AdminServerProvision.processFilters env' (place b x).world.vars
      (place b x).world.vault t v
      = H2Filter.AdminServerProvision.processFilters env x.world.vars x.world.vault t v := by
    rw [hvault, processFilters_outside h]
    rfl
  unfold filterStage
  by_cases hf : t.hasFilter = true
  · rw [if_pos hf, if_pos hf]
    by_cases he : eraser t = true
    · rw [if_pos he, if_pos he]
      exact .turnedDown (hstay v)
    · rw [if_neg he, if_neg he, hfilters]
      cases H2Filter.AdminServerProvision.processFilters env x.world.vars x.world.vault t v with
      | error e => exact .fault e
      | ok f =>
          dsimp only
          by_cases hp : f.passed = true
          · rw [if_pos hp, if_pos hp]
            exact targetStage_beside hab h ht f.groups f.holder hx hm
          · rw [if_neg hp, if_neg hp]
            exact .turnedDown (hstay f.holder)
  · rw [if_neg hf, if_neg hf]
    exact targetStage_beside hab h ht [] v hx hm

include hab in
/-- **STEP LEMMA**: an item that works on its own key ends alike beside two worlds
    with the same vault, and changes neither but for the variables. -/
theorem processItem_beside {env env' : Env} (h : SameOutside env env') {req req' : ServerRequest}
    (hreq : SameRequest req req') {t : Transformation} (ht : OwnItem t) {s s' : ServerRun}
    (hs : Beside a b s s') :
    OutcomeRel (Beside a b) (processItem env req t s) (processItem env' req' t s') := by
  obtain ⟨x, v⟩ := s
  obtain ⟨x', v'⟩ := s'
  obtain ⟨hx, hx', hv, hm⟩ := hs
  dsimp only at hx hx' hv hm
  subst hx' hv
  have hvault : x.world.vault = (place b x).world.vault := (vault_of_own hx).trans hab
  have hvars : x.world.vars = (place b x).world.vars := rfl
  have hsource := sourceValue_own h hreq x.responseBody.json ht.1 hvars hvault
  unfold processItem
  dsimp only
  rw [show (place b x).responseBody.json = x.responseBody.json from rfl, ← hsource]
  cases H2Source.AdminServerProvision.sourceValue env req x.responseBody.json t x.world with
  | error e => exact .fault e
  | ok found =>
      have hkeep : ServerState.withVars x found.vars = place a (ServerState.withVars x found.vars) := by
        nth_rewrite 1 [hx]
        rfl
      dsimp only
      by_cases hok : (found.value.assign v).1 = true
      · rw [if_pos hok, if_pos hok]
        exact filterStage_beside hab h ht.2 _ hkeep hm
      · rw [if_neg hok, if_neg hok]
        exact .skip ⟨hkeep, rfl, rfl, hm⟩

/-- What a provision builds, each time beside its own world. -/
structure Built (a b : World) (x x' : ServerState) : Prop where
  own : x = place a x
  other : x' = place b x
  method : x.outStateMethod = ""

section Built

variable {x x' : ServerState} (h : Built a b x x')

include h

theorem Built.stores : x.world.serverEvents = a.serverEvents := by
  rw [h.own]
  rfl

theorem Built.vault : x.world.vault = a.vault := by
  rw [h.own]
  rfl

theorem Built.stores' : x'.world.serverEvents = b.serverEvents := by
  rw [h.other]
  rfl

theorem Built.vault' : x'.world.vault = b.vault := by
  rw [h.other]
  rfl

theorem Built.method' : x'.outStateMethod = "" := by
  rw [h.other]
  exact h.method

theorem Built.reply : replyOf x' = replyOf x := by
  rw [h.other]
  rfl

end Built

theorem initialState_beside (hvars : a.vars = b.vars) (p : AdminServerProvision) (body : Body) :
    Built a b (p.initialState a body) (p.initialState b body) := by
  refine ⟨rfl, ?_, rfl⟩
  show p.initialState b body = place b (p.initialState a body)
  unfold place World.beside AdminServerProvision.initialState
  rw [hvars]

theorem dataPart_outside {env env' : Env} (h : SameOutside env env') (p : AdminServerProvision)
    (r : Reception) (n : Nat) : p.dataPart env' { r with recvSeq := n } = p.dataPart env r := by
  unfold AdminServerProvision.dataPart
  rw [h.lib]
  rfl

theorem finish_place (env : Env) (p : AdminServerProvision) (w : World) (x : ServerState) :
    p.finish env (place w x) = place w (p.finish env x) := by
  unfold AdminServerProvision.finish
  cases p.responseSchema with
  | none => rfl
  | some schema =>
      dsimp only
      rw [apply_ite (place w)]
      rfl

theorem finish_method (env : Env) (p : AdminServerProvision) (x : ServerState) :
    (p.finish env x).outStateMethod = x.outStateMethod := by
  unfold AdminServerProvision.finish
  cases p.responseSchema with
  | none => rfl
  | some schema =>
      dsimp only
      rw [apply_ite ServerState.outStateMethod]
      exact ite_self _

theorem finish_outside {env env' : Env} (h : SameOutside env env') (p : AdminServerProvision)
    (x : ServerState) : p.finish env' x = p.finish env x := by
  unfold AdminServerProvision.finish AdminServerProvision.finalBody
  rw [h.lib]

theorem finish_beside {env env' : Env} (h : SameOutside env env') (p : AdminServerProvision)
    {x x' : ServerState} (hx : Built a b x x') : Built a b (p.finish env x) (p.finish env' x') := by
  refine ⟨?_, ?_, ?_⟩
  · exact (congrArg (p.finish env) hx.own).trans (finish_place env p a x)
  · rw [hx.other, finish_outside h, finish_place]
  · rw [finish_method]
    exact hx.method

include hab in
/-- **TRANSFORMATION OF A KEY**: a provision that works on its own key builds the same
    beside two worlds with the same variables and vault, whatever number the
    server gave the request. -/
theorem transform_beside (hvars : a.vars = b.vars) {env env' : Env} (h : SameOutside env env')
    {p : AdminServerProvision} (hp : OwnProvision p) (r : Reception) (n : Nat) :
    ResultRel (Built a b) (p.transform env r a) (p.transform env' { r with recvSeq := n } b) := by
  have hdata := dataPart_outside h p r n
  have haccepts : p.accepts env' { r with recvSeq := n } = p.accepts env r := by
    unfold AdminServerProvision.accepts
    rw [hdata, h.lib]
  unfold AdminServerProvision.transform
  rw [haccepts]
  by_cases hacc : p.accepts env r = true
  · rw [if_pos hacc, if_pos hacc]
    have hreq : SameRequest (p.request env r) (p.request env' { r with recvSeq := n }) :=
      ⟨rfl, rfl, rfl, hdata.symm, rfl, rfl⟩
    have hstart : Beside a b (p.start a) (p.start b) :=
      ⟨rfl, (initialState_beside hvars p p.initialBody).other, rfl, rfl⟩
    have hrun : ResultRel (Beside a b) (p.runItems env r a)
        (p.runItems env' { r with recvSeq := n } b) := by
      refine runMain_sim ?_ ?_ p.transformations (meets_traceMain _ hp _) hstart
      · intro s s' hs
        show s.state.world.breakCondition = s'.state.world.breakCondition
        rw [hs.other]
        rfl
      · intro t s s' ht hs
        exact processItem_beside hab h hreq ht hs
    generalize p.runItems env r a = result at hrun ⊢
    generalize p.runItems env' { r with recvSeq := n } b = result' at hrun ⊢
    cases hrun with
    | ok hs => exact .ok (finish_beside h p ⟨hs.own, hs.other, hs.method⟩)
    | error e => exact .error e
  · -- a request that is not accepted: no item is passed
    rw [if_neg hacc, if_neg hacc]
    have hbuilt := initialState_beside hvars p ⟨.null, ""⟩
    refine .ok ⟨rfl, ?_, rfl⟩
    rw [hbuilt.other]
    rfl

/-- Such a provision leaves the stores and the vault of its world. -/
theorem transform_frame {env : Env} {p : AdminServerProvision} (hp : OwnProvision p)
    {r : Reception} {w : World} {out : ServerState} (h : p.transform env r w = .ok out) :
    out.world.serverEvents = w.serverEvents ∧ out.world.vault = w.vault
      ∧ out.outStateMethod = "" := by
  have hbuilt : ResultRel (Built w w) (p.transform env r w) (p.transform env r w) :=
    transform_beside rfl rfl ⟨rfl, rfl⟩ hp r r.recvSeq
  rw [h] at hbuilt
  cases hbuilt with
  | ok hb => exact ⟨hb.stores, hb.vault, hb.method⟩

end Beside

end H2Isolation
