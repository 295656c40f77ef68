import H2agent.ClientProvisionProofs
import H2agent.ServerProvisionProofs

/-! # The break target

    A break is to stop everything: no later item of the same list, of a fallback
    list or of the lists around it is processed.  The loop over the outermost list
    looks at the condition before each item; `executeOnFilterFail` does not, on
    either side.

    So a break raised inside a fallback list is followed by the items left in that
    list and in the fallback lists around it.  `break_stops_everything_iff` says
    that this is the only way it fails, for the items of a server provision, of a
    client request and of a client response. -/

namespace H2Break

open FallbackList H2ClientProvision H2Convert H2ServerProvision H2Source H2Target
open H2Transformation JsonValue

/-! ## The items that raise it -/

/-- An outcome leaves the flag as it was, or raised when `fires` says so; after a
    fault there is nothing to say. -/
structure FlagSpec {σ : Type} (stop : σ → Bool) (o : Outcome σ Fault) (before fires : Bool) :
    Prop where
  after : ∀ u, o.state = some u → stop u = (before || fires)
  fault : o.state = none → fires = false

theorem flagSpec_of_some {σ : Type} {stop : σ → Bool} {o : Outcome σ Fault}
    {before fires : Bool} {u : σ} (ho : o.state = some u) (hu : stop u = (before || fires)) :
    FlagSpec stop o before fires := by
  constructor
  · intro u' hu'
    rw [ho] at hu'
    cases hu'
    exact hu
  · intro hnone
    rw [ho] at hnone
    exact nomatch hnone

theorem flagSpec_fault {σ : Type} {stop : σ → Bool} (e : Fault) (before : Bool) :
    FlagSpec stop (.fault e : Outcome σ Fault) before false :=
  ⟨fun _ h => (nomatch h), fun _ => rfl⟩

section Server

variable (env : Env) (req : ServerRequest)

/-- A server item raises the break: its source succeeds, its filter passes, its
    target is a break and the text of the value is not empty. -/
def serverItemBreaks (t : Transformation) (s : ServerRun) : Bool :=
  match H2Source.AdminServerProvision.sourceValue env req s.state.responseBody.json t
      s.state.world with
  | .error _ => false
  | .ok found =>
      let (ok, v) := found.value.assign s.sourceVault
      let w := { s.state.world with vars := found.vars }
      ok && if t.hasFilter then
          !eraser t &&
            match H2Filter.AdminServerProvision.processFilters env w.vars w.vault t v with
            | .error _ => false
            | .ok f => f.passed && serverBreaks env t f.holder w
        else serverBreaks env t v w

theorem serverTargetStage_flag (t : Transformation) (state : ServerState)
    (groups : List String) (v : TypeConverter) :
    FlagSpec ServerRun.stop (H2ServerProvision.targetStage env t state groups v)
      state.world.breakCondition (serverBreaks env t v state.world) :=
  flagSpec_of_some rfl (processTargets_break env t ⟨v, eraser t, groups⟩ state)

theorem serverItem_flag (t : Transformation) (s : ServerRun) :
    FlagSpec ServerRun.stop (H2ServerProvision.processItem env req t s) s.stop
      (serverItemBreaks env req t s) := by
  simp only [H2ServerProvision.processItem, serverItemBreaks]
  cases H2Source.AdminServerProvision.sourceValue env req s.state.responseBody.json t
      s.state.world with
  | error e => exact flagSpec_fault e _
  | ok found =>
      dsimp only
      cases (found.value.assign s.sourceVault).1 with
      | false => exact flagSpec_of_some rfl (Bool.or_false _).symm
      | true =>
          rw [if_pos rfl, Bool.true_and]
          simp only [filterStage]
          by_cases hf : t.hasFilter = true
          · rw [if_pos hf, if_pos hf]
            cases he : eraser t with
            | true =>
                rw [if_pos rfl]
                exact flagSpec_of_some rfl (Bool.or_false _).symm
            | false =>
                rw [if_neg Bool.false_ne_true, Bool.not_false, Bool.true_and]
                show FlagSpec _ (match H2Filter.AdminServerProvision.processFilters env found.vars
                  s.state.world.vault t _ with | .error e => _ | .ok f => _) _ _
                cases H2Filter.AdminServerProvision.processFilters env found.vars
                    s.state.world.vault t (found.value.assign s.sourceVault).2 with
                | error e => exact flagSpec_fault e _
                | ok f =>
                    dsimp only
                    cases f.passed with
                    | false => exact flagSpec_of_some rfl (Bool.or_false _).symm
                    | true =>
                        rw [if_pos rfl, Bool.true_and]
                        exact serverTargetStage_flag env t _ f.groups f.holder
          · rw [if_neg hf, if_neg hf]
            exact serverTargetStage_flag env t _ [] _

end Server

section Client

variable (env : Env) (req : ClientRequest) (seen : ClientState → SeenRequest)

/-- A client item raises the break. -/
def clientItemBreaks (t : Transformation) (s : ClientRun) : Bool :=
  match H2Source.AdminClientProvision.sourceValue env req (seen s.state).requestUri
      (seen s.state).requestHeaders (seen s.state).requestBodyJson t s.state.world with
  | .error _ => false
  | .ok found =>
      let (ok, v) := found.value.assign s.sourceVault
      let w := { s.state.world with vars := found.vars }
      ok && if t.hasFilter then
          !(t.sourceType == .Eraser)
            && match H2Filter.AdminClientProvision.processFilters env w.vars w.vault t v with
              | .error _ => false
              | .ok f => f.passed && clientBreaks env t f.holder w
        else clientBreaks env t v w

theorem clientTargetStage_flag (t : Transformation) (state : ClientState)
    (groups : List String) (v : TypeConverter) :
    FlagSpec ClientRun.stop (H2ClientProvision.targetStage env t state groups v)
      state.world.breakCondition (clientBreaks env t v state.world) := by
  have h := clientTargets_break env t ⟨v, t.sourceType == .Eraser, groups⟩ state
  simp only [H2ClientProvision.targetStage]
  cases hp : H2Target.AdminClientProvision.processTargets env t
      ⟨v, t.sourceType == .Eraser, groups⟩ state with
  | error e =>
      rw [hp] at h
      rw [show clientBreaks env t v state.world = false from h]
      exact flagSpec_fault e _
  | ok r =>
      rw [hp] at h
      exact flagSpec_of_some rfl h

theorem clientItem_flag (t : Transformation) (s : ClientRun) :
    FlagSpec ClientRun.stop (H2ClientProvision.processItem env req seen t s) s.stop
      (clientItemBreaks env req seen t s) := by
  simp only [H2ClientProvision.processItem, clientItemBreaks]
  cases H2Source.AdminClientProvision.sourceValue env req (seen s.state).requestUri
      (seen s.state).requestHeaders (seen s.state).requestBodyJson t s.state.world with
  | error e => exact flagSpec_fault e _
  | ok found =>
      dsimp only
      cases (found.value.assign s.sourceVault).1 with
      | false => exact flagSpec_of_some rfl (Bool.or_false _).symm
      | true =>
          rw [if_neg (by decide), Bool.true_and]
          by_cases hf : t.hasFilter = true
          · rw [if_pos hf, if_pos hf]
            cases he : t.sourceType == .Eraser with
            | true =>
                rw [if_pos rfl]
                exact flagSpec_of_some rfl (Bool.or_false _).symm
            | false =>
                rw [if_neg Bool.false_ne_true, Bool.not_false, Bool.true_and]
                cases H2Filter.AdminClientProvision.processFilters env found.vars
                    s.state.world.vault t (found.value.assign s.sourceVault).2 with
                | error e => exact flagSpec_fault e _
                | ok f =>
                    dsimp only
                    cases f.passed with
                    | false => exact flagSpec_of_some rfl (Bool.or_false _).symm
                    | true =>
                        rw [if_pos rfl, Bool.true_and]
                        exact clientTargetStage_flag env t _ f.groups f.holder
          · rw [if_neg hf, if_neg hf]
            exact clientTargetStage_flag env t _ [] _

end Client

/-! ## Where it is raised -/

section Runs

variable (env : Env) (w : World)

/-- The run of a server provision: an item that raises the break is the last one
    processed, and what the provision built or changed stays as the item left it. -/
def ServerBreakStops (p : AdminServerProvision) (r : Reception) : Prop :=
  Stops ServerRun.stop id (H2ServerProvision.processItem env (p.request env r))
    p.transformations (p.start w)

/-- No server item breaks with something left in the fallback lists around it. -/
def ServerBreaksAtEnd (p : AdminServerProvision) (r : Reception) : Prop :=
  FiresAtEnd ServerRun.stop id (H2ServerProvision.processItem env (p.request env r))
    (serverItemBreaks env (p.request env r)) p.transformations (p.start w)

/-- The same for the request a client builds. -/
def RequestBreakStops (p : AdminClientProvision) (seq : Int) : Prop :=
  Stops ClientRun.stop id
    (H2ClientProvision.processItem env p.request AdminClientProvision.seenBuilding)
    p.transformations (p.start seq w)

def RequestBreaksAtEnd (p : AdminClientProvision) (seq : Int) : Prop :=
  FiresAtEnd ClientRun.stop id
    (H2ClientProvision.processItem env p.request AdminClientProvision.seenBuilding)
    (clientItemBreaks env p.request AdminClientProvision.seenBuilding)
    p.transformations (p.start seq w)

/-- And for the items a client runs on a response. -/
def ResponseBreakStops (p : AdminClientProvision) (requestUri : String)
    (requestHeaders : HeaderMap) (received : ReceivedResponse) (sendSeq : Nat)
    (outState : String) (seq : Int) : Prop :=
  Stops ClientRun.stop AdminClientProvision.freshDummies
    (H2ClientProvision.processItem env (p.responseRequest received sendSeq)
      (AdminClientProvision.seenSent requestUri requestHeaders))
    p.onResponseTransformations (p.startResponse outState seq w)

def ResponseBreaksAtEnd (p : AdminClientProvision) (requestUri : String)
    (requestHeaders : HeaderMap) (received : ReceivedResponse) (sendSeq : Nat)
    (outState : String) (seq : Int) : Prop :=
  FiresAtEnd ClientRun.stop AdminClientProvision.freshDummies
    (H2ClientProvision.processItem env (p.responseRequest received sendSeq)
      (AdminClientProvision.seenSent requestUri requestHeaders))
    (clientItemBreaks env (p.responseRequest received sendSeq)
      (AdminClientProvision.seenSent requestUri requestHeaders))
    p.onResponseTransformations (p.startResponse outState seq w)

/-- **A BREAK STOPS EVERYTHING**, in every run of server items, of client request
    items and of client response items, exactly when no item breaks with something
    left in the fallback lists around it. -/
theorem break_stops_everything_iff :
    (∀ p r, ServerBreakStops env w p r ↔ ServerBreaksAtEnd env w p r)
      ∧ (∀ p seq, RequestBreakStops env w p seq ↔ RequestBreaksAtEnd env w p seq)
      ∧ (∀ p requestUri requestHeaders received sendSeq outState seq,
          ResponseBreakStops env w p requestUri requestHeaders received sendSeq outState seq
            ↔ ResponseBreaksAtEnd env w p requestUri requestHeaders received sendSeq
              outState seq) := by
  have hserver : ∀ req, Fires ServerRun.stop (H2ServerProvision.processItem env req)
      (serverItemBreaks env req) :=
    fun req => ⟨fun t s => (serverItem_flag env req t s).after,
      fun t s => (serverItem_flag env req t s).fault⟩
  have hclient : ∀ req seen, Fires ClientRun.stop (H2ClientProvision.processItem env req seen)
      (clientItemBreaks env req seen) :=
    fun req seen => ⟨fun t s => (clientItem_flag env req seen t s).after,
      fun t s => (clientItem_flag env req seen t s).fault⟩
  refine ⟨fun p r => ?_, fun p seq => ?_, fun p _ _ _ _ _ _ => ?_⟩
  · exact stops_iff_firesAtEnd ServerRun.stop id _ (hserver _) (fun _ => rfl) p.transformations rfl
  · exact stops_iff_firesAtEnd ClientRun.stop id _ (hclient _ _) (fun _ => rfl)
      p.transformations rfl
  · exact stops_iff_firesAtEnd ClientRun.stop AdminClientProvision.freshDummies _ (hclient _ _)
      (fun _ => rfl) p.onResponseTransformations rfl

end Runs

/-- A list whose first item is turned down; its fallback list breaks, and has one
    more item. -/
def breakThenHeader : Transformations :=
  .cons { uid := 1, sourceType := .Value, source := "x", targetType := .TVar, target := "v",
          hasFilter := true, filterType := .EqualTo, filter := "y" }
    (.cons { uid := 2, sourceType := .Value, source := "1", targetType := .Break } .nil
      (.cons { uid := 3, sourceType := .Value, source := "late",
               targetType := .ResponseHeader_t, target := "x-late" } .nil .nil))
    .nil

/-- A request without body, headers or parameters. -/
def plainReception : Reception := ⟨"/", "/", ∅, { str := "" }, [], 1⟩

/-- The item after the break of the fallback list is processed: the response gets
    its header. -/
theorem break_in_fallback_goes_on :
    ¬ ServerBreakStops idleEnv World.blank
        { responseCode := 200, transformations := breakThenHeader } plainReception := by
  intro h
  obtain ⟨hlast, _⟩ := h [_] _ [_] _ rfl rfl rfl
  exact nomatch hlast

end H2Break
