import H2agent.ClientProvisionProofs

/-! # The reserved variable of a client provision

    `transform` and `transformResponse` put the number of the request into the variable
    `sequence` before their items run.  The variable is documented as reserved and not
    writable, but a target on a variable writes whatever name it comes out with.

    Nothing else can: a command writes `rc` only, and the names of captures, of matched
    keys and of reports have a dot.

    * `processItem_sequence`: an item whose target does not come out as `sequence` leaves
      the variable;
    * `sequence_kept`: in a run of such items it keeps the number, before and after every
      item, in fallback lists too. -/

namespace H2ClientProvision

open FallbackList H2Convert H2Key H2Source H2Target H2Transformation JsonValue

/-- The variable `sequence`. -/
def sequenceOf (vars : TextMap String) : Option String := vars.lookup "sequence"

theorem sequenceOf_insert {name : String} (h : name ≠ "sequence") (vars : TextMap String)
    (value : String) : sequenceOf (vars.insert name value) = sequenceOf vars :=
  AList.lookup_insert_ne (Ne.symm h)

/-! ## Names with a dot -/

theorem dotted_ne {name rest : String} : name ++ "." ++ rest ≠ "sequence" := by
  intro h
  have hmem : '.' ∈ (name ++ "." ++ rest).toList := by
    simp [String.toList_append]
  rw [h] at hmem
  exact absurd hmem (by decide)

theorem report_ne {name : String} : name ++ ".fail" ≠ "sequence" := by
  intro h
  have hmem : '.' ∈ (name ++ ".fail").toList := by
    simp [String.toList_append]
  rw [h] at hmem
  exact absurd hmem (by decide)

/-- The groups of a regular expression have names with a dot. -/
theorem storeGroups_sequence (target : String) (i : Nat) (groups : List String)
    (vars : TextMap String) : sequenceOf (storeGroups target i groups vars) = sequenceOf vars := by
  induction groups generalizing i vars with
  | nil => rfl
  | cons g gs ih => rw [storeGroups, ih, sequenceOf_insert dotted_ne]

/-! ## Targets -/

section Targets

variable (env : Env) (t : Transformation) (target : String) (inc : Incoming) (w : World)

theorem varTarget_sequence (h : target ≠ "sequence") :
    sequenceOf (varTarget env.lib t target inc w).2.vars = sequenceOf w.vars := by
  simp only [varTarget]
  split
  · split
    · rfl
    · rw [storeGroups_sequence, sequenceOf_insert h]
  · split
    · rfl
    · split
      · rw [storeGroups_sequence, sequenceOf_insert h]
      · split
        · rw [sequenceOf_insert h, sequenceOf_insert report_ne]
        · rw [sequenceOf_insert h]

theorem worldTarget_sequence (h : t.targetType = .TVar → target ≠ "sequence") :
    sequenceOf (worldTarget env t target inc w).2.vars = sequenceOf w.vars := by
  have hkept : ∀ w', Touched env t target inc w w' → sequenceOf w'.vars = sequenceOf w.vars := by
    intro w' htouched
    cases htouched with
    | vars ht => exact varTarget_sequence env t target inc w (h ht)
    | groups ht vault => exact storeGroups_sequence target 0 inc.groups w.vars
    | nothing | vault | files | datagrams | condition => rfl
  exact hkept _ (worldTarget_touched env t target inc w)

theorem clientTarget_sequence (s : ClientState) (h : t.targetType = .TVar → target ≠ "sequence") :
    sequenceOf (clientTarget env t target inc s).2.world.vars = sequenceOf s.world.vars := by
  rcases clientTarget_world env t target inc s with hworld | ⟨-, hworld⟩ | hworld
  · rw [hworld]
  · rw [hworld]
    exact @caught_keeps _ _ (fun w : World => sequenceOf w.vars) _ _
      (@purgeClientEvent_keeps env t _ (fun w : World => sequenceOf w.vars) (fun _ _ => rfl) s.world)
  · rw [hworld]
    exact worldTarget_sequence env t target inc s.world h

end Targets

/-! ## Sources -/

section Sources

variable (env : Env) (t : Transformation) (w : World)

/-- The variables a source leaves: the same, or others in `rc`. -/
def KeepsSequence (w : World) (r : Sourced) : Prop := sequenceOf r.vars = sequenceOf w.vars

theorem commandSourced_sequence (command : String) :
    KeepsSequence w (commandSourced env t w command) := by
  rw [KeepsSequence, commandSourced]
  split
  · exact sequenceOf_insert (by decide) w.vars _
  · exact sequenceOf_insert (by decide) w.vars _

theorem sharedSource_sequence (inState requestUri : String) (requestHeaders : HeaderMap) :
    Yields (KeepsSequence w) (sharedSource env inState requestUri requestHeaders t w) := by
  have hsame : ∀ value : SourceValue, KeepsSequence w ⟨value, w.vars⟩ := fun _ => rfl
  simp only [sharedSource]
  cases t.sourceType with
  | RequestUri | RequestHeader | RequestHeaders | Timestamp | InState | RequestUriPath
  | RequestUriParam | RequestBody | ResponseBody | Eraser | Recvseq | Sendseq | ResponseHeader
  | ResponseHeaders | ResponseStatusCode => exact yields_ok (hsame _)
  | Math | Random | RandomSet | Strftime | SGVar | Value | ServerEvent | ClientEvent | STxtFile
  | SBinFile => exact yields_bind fun _ _ => yields_ok (hsame _)
  | SVar =>
      refine yields_bind fun varname _ => ?_
      split
      · exact yields_ok (hsame _)
      · exact yields_ok (hsame _)
  | Command => exact yields_bind fun command _ => yields_ok (commandSourced_sequence env t w command)

theorem sourceValue_sequence (req : ClientRequest) (requestUri : String) (requestHeaders : HeaderMap)
    (requestBodyJson : Json) :
    Yields (KeepsSequence w)
      (AdminClientProvision.sourceValue env req requestUri requestHeaders requestBodyJson t w) := by
  have hsame : ∀ value : SourceValue, KeepsSequence w ⟨value, w.vars⟩ := fun _ => rfl
  simp only [AdminClientProvision.sourceValue]
  split
  · refine yields_bind fun path _ => ?_
    split
    · exact yields_ok (hsame _)
    · exact yields_ok (hsame _)
  · split
    · exact yields_ok (hsame _)
    · refine yields_bind fun path _ => ?_
      split
      · exact yields_ok (hsame _)
      · exact yields_ok (hsame _)
  · split <;> exact yields_ok (hsame _)
  · split <;> exact yields_ok (hsame _)
  · split <;> exact yields_ok (hsame _)
  · exact yields_ok (hsame _)
  · exact yields_ok (hsame _)
  · exact yields_ok (hsame _)
  · exact yields_ok (hsame _)
  · exact yields_ok (hsame _)
  · exact sharedSource_sequence env t w req.inState requestUri requestHeaders

end Sources

/-! ## Items and runs -/

/-- An item that gets to a target on a variable does not find it named `sequence`. -/
def SparesSequence (env : Env) (req : ClientRequest) (seen : ClientState → SeenRequest)
    (t : Transformation) (s : ClientRun) : Prop :=
  t.targetType = .TVar → ∀ w, targetWorld env req seen t s = some w →
    expand env w t.target t.targetPatterns ≠ .ok "sequence"

/-- **STEP LEMMA**: such an item leaves the variable. -/
theorem processItem_sequence {env : Env} {req : ClientRequest} {seen : ClientState → SeenRequest}
    {t : Transformation} {s u : ClientRun} (ht : SparesSequence env req seen t s)
    (h : (processItem env req seen t s).state = some u) :
    sequenceOf u.state.world.vars = sequenceOf s.state.world.vars := by
  obtain ⟨found, hsource, hleft⟩ := processItem_cases h
  have hfound : sequenceOf found.vars = sequenceOf s.state.world.vars :=
    sourceValue_sequence env t s.state.world req _ _ _ found hsource
  rcases hleft with hu | ⟨hworld, groups, v, hstage⟩
  · rw [hu]
    exact hfound
  · obtain ⟨target, hexpand, hu⟩ := targetStage_cases hstage
    have hname : t.targetType = .TVar → target ≠ "sequence" := by
      rintro hvar rfl
      exact ht hvar _ hworld hexpand
    rw [hu, clientTarget_sequence env t target _ _ hname]
    exact hfound

namespace AdminClientProvision

/-- The number of a request. -/
def sequenceNumber (p : AdminClientProvision) (seq : Int) : Int := if seq ≥ 0 then seq else p.seq

/-- The items `transform` passes. -/
def trace (env : Env) (p : AdminClientProvision) (seq : Int) (w : World) :
    List (Entry Transformation ClientRun) :=
  traceMain ClientRun.stop id (processItem env p.request seenBuilding) p.transformations
    (p.start seq w)

/-- The items `transformResponse` passes. -/
def responseTrace (env : Env) (p : AdminClientProvision) (requestUri : String)
    (requestHeaders : HeaderMap) (received : ReceivedResponse) (sendSeq : Nat)
    (outState : String) (seq : Int) (w : World) : List (Entry Transformation ClientRun) :=
  traceMain ClientRun.stop freshDummies
    (processItem env (p.responseRequest received sendSeq) (seenSent requestUri requestHeaders))
    p.onResponseTransformations (p.startResponse outState seq w)

end AdminClientProvision

/-- The variable `sequence` has a value. -/
def HasSequence (value : String) (s : ClientRun) : Prop :=
  sequenceOf s.state.world.vars = some value

theorem withSequence_has (p : AdminClientProvision) (seq : Int) (w : World) :
    sequenceOf (p.withSequence seq w).vars = some (toString (p.sequenceNumber seq)) :=
  AList.lookup_insert _

theorem trace_kept {env : Env} {p : AdminClientProvision} {seq : Int} {w : World}
    (hspares : Meets (SparesSequence env p.request AdminClientProvision.seenBuilding)
      (p.trace env seq w)) :
    Along (HasSequence (toString (p.sequenceNumber seq))) (p.trace env seq w) ∧
      ∀ s, p.runItems env seq w = .ok s → HasSequence (toString (p.sequenceNumber seq)) s :=
  traceMain_along (I := HasSequence _) (fun _ h => h)
    (fun _ _ _ ht hs hu => (processItem_sequence ht hu).trans hs) p.transformations
    (withSequence_has p seq w) hspares

theorem responseTrace_kept {env : Env} {p : AdminClientProvision} {requestUri : String}
    {requestHeaders : HeaderMap} {received : ReceivedResponse} {sendSeq : Nat} {outState : String}
    {seq : Int} {w : World}
    (hspares : Meets (SparesSequence env (p.responseRequest received sendSeq)
        (AdminClientProvision.seenSent requestUri requestHeaders))
      (p.responseTrace env requestUri requestHeaders received sendSeq outState seq w)) :
    Along (HasSequence (toString (p.sequenceNumber seq)))
        (p.responseTrace env requestUri requestHeaders received sendSeq outState seq w) ∧
      ∀ s, p.runResponseItems env requestUri requestHeaders received sendSeq outState seq w = .ok s →
        HasSequence (toString (p.sequenceNumber seq)) s := by
  have hstart : HasSequence (toString (p.sequenceNumber seq)) (p.startResponse outState seq w) :=
    withSequence_has p seq w
  have hpass : ∀ d s t, SparesSequence env (p.responseRequest received sendSeq)
      (AdminClientProvision.seenSent requestUri requestHeaders) d s →
      HasSequence (toString (p.sequenceNumber seq)) s →
      (processItem env (p.responseRequest received sendSeq)
        (AdminClientProvision.seenSent requestUri requestHeaders) d s).state = some t →
      HasSequence (toString (p.sequenceNumber seq)) t :=
    fun _ _ _ ht hs hu => (processItem_sequence ht hu).trans hs
  have henter : ∀ s, HasSequence (toString (p.sequenceNumber seq)) s →
      HasSequence (toString (p.sequenceNumber seq)) (AdminClientProvision.freshDummies s) :=
    fun _ h => h
  exact traceMain_along henter hpass p.onResponseTransformations hstart hspares

/-- A request that is built, and the response to it with the same number: where no target on a
    variable comes out as `sequence`, the variable has the number of the request before and
    after every item, and at the end.  Without items on the response it is left as it was. -/
theorem sequence_kept (env env' : Env) (p p' : AdminClientProvision) (seq seq' : Int) (w w' : World)
    (requestUri : String) (requestHeaders : HeaderMap) (received : ReceivedResponse) (sendSeq : Nat)
    (outState : String) (hnumber : p'.sequenceNumber seq' = p.sequenceNumber seq)
    (hspares : Meets (SparesSequence env p.request AdminClientProvision.seenBuilding)
      (p.trace env seq w))
    (hspares' : Meets (SparesSequence env' (p'.responseRequest received sendSeq)
        (AdminClientProvision.seenSent requestUri requestHeaders))
      (p'.responseTrace env' requestUri requestHeaders received sendSeq outState seq' w')) :
    Along (HasSequence (toString (p.sequenceNumber seq))) (p.trace env seq w) ∧
    (∀ out error, p.transform env seq w = .ok (out, error) →
      sequenceOf out.world.vars = some (toString (p.sequenceNumber seq))) ∧
    Along (HasSequence (toString (p.sequenceNumber seq)))
      (p'.responseTrace env' requestUri requestHeaders received sendSeq outState seq' w') ∧
    (∀ valid out left, p'.transformResponse env' requestUri requestHeaders received sendSeq outState
        seq' w' = .ok (valid, out, left) →
      sequenceOf left.vars = if p'.onResponseTransformations.isNil then sequenceOf w'.vars
        else some (toString (p.sequenceNumber seq))) := by
  obtain ⟨halong, hend⟩ := trace_kept hspares
  obtain ⟨halong', hend'⟩ := responseTrace_kept hspares'
  rw [hnumber] at halong' hend'
  refine ⟨halong, ?_, halong', ?_⟩
  · intro out error h
    obtain ⟨s, hs, hworld⟩ := AdminClientProvision.transform_world h
    rw [hworld]
    exact hend s hs
  · intro valid out left h
    simp only [AdminClientProvision.transformResponse] at h
    split at h
    · next hnil =>
        cases h
        rw [if_pos hnil]
    · next hitems =>
        rw [if_neg hitems]
        split at h
        · cases h
        · next s hs =>
            cases h
            exact hend' s hs

/-- A request whose only item puts the number of a phone into a variable. -/
def dialling (variableName : String) : AdminClientProvision where
  outState := "road-closed"
  requestMethod := "GET"
  requestUri := "/foo/bar"
  transformations := .cons { sourceType := .Value, source := "555", targetType := .TVar,
                             target := variableName } .nil .nil

def noContent : ReceivedResponse := ⟨"", [], 204⟩

theorem phone_keeps_sequence :
    ∃ out, (dialling "phone").transform idleEnv 7 World.blank = .ok (out, none) ∧
      sequenceOf out.world.vars = some "7" := by
  have hkept := sequence_kept idleEnv idleEnv (dialling "phone") (dialling "phone") 7 7 World.blank
    World.blank "/foo/bar" [] noContent 1 "" rfl ?_ ?_
  · exact ⟨_, rfl, hkept.2.1 _ none rfl⟩
  · intro e he hvar w hw h
    rw [List.mem_singleton.mp (show e ∈ [_] from he)] at h
    injection h with hname
    exact absurd hname (by decide)
  · intro e he
    cases he

/-- The target `var.sequence` is taken. -/
theorem sequence_written :
    ∃ out, (dialling "sequence").transform idleEnv 7 World.blank = .ok (out, none) ∧
      sequenceOf out.world.vars = some "555" := ⟨_, rfl, rfl⟩

end H2ClientProvision
