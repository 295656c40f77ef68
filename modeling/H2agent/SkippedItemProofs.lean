import H2agent.ClientProvisionProofs
import H2agent.HexStringProofs
import H2agent.NumberFilterProofs
import H2agent.ProvisionStoreProofs

/-! # Skipped items

    An item that cannot be carried out is to be skipped, and to leave everything
    as it was.  Three places decide whether it does.

    * `Sum` and `Multiply` on a value that is no number go on with zero:
      `number_filter_skips_iff`;
    * a response body that was prepared as JSON and is empty is never turned back
      into its text, also when no item got as far as its target:
      `all_skipped_same_iff`;
    * the decoder of hexadecimal texts writes into the body while it validates:
      `refused_hex_keeps_iff`. -/

namespace H2Skip

open CppText FallbackList H2Convert H2Filter H2Hex H2Key H2Load H2Number H2Provisions H2Source
  H2Target H2Traffic H2Transformation JsonValue

/-! ## Values that are no numbers -/

/-- The conversion of the filter's arithmetic rejects the text. -/
def RejectsText (lib : Lib) (t : Transformation) (s : String) : Prop :=
  match t.filterNumberType with
  | 0 => stoll s = none
  | 1 => stoull s = none
  | _ => lib.stod s = none

/-- A value without numeric conversion: an object, or a text that is rejected. -/
inductive NoNumber (lib : Lib) (t : Transformation) (v : TypeConverter) : Prop
  | object (h : v.native = .object)
  | text (s : String) (h : v.native = .string s) (hs : RejectsText lib t s)

/-- What the filter leaves of such a value. -/
def zeroed (t : Transformation) (v : TypeConverter) : TypeConverter :=
  match t.filterNumberType with
  | 0 => v.setInteger 0
  | 1 => v.setUnsigned 0
  | _ => v.setFloat 0

/-- The kinds of arithmetic an amount can ask for. -/
theorem numberType_of_amount {t : Transformation} {op : Operation} {amount : Json}
    (h : HasAmount t op amount) :
    t.filterNumberType = 0 ∨ t.filterNumberType = 1 ∨ t.filterNumberType = 2 := by
  rw [h.numberType]
  cases amount with
  | uint u => exact .inr (.inl rfl)
  | float f => exact .inr (.inr rfl)
  | int | null | bool | str | arr | obj => exact .inl rfl

/-- Without a number the filter stores zero, and does not add or multiply. -/
theorem applied_zeroed (env : Env) {t : Transformation} {op : Operation} {amount : Json}
    {v : TypeConverter} (h : HasAmount t op amount) (hno : NoNumber env.lib t v) :
    applied env op t v = zeroed t v := by
  have hfilter : ∀ onI onU onF, numberFilter env.lib t v onI onU onF = zeroed t v := by
    intro onI onU onF
    cases hno with
    | object hv =>
        rcases numberType_of_amount h with hn | hn | hn
        · simp only [numberFilter, zeroed, hn, TypeConverter.getInteger, hv]
        · simp only [numberFilter, zeroed, hn, TypeConverter.getUnsigned, hv]
        · simp only [numberFilter, zeroed, hn, TypeConverter.getFloat, hv]
    | text s hv hs =>
        rcases numberType_of_amount h with hn | hn | hn
        · simp only [RejectsText, hn] at hs
          simp only [numberFilter, zeroed, hn, TypeConverter.getInteger, hv, hs]
        · simp only [RejectsText, hn] at hs
          simp only [numberFilter, zeroed, hn, TypeConverter.getUnsigned, hv, hs]
        · simp only [RejectsText, hn] at hs
          simp only [numberFilter, zeroed, hn, TypeConverter.getFloat, hv, hs]
  cases op with
  | Sum => exact hfilter _ _ _
  | Multiply => exact hfilter _ _ _

section NumberItem

variable {env : Env} {t : Transformation} {op : Operation} {amount : Json}
  (ht : HasAmount t op amount) (hf : t.hasFilter = true) {found : Sourced} {v : TypeConverter}

section Server

variable {req : ServerRequest} {s : H2ServerProvision.ServerRun}
  (hsource : AdminServerProvision.sourceValue env req s.state.responseBody.json t s.state.world
    = .ok found) (hassign : found.value.assign s.sourceVault = (true, v))

include hf hsource hassign

/-- On the server an eraser is turned down by its filter. -/
theorem serverItem_erased (he : t.sourceType = .Eraser) :
    H2ServerProvision.processItem env req t s
      = .turnedDown ⟨H2ServerProvision.ServerState.withVars s.state found.vars, v⟩ := by
  have her : H2ServerProvision.eraser t = true := by
    rw [H2ServerProvision.eraser, he]
    rfl
  simp only [H2ServerProvision.processItem, hsource, hassign, if_true]
  rw [H2ServerProvision.filterStage, if_pos hf, if_pos her]

include ht in
/-- Any other item goes on with zero. -/
theorem serverItem_zeroed (he : t.sourceType ≠ .Eraser) (hno : NoNumber env.lib t v) :
    H2ServerProvision.processItem env req t s
      = H2ServerProvision.targetStage env t
          (H2ServerProvision.ServerState.withVars s.state found.vars) [] (zeroed t v) := by
  have her : ¬ H2ServerProvision.eraser t = true := by
    rw [H2ServerProvision.eraser, beq_iff_eq]
    exact he
  have hstage := (processFilters_number env
    (H2ServerProvision.ServerState.withVars s.state found.vars).world.vars
    (H2ServerProvision.ServerState.withVars s.state found.vars).world.vault ht v).1
  simp only [H2ServerProvision.processItem, hsource, hassign, if_true]
  rw [H2ServerProvision.filterStage, if_pos hf, if_neg her, hstage, applied_zeroed env ht hno]
  rfl

end Server

section Client

variable {req : ClientRequest} {seen : ClientState → H2ClientProvision.SeenRequest}
  {s : H2ClientProvision.ClientRun}
  (hsource : AdminClientProvision.sourceValue env req (seen s.state).requestUri
    (seen s.state).requestHeaders (seen s.state).requestBodyJson t s.state.world = .ok found)
  (hassign : found.value.assign s.sourceVault = (true, v))

include hf hsource hassign

/-- The same on the client. -/
theorem clientItem_erased (he : t.sourceType = .Eraser) :
    H2ClientProvision.processItem env req seen t s
      = .turnedDown ⟨{ s.state with world := { s.state.world with vars := found.vars } }, v⟩ := by
  simp only [H2ClientProvision.processItem, hsource, hassign, hf, he]
  rfl

include ht in
theorem clientItem_zeroed (he : t.sourceType ≠ .Eraser) (hno : NoNumber env.lib t v) :
    H2ClientProvision.processItem env req seen t s
      = H2ClientProvision.targetStage env t
          { s.state with world := { s.state.world with vars := found.vars } } [] (zeroed t v) := by
  have her : (t.sourceType == SourceType.Eraser) = false := by
    rw [beq_eq_false_iff_ne]
    exact he
  simp only [H2ClientProvision.processItem, hsource, hassign, hf, her, Bool.not_true,
    Bool.false_eq_true, if_false, if_true]
  rw [(processFilters_number env found.vars s.state.world.vault ht v).2]
  simp only [if_true, applied_zeroed env ht hno]

end Client

end NumberItem

/-- **NO NUMBER IS NO FAILURE**: an item with `Sum` or `Multiply` on a value without
    numeric conversion is turned down, with the state as its source left it, only
    when its source is the eraser, which gives no value.  Any other item goes on to
    its target with zero, on the server and on the client. -/
theorem number_filter_skips_iff (env : Env) {t : Transformation} {op : Operation}
    {amount : Json} (ht : HasAmount t op amount) (hf : t.hasFilter = true) :
    (∀ (req : ServerRequest) (s : H2ServerProvision.ServerRun) (found : Sourced)
        (v : TypeConverter),
      AdminServerProvision.sourceValue env req s.state.responseBody.json t s.state.world
        = .ok found →
      found.value.assign s.sourceVault = (true, v) → NoNumber env.lib t v →
      ((∃ v', H2ServerProvision.processItem env req t s
          = .turnedDown ⟨H2ServerProvision.ServerState.withVars s.state found.vars, v'⟩)
        ↔ t.sourceType = .Eraser)
      ∧ (t.sourceType ≠ .Eraser →
        H2ServerProvision.processItem env req t s
          = H2ServerProvision.targetStage env t
              (H2ServerProvision.ServerState.withVars s.state found.vars) [] (zeroed t v)))
    ∧ (∀ (req : ClientRequest) (seen : ClientState → H2ClientProvision.SeenRequest)
        (s : H2ClientProvision.ClientRun) (found : Sourced) (v : TypeConverter),
      AdminClientProvision.sourceValue env req (seen s.state).requestUri
        (seen s.state).requestHeaders (seen s.state).requestBodyJson t s.state.world
        = .ok found →
      found.value.assign s.sourceVault = (true, v) → NoNumber env.lib t v →
      ((∃ v', H2ClientProvision.processItem env req seen t s
          = .turnedDown ⟨{ s.state with world := { s.state.world with vars := found.vars } }, v'⟩)
        ↔ t.sourceType = .Eraser)
      ∧ (t.sourceType ≠ .Eraser →
        H2ClientProvision.processItem env req seen t s
          = H2ClientProvision.targetStage env t
              { s.state with world := { s.state.world with vars := found.vars } } []
              (zeroed t v))) := by
  constructor
  · intro req s found v hsource hassign hno
    by_cases he : t.sourceType = .Eraser
    · have hitem := serverItem_erased hf hsource hassign he
      exact ⟨⟨fun _ => he, fun _ => ⟨v, hitem⟩⟩, fun hne => (hne he).elim⟩
    · have hitem := serverItem_zeroed ht hf hsource hassign he hno
      refine ⟨⟨?_, fun h => (he h).elim⟩, fun _ => hitem⟩
      rintro ⟨v', hv'⟩
      cases hitem.symm.trans hv'
  · intro req seen s found v hsource hassign hno
    by_cases he : t.sourceType = .Eraser
    · have hitem := clientItem_erased hf hsource hassign he
      exact ⟨⟨fun _ => he, fun _ => ⟨v, hitem⟩⟩, fun hne => (hne he).elim⟩
    · have hitem := clientItem_zeroed ht hf hsource hassign he hno
      refine ⟨⟨?_, fun h => (he h).elim⟩, fun _ => hitem⟩
      rintro ⟨v', hv'⟩
      rw [hitem, H2ClientProvision.targetStage] at hv'
      split at hv'
      · cases hv'
      · cases hv'

/-- A document that adds 3 to the value `abc`. -/
def abcDocument : Json :=
  .obj [("filter", .obj [("Sum", .uint 3)]), ("source", .str "value.abc"),
    ("target", .str "var.v")]

/-- The item it loads to. -/
def abcItem : Transformation :=
  assemble (some (loadAmount .Sum (.uint 3))) { sourceType := .Value, source := "abc" }
    { targetType := .TVar, target := "v" }

theorem load_abcDocument :
    load idleLib (fun _ => true) abcDocument = .ok (some (abcItem, .nil)) := by
  have hsource : loadSource idleLib "value.abc"
      = .ok (some { sourceType := .Value, source := "abc" }) := by rfl
  have htarget : loadTarget idleLib "var.v" = .ok (some { targetType := .TVar, target := "v" }) := by
    rfl
  exact load_of_parts rfl rfl rfl hsource htarget rfl

/-- A run whose variable `v` holds 7. -/
def sevenRun : H2ServerProvision.ServerRun :=
  ⟨{ H2ServerProvision.blankState with
      world := { World.blank with vars := (∅ : TextMap String).insert "v" "7" } },
    TypeConverter.fresh⟩

theorem abc_noNumber (lib : Lib) (v : TypeConverter) : NoNumber lib abcItem (v.setString "abc") :=
  .text "abc" rfl (show stoull "abc" = none by decide)

/-- The item is not turned down: its target gets zero. -/
theorem abc_goes_on :
    H2ServerProvision.processItem idleEnv H2ServerProvision.plainRequest abcItem sevenRun
      = H2ServerProvision.targetStage idleEnv abcItem
          (H2ServerProvision.ServerState.withVars sevenRun.state sevenRun.state.world.vars) []
          (zeroed abcItem (TypeConverter.fresh.setString "abc")) := by
  have ht : HasAmount abcItem .Sum (.uint 3) := hasAmount_of_load load_abcDocument rfl
  have h := (number_filter_skips_iff idleEnv ht rfl).1 H2ServerProvision.plainRequest sevenRun
    ⟨.string "abc", sevenRun.state.world.vars⟩ (TypeConverter.fresh.setString "abc") rfl rfl
    (abc_noNumber idleLib TypeConverter.fresh)
  exact h.2 (by decide)

/-- The value `abc` plus 3, loaded from its document, makes a variable that held 7
    hold 0, and the item counts as carried out. -/
theorem abc_plus_three_is_zero :
    load idleLib (fun _ => true) abcDocument = .ok (some (abcItem, .nil))
      ∧ NoNumber idleEnv.lib abcItem (TypeConverter.fresh.setString "abc")
      ∧ sevenRun.state.world.vars.lookup "v" = some "7"
      ∧ ∃ run, H2ServerProvision.processItem idleEnv H2ServerProvision.plainRequest abcItem sevenRun
          = .done true run
        ∧ run.state.world.vars.lookup "v" = some "0" :=
  ⟨load_abcDocument, abc_noNumber idleLib TypeConverter.fresh, by decide, _, rfl, by decide⟩

/-! ## All items skipped -/

section AllSkipped

open H2ServerProvision

/-- Every item of the list is skipped: its source fails, or its filter does and it
    has no fallback list. -/
def Skipped (env : Env) (req : ServerRequest) : Transformations → ServerRun → Prop
  | .nil, _ => True
  | .cons t onFail rest, s =>
      (∃ s', processItem env req t s = .skip s' ∧ Skipped env req rest s')
        ∨ (onFail = .nil
          ∧ ∃ s', processItem env req t s = .turnedDown s' ∧ Skipped env req rest s')

/-- The request is let in, and every item of the provision is skipped on it. -/
def EverySkipped (env : Env) (p : AdminServerProvision) (r : Reception) (w : World) : Prop :=
  p.accepts env r = true ∧ Skipped env (p.request env r) p.transformations (p.start w)

/-- The provision without a transform list. -/
def withoutList (p : AdminServerProvision) : AdminServerProvision :=
  { p with transformations := .nil }

/-- Two responses with the same status code, headers, body, delay and state. -/
structure SameResponse (a b : ServerState) : Prop where
  statusCode : a.responseStatusCode = b.responseStatusCode
  headers : a.responseHeaders = b.responseHeaders
  body : a.responseBody.text = b.responseBody.text
  delay : a.responseDelayMs = b.responseDelayMs
  outState : a.outState = b.outState

/-- Past the source only the filter can turn the item down, and the state stays. -/
theorem filterStage_skipped {env : Env} {t : Transformation} {state : ServerState}
    {v : TypeConverter} {s' : ServerRun}
    (h : filterStage env t state v = .skip s' ∨ filterStage env t state v = .turnedDown s') :
    s'.state = state := by
  unfold filterStage targetStage at h
  split at h
  · split at h
    · rcases h with h | h
      · cases h
      · cases h
        rfl
    · split at h
      · rcases h with h | h <;> cases h
      · split at h
        · rcases h with h | h <;> cases h
        · rcases h with h | h
          · cases h
          · cases h
            rfl
  · rcases h with h | h <;> cases h

/-- **STEP LEMMA**: of a skipped item the variables its source left are all that can
    be seen of it in the state. -/
theorem skipped_state {env : Env} {req : ServerRequest} {t : Transformation} {s s' : ServerRun}
    (h : processItem env req t s = .skip s' ∨ processItem env req t s = .turnedDown s') :
    ∃ vars v, s' = ⟨ServerState.withVars s.state vars, v⟩ := by
  unfold processItem at h
  cases hs : H2Source.AdminServerProvision.sourceValue env req s.state.responseBody.json t
      s.state.world with
  | error e =>
      rw [hs] at h
      rcases h with h | h <;> cases h
  | ok found =>
      rw [hs] at h
      dsimp only at h
      split at h
      · have hstate := filterStage_skipped h
        exact ⟨found.vars, s'.sourceVault, by rw [← hstate]⟩
      · rcases h with h | h
        · cases h
          exact ⟨_, _, rfl⟩
        · cases h

/-- **RUN LEMMA**: a list of skipped items leaves the state but for variables. -/
theorem run_skipped {env : Env} {req : ServerRequest} (l : Transformations) (s : ServerRun)
    (hstop : s.stop = false) (h : Skipped env req l s) :
    ∃ vars v, runMain ServerRun.stop id (processItem env req) l s
      = .ok ⟨ServerState.withVars s.state vars, v⟩ := by
  induction l generalizing s with
  | nil => exact ⟨s.state.world.vars, s.sourceVault, rfl⟩
  | cons t onFail rest _ ih =>
      have hpass : ∃ s', (∃ vars v, s' = ⟨ServerState.withVars s.state vars, v⟩)
          ∧ Skipped env req rest s'
          ∧ runMain ServerRun.stop id (processItem env req) (.cons t onFail rest) s
            = runMain ServerRun.stop id (processItem env req) rest s' := by
        rcases h with ⟨s', hs', hrest⟩ | ⟨rfl, s', hs', hrest⟩
        · refine ⟨s', skipped_state (.inl hs'), hrest, ?_⟩
          rw [runMain, if_neg (by rw [hstop]; exact Bool.false_ne_true), id, hs']
        · refine ⟨s', skipped_state (.inr hs'), hrest, ?_⟩
          rw [runMain, if_neg (by rw [hstop]; exact Bool.false_ne_true), id, hs']
          rfl
      obtain ⟨s', ⟨vars, v, rfl⟩, hrest, hrun⟩ := hpass
      rw [hrun]
      exact ih _ hstop hrest

/-! ### The bodies -/

/-- Whether the request is let in does not depend on the items. -/
theorem accepts_withoutList (env : Env) (p : AdminServerProvision) (r : Reception) :
    (withoutList p).accepts env r = p.accepts env r := by
  have hschema : (withoutList p).requestSchema = p.requestSchema := rfl
  simp only [AdminServerProvision.accepts, hschema]
  cases hs : p.requestSchema with
  | none => rfl
  | some schema =>
      -- with a schema the body is decoded in any case
      have hdecode : ∀ q : AdminServerProvision, q.requestSchema = some schema →
          q.dataPart env r = r.bodyDataPart.decode env.lib r.headers := by
        intro q hq
        have hmust : q.mustDecode r = true := by
          rw [AdminServerProvision.mustDecode, hq, Option.isSome_some, Bool.true_or]
        rw [AdminServerProvision.dataPart, if_pos hmust]
      simp only [hdecode p hs, hdecode (withoutList p) hs]

/-- The final text does not touch the JSON. -/
theorem finalBody_json (env : Env) (p : AdminServerProvision) (b : Body) :
    (p.finalBody env b).json = b.json := by
  unfold AdminServerProvision.finalBody
  split
  · rfl
  · rfl

/-- What a provision answers when nothing changes its state but for variables. -/
theorem transform_untouched {env : Env} {p : AdminServerProvision} {r : Reception} {w : World}
    {vars : TextMap String} {v : TypeConverter} (haccepts : p.accepts env r = true)
    (hrun : p.runItems env r w = .ok ⟨ServerState.withVars (p.initialState w p.initialBody) vars, v⟩) :
    ∃ out, p.transform env r w = .ok out
      ∧ out.responseStatusCode
        = (if (p.responseSchema.bind (fun schema => env.lib.validate schema p.responseBody)).isNone
            then p.responseCode else 500)
      ∧ out.responseHeaders = p.responseHeaders ∧ out.responseDelayMs = p.responseDelayMs
      ∧ out.outState = p.outState
      ∧ out.responseBody.text = (p.finalBody env p.initialBody).text := by
  refine ⟨_, by rw [AdminServerProvision.transform, if_pos haccepts, hrun], ?_⟩
  have hjson : (if p.usesJson then (p.finalBody env p.initialBody).json else p.responseBody)
      = p.responseBody := by
    by_cases hj : p.usesJson = true
    · rw [if_pos hj, finalBody_json, AdminServerProvision.initialBody, if_pos hj]
    · rw [if_neg hj]
  simp only [AdminServerProvision.finish, ServerState.withVars, AdminServerProvision.initialState,
    hjson]
  cases p.responseSchema with
  | none => exact ⟨rfl, rfl, rfl, rfl, rfl⟩
  | some schema =>
      simp only [Option.bind_some]
      split
      · exact ⟨rfl, rfl, rfl, rfl, rfl⟩
      · exact ⟨rfl, rfl, rfl, rfl, rfl⟩

/-- A body `load` keeps as JSON, and that is not empty, has its dump as text. -/
theorem dump_of_responseBody {lib : Lib} {j body : Json} {text : String}
    (h : responseBodyOf lib j = .ok (body, text)) (hbody : body.empty = false) :
    lib.dump body = some text := by
  have hnull : ∀ s : String, (Except.ok (Json.null, s) : Except Fault _) ≠ .ok (body, text) := by
    intro s heq
    cases heq
    cases hbody
  unfold responseBodyOf at h
  split at h
  · exact (hnull _ h).elim
  · split at h
    · split at h
      · next hd =>
          cases h
          exact hd
      · cases h
    · split at h
      · next hd =>
          cases h
          exact hd
      · cases h
    all_goals exact (hnull _ h).elim

/-- The text sent of the body nothing touched is the provisioned one, unless it was
    prepared as JSON and is empty there, but not as a text. -/
theorem untouched_text_iff {env : Env} {j : Json} {p : AdminServerProvision}
    (hbody : responseBodyOf env.lib j = .ok (p.responseBody, p.responseBodyAsString)) :
    (p.finalBody env p.initialBody).text = p.responseBodyAsString
      ↔ p.usesJson = false ∨ p.responseBody.empty = false ∨ p.responseBodyAsString = "" := by
  by_cases hj : p.usesJson = true
  · rw [AdminServerProvision.finalBody, AdminServerProvision.initialBody, if_pos hj]
    by_cases he : p.responseBody.empty = true
    · rw [if_neg (by simp [he])]
      constructor
      · intro h
        exact .inr (.inr h.symm)
      · rintro (h | h | h)
        · rw [hj] at h
          cases h
        · rw [he] at h
          cases h
        · exact h.symm
    · have hne : p.responseBody.empty = false := Bool.eq_false_iff.mpr he
      rw [if_pos (by simp [hj, hne]), dump_of_responseBody hbody hne]
      exact ⟨fun _ => .inr (.inl hne), fun _ => rfl⟩
  · have hnot : p.usesJson = false := Bool.eq_false_iff.mpr hj
    rw [AdminServerProvision.finalBody, AdminServerProvision.initialBody, hnot]
    exact ⟨fun _ => .inl rfl, fun _ => rfl⟩

/-- The body `load` leaves in a provision. -/
theorem loadProvision_body {lib : Lib} {compiles : String → Bool}
    {schemaOf : String → Option Json} {regexMatchingConfigured : Bool} {j : Json} {q : Provisioned}
    (h : loadProvision lib compiles schemaOf regexMatchingConfigured j = .ok (some q)) :
    responseBodyOf lib j = .ok (q.provision.responseBody, q.provision.responseBodyAsString) := by
  unfold loadProvision at h
  obtain ⟨requestMethod, _, h⟩ := bind_ok h
  obtain ⟨responseCode, _, h⟩ := bind_ok h
  dsimp only at h
  split at h
  · cases h
  · obtain ⟨responseHeaders, _, h⟩ := bind_ok h
    obtain ⟨⟨responseBody, responseBodyAsString⟩, hbody, h⟩ := bind_ok h
    obtain ⟨responseDelayMs, _, h⟩ := bind_ok h
    obtain ⟨transformations, _, h⟩ := bind_ok h
    dsimp only at h
    split at h
    · split at h
      · obtain rfl := Option.some.inj (Except.ok.inj h)
        exact hbody
      · cases h
    · obtain rfl := Option.some.inj (Except.ok.inj h)
      exact hbody

/-- **SKIPPING AND THE BODY**: for every provision as `load` leaves it, with a
    response body of any kind or none, and every request on which all its items are
    skipped, the response is that of the provision without a transform list if and
    only if no item of the outermost list builds the body as JSON, or the body is an
    object or array with something in it, or its text is empty. -/
theorem all_skipped_same_iff (env : Env) (r : Reception) (w : World)
    {compiles : String → Bool} {schemaOf : String → Option Json} {regexMatchingConfigured : Bool}
    {j : Json} {q : Provisioned}
    (hload : loadProvision env.lib compiles schemaOf regexMatchingConfigured j = .ok (some q))
    (hskip : EverySkipped env q.provision r w) :
    (∃ a b, q.provision.transform env r w = .ok a
        ∧ (withoutList q.provision).transform env r w = .ok b ∧ SameResponse a b)
      ↔ q.provision.usesJson = false ∨ q.provision.responseBody.empty = false
        ∨ q.provision.responseBodyAsString = "" := by
  obtain ⟨haccepts, hitems⟩ := hskip
  obtain ⟨vars, v, hrun⟩ := run_skipped _ _ rfl hitems
  obtain ⟨a, ha, hcode, hheaders, hdelay, hstate, htext⟩ := transform_untouched haccepts hrun
  have hplain : (withoutList q.provision).accepts env r = true :=
    (accepts_withoutList env q.provision r).trans haccepts
  have hnone : (withoutList q.provision).runItems env r w
      = .ok ⟨ServerState.withVars ((withoutList q.provision).initialState w
          (withoutList q.provision).initialBody) w.vars, TypeConverter.fresh⟩ := rfl
  obtain ⟨b, hb, hcode', hheaders', hdelay', hstate', htext'⟩ := transform_untouched hplain hnone
  have hprovisioned : b.responseBody.text = q.provision.responseBodyAsString := htext'
  rw [← untouched_text_iff (loadProvision_body hload), ← htext, ← hprovisioned]
  constructor
  · rintro ⟨a', b', ha', hb', hsame⟩
    have haa : a = a' := Except.ok.inj (ha.symm.trans ha')
    have hbb : b = b' := Except.ok.inj (hb.symm.trans hb')
    rw [haa, hbb]
    exact hsame.body
  · intro hbody
    exact ⟨a, b, ha, hb, hcode.trans hcode'.symm, hheaders.trans hheaders'.symm, hbody,
      hdelay.trans hdelay'.symm, hstate.trans hstate'.symm⟩

/-- A document whose only item reads a variable that is not there. -/
def missingDocument (body : String) : Json :=
  .obj [("requestMethod", .str "GET"), ("requestUri", .str "/a"), ("responseBody", .str body),
    ("responseCode", .uint 200),
    ("transform", .arr [.obj [("source", .str "var.missing"),
      ("target", .str "response.body.json.string./x")]])]

/-- The provision it loads to. -/
def missingProvision (body : String) : Provisioned where
  requestMethod := "GET"
  requestUri := "/a"
  provision := {
    responseCode := 200
    responseBodyAsString := body
    transformations := .cons (assemble none { sourceType := .SVar, source := "missing" }
      { targetType := .ResponseBodyJson_String, target := "/x" }) .nil .nil }

theorem load_missingDocument (body : String) :
    loadProvision idleEnv.lib (fun _ => true) (fun _ => none) false (missingDocument body)
      = .ok (some (missingProvision body)) := by
  have hsource : loadSource idleEnv.lib "var.missing"
      = .ok (some { sourceType := .SVar, source := "missing" }) := by rfl
  have htarget : loadTarget idleEnv.lib "response.body.json.string./x"
      = .ok (some { targetType := .ResponseBodyJson_String, target := "/x" }) := by rfl
  have hitem : load idleEnv.lib (fun _ => true) (.obj [("source", .str "var.missing"),
        ("target", .str "response.body.json.string./x")])
      = .ok (some (assemble none _ _, .nil)) :=
    load_of_parts rfl rfl rfl hsource htarget rfl
  have hitems : transformationsOf idleEnv.lib (fun _ => true) (missingDocument body)
      = .ok (missingProvision body).provision.transformations := by
    show loadTransformations idleEnv.lib _ [_] = _
    simp only [loadTransformations, hitem, ok_bind]
    rfl
  simp only [loadProvision, hitems]
  rfl

/-- A request without body or parameters. -/
def plainReception : Reception := ⟨"/a", "/a", ∅, { str := "" }, [], 1⟩

theorem missing_everySkipped (body : String) :
    EverySkipped idleEnv (missingProvision body).provision plainReception World.blank :=
  ⟨rfl, .inl ⟨_, rfl, trivial⟩⟩

/-- A body whose text is empty is sent as it was. -/
theorem missing_keeps_empty_body :
    ∃ a b, (missingProvision "").provision.transform idleEnv plainReception World.blank = .ok a
      ∧ (withoutList (missingProvision "").provision).transform idleEnv plainReception World.blank
        = .ok b
      ∧ SameResponse a b :=
  (all_skipped_same_iff idleEnv plainReception World.blank (load_missingDocument "")
    (missing_everySkipped "")).mpr (.inr (.inr rfl))

/-- The body `hello` is lost though the only item is skipped: an empty body is sent. -/
theorem missing_loses_hello :
    loadProvision idleEnv.lib (fun _ => true) (fun _ => none) false (missingDocument "hello")
        = .ok (some (missingProvision "hello"))
      ∧ EverySkipped idleEnv (missingProvision "hello").provision plainReception World.blank
      ∧ ∃ a b, (missingProvision "hello").provision.transform idleEnv plainReception World.blank
          = .ok a
        ∧ (withoutList (missingProvision "hello").provision).transform idleEnv plainReception
            World.blank = .ok b
        ∧ a.responseBody.text = "" ∧ b.responseBody.text = "hello" ∧ ¬ SameResponse a b := by
  refine ⟨load_missingDocument "hello", missing_everySkipped "hello", _, _, rfl, rfl, rfl, rfl, ?_⟩
  intro h
  exact absurd h.body (by decide)

end AllSkipped

/-! ## Texts that are no hexadecimal strings -/

/-- The pairs before the first one that is not made of digits. -/
def leadingPairs (cs : List Char) : List (Char × Char) :=
  (pairsOf cs).takeWhile (fun p => isXDigit p.1 && isXDigit p.2)

/-- The bytes of the digits before the first character that is none. -/
def leadingBytes (text : String) : String :=
  String.ofList ((leadingPairs (bodyOf text.toList)).map appended)

/-- The loop leaves the bytes of the leading pairs, whether it ends well or not. -/
theorem fromHexLoop_bytes (cs acc : List Char) :
    (fromHexLoop cs acc).2 = acc.reverse ++ (leadingPairs cs).map appended := by
  -- two characters at a time, as the loop and `pairsOf` take them
  induction cs using pairsOf.induct generalizing acc with
  | case1 hi lo rest ih =>
      rw [fromHexLoop, leadingPairs, pairsOf]
      by_cases hhi : isXDigit hi = true
      · by_cases hlo : isXDigit lo = true
        · rw [List.takeWhile_cons_of_pos (by simp [hhi, hlo]), hhi, hlo]
          simp only [Bool.not_true, Bool.false_eq_true, if_false]
          rw [ih, List.reverse_cons, List.append_assoc, List.map_cons]
          rfl
        · rw [List.takeWhile_cons_of_neg (by simp [hlo])]
          simp [hhi, hlo]
      · rw [List.takeWhile_cons_of_neg (by simp [hhi])]
        simp [hhi]
  | case2 cs hshort =>
      rcases cs with _ | ⟨a, _ | ⟨b, rest⟩⟩
      · simp [fromHexLoop, leadingPairs, pairsOf]
      · simp [fromHexLoop, leadingPairs, pairsOf]
      · exact absurd rfl (hshort a b rest)

/-- An even beginning of a text that is not made of digits has the leading pairs of the text. -/
theorem leadingPairs_append {a b : List Char} (heven : a.length % 2 = 0)
    (hbad : ∃ c ∈ a, c ∉ H2Hex.digits) : leadingPairs (a ++ b) = leadingPairs a := by
  -- a pair that is made of digits leaves the bad character to the rest
  induction a using pairsOf.induct with
  | case1 hi lo rest ih =>
      rw [List.cons_append, List.cons_append, leadingPairs, leadingPairs, pairsOf, pairsOf]
      rw [List.takeWhile_cons, List.takeWhile_cons]
      by_cases hpair : (isXDigit hi && isXDigit lo) = true
      · rw [if_pos hpair, if_pos hpair]
        rw [Bool.and_eq_true, isXDigit_iff, isXDigit_iff] at hpair
        obtain ⟨c, hc, hnot⟩ := hbad
        have hrest : ∃ c ∈ rest, c ∉ H2Hex.digits := by
          rcases List.mem_cons.mp hc with rfl | hc
          · exact absurd hpair.1 hnot
          · rcases List.mem_cons.mp hc with rfl | hc
            · exact absurd hpair.2 hnot
            · exact ⟨c, hc, hnot⟩
        simp only [List.length_cons] at heven
        exact congrArg ((hi, lo) :: ·) (ih (by omega) hrest)
      · rw [if_neg hpair, if_neg hpair]
  | case2 a hshort =>
      rcases a with _ | ⟨x, _ | ⟨y, rest⟩⟩
      · obtain ⟨c, hc, -⟩ := hbad
        cases hc
      · simp at heven
      · exact absurd rfl (hshort x y rest)

/-- What `fromHexString` leaves in its output when it refuses a text. -/
theorem fromHexString_output {input output : String}
    (hrefused : (fromHexString input output).1 = false) :
    (fromHexString input output).2
      = if input.length % 2 = 1 then output else leadingBytes input := by
  have hbad := (refused_iff input output).mp hrefused
  rw [fromHexString_eq, ← String.length_toList]
  rw [← String.length_toList] at hbad
  by_cases hodd : input.toList.length % 2 = 1
  · rw [if_pos hodd, if_pos (by omega)]
  · obtain ⟨rest, hrest⟩ := seenOf_start input.toList
    rw [if_neg hodd, if_neg (by omega), leadingBytes, fromHexLoop_bytes, ← hrest,
      leadingPairs_append (seenOf_even (by omega)) (hbad.resolve_left hodd)]
    rfl

/-- The text that is sent of a body: its dump when it was built as JSON and is not
    empty, else its text. -/
def sentText (env : Env) (usesJson : Bool) (b : Body) : String :=
  if usesJson && !b.json.empty then (env.lib.dump b.json).getD b.text else b.text

/-- The response schema decides on the status code only. -/
theorem finish_responseBody (env : Env) (p : H2ServerProvision.AdminServerProvision)
    (s : ServerState) : (p.finish env s).responseBody = p.finalBody env s.responseBody := by
  simp only [H2ServerProvision.AdminServerProvision.finish]
  cases p.responseSchema with
  | none => rfl
  | some schema =>
      dsimp only
      generalize (if p.usesJson = true then (p.finalBody env s.responseBody).json
        else p.responseBody) = document
      split
      · rfl
      · rfl

/-- The text a server sends at the end of its items. -/
theorem server_sends {env : Env} {p : H2ServerProvision.AdminServerProvision}
    {r : H2ServerProvision.Reception} {w : World} {run : H2ServerProvision.ServerRun}
    (haccepts : p.accepts env r = true) (hrun : p.runItems env r w = .ok run) :
    ∃ out, p.transform env r w = .ok out
      ∧ out.responseBody.text = sentText env p.usesJson run.state.responseBody := by
  refine ⟨_, by
    rw [H2ServerProvision.AdminServerProvision.transform, if_pos haccepts, hrun], ?_⟩
  have hfinal : (p.finalBody env run.state.responseBody).text
      = sentText env p.usesJson run.state.responseBody := by
    unfold H2ServerProvision.AdminServerProvision.finalBody sentText
    split
    · rfl
    · rfl
  rw [← hfinal, finish_responseBody]

/-- The text a client sends at the end of its items, when the request meets its
    schema. -/
theorem client_sends {env : Env} {p : H2ClientProvision.AdminClientProvision} {seq : Int}
    {w : World} {run : H2ClientProvision.ClientRun} {out : ClientState}
    (hrun : p.runItems env seq w = .ok run) (htransform : p.transform env seq w = .ok (out, none)) :
    out.requestBody.text = sentText env p.usesJson run.state.requestBody := by
  simp only [H2ClientProvision.AdminClientProvision.transform, hrun] at htransform
  generalize (p.requestSchema.bind fun schema => env.lib.validate schema
    (if p.usesJson = true then run.state.requestBody.json else p.requestBody)) = error at htransform
  unfold sentText
  by_cases hjson : (p.usesJson && !run.state.requestBody.json.empty) = true
  · rw [if_pos hjson]
    rw [Bool.and_assoc, hjson, Bool.and_true] at htransform
    cases error with
    | none =>
        cases htransform
        rfl
    | some report => cases htransform
  · rw [if_neg hjson]
    rw [if_neg (by rw [Bool.and_assoc, Bool.and_eq_true]; exact fun h => hjson h.2)] at htransform
    cases htransform
    rfl

/-- A text the decoder refuses leaves what is sent of a body as it was. -/
def Undamaged (env : Env) (usesJson : Bool) (b : Body) (text : String) : Prop :=
  text.length % 2 = 1 ∨ b.text = leadingBytes text
    ∨ (usesJson = true ∧ b.json.empty = false ∧ (env.lib.dump b.json).isSome = true)

/-- The same body with the output of the decoder as its text. -/
theorem sentText_decoded_iff (env : Env) (usesJson : Bool) {b : Body} {text : String}
    (hrefused : (fromHexString text b.text).1 = false) :
    sentText env usesJson { b with text := (fromHexString text b.text).2 }
        = sentText env usesJson b
      ↔ Undamaged env usesJson b text := by
  have htext : (fromHexString text b.text).2 = b.text
      ↔ text.length % 2 = 1 ∨ b.text = leadingBytes text := by
    rw [fromHexString_output hrefused]
    by_cases hodd : text.length % 2 = 1
    · rw [if_pos hodd]
      exact ⟨fun _ => .inl hodd, fun _ => rfl⟩
    · rw [if_neg hodd]
      exact ⟨fun h => .inr h.symm, fun h => (h.resolve_left hodd).symm⟩
  unfold sentText Undamaged
  rw [← or_assoc, ← htext]
  by_cases hjson : (usesJson && !b.json.empty) = true
  · rw [if_pos hjson, if_pos hjson]
    rw [Bool.and_eq_true, Bool.not_eq_true'] at hjson
    cases env.lib.dump b.json with
    | none =>
        constructor
        · exact .inl
        · rintro (h | ⟨_, _, h⟩)
          · exact h
          · cases h
    | some dumped => exact ⟨fun _ => .inr ⟨hjson.1, hjson.2, rfl⟩, fun _ => rfl⟩
  · rw [if_neg hjson, if_neg hjson]
    constructor
    · exact .inl
    · rintro (h | ⟨h1, h2, _⟩)
      · exact h
      · rw [h1, h2] at hjson
        exact (hjson rfl).elim

/-- A target that decodes into the response body. -/
theorem serverHex_eq {env : Env} {t : Transformation} {inc : Incoming} {s s' : ServerState}
    {text : String} (ht : t.targetType = .ResponseBodyHexString)
    (htext : inc.holder.getString env.lib = .ok text)
    (hrefused : AdminServerProvision.processTargets env t inc s = (false, s')) :
    (fromHexString text s.responseBody.text).1 = false ∧ s'.responseBody
      = { s.responseBody with text := (fromHexString text s.responseBody.text).2 } := by
  unfold AdminServerProvision.processTargets at hrefused
  split at hrefused
  · cases hrefused
  · split at hrefused
    · cases hrefused
    · simp only [serverTarget, ht, responseBodyTarget, H2Target.bodyTarget, htext]
        at hrefused
      exact ⟨(Prod.mk.inj hrefused).1, by rw [← (Prod.mk.inj hrefused).2]⟩

/-- A target that decodes into the request body. -/
theorem clientHex_eq {env : Env} {t : Transformation} {inc : Incoming} {s s' : ClientState}
    {text : String} (ht : t.targetType = .RequestBodyHexString)
    (htext : inc.holder.getString env.lib = .ok text)
    (hrefused : AdminClientProvision.processTargets env t inc s = .ok (false, s')) :
    (fromHexString text s.requestBody.text).1 = false ∧ s'.requestBody
      = { s.requestBody with text := (fromHexString text s.requestBody.text).2 } := by
  unfold AdminClientProvision.processTargets at hrefused
  split at hrefused
  · cases hrefused
  · simp only [clientTarget, ht, requestBodyTarget, H2Target.bodyTarget, htext,
      Except.ok.injEq] at hrefused
    exact ⟨(Prod.mk.inj hrefused).1, by rw [← (Prod.mk.inj hrefused).2]⟩

/-- **REFUSED TEXTS AND THE BODY**: when a target that decodes into the body refuses
    its text, and no later item touches the body, what is sent is the body held
    before the item if and only if the text has an odd length, or the body held just
    the bytes of the digits before the first character that is none, or it is built
    as JSON and dumped at the end.  So it is for a server and for a client. -/
theorem refused_hex_keeps_iff (env : Env) (t : Transformation) (inc : Incoming) (text : String)
    (htext : inc.holder.getString env.lib = .ok text) :
    (∀ (p : H2ServerProvision.AdminServerProvision) (r : H2ServerProvision.Reception) (w : World)
        (s s' : ServerState) (run : H2ServerProvision.ServerRun),
      t.targetType = .ResponseBodyHexString →
      AdminServerProvision.processTargets env t inc s = (false, s') →
      p.accepts env r = true → p.runItems env r w = .ok run →
      run.state.responseBody = s'.responseBody →
      ∃ out, p.transform env r w = .ok out
        ∧ (out.responseBody.text = sentText env p.usesJson s.responseBody
          ↔ Undamaged env p.usesJson s.responseBody text))
    ∧ (∀ (p : H2ClientProvision.AdminClientProvision) (seq : Int) (w : World)
        (s s' : ClientState) (run : H2ClientProvision.ClientRun) (out : ClientState),
      t.targetType = .RequestBodyHexString →
      AdminClientProvision.processTargets env t inc s = .ok (false, s') →
      p.runItems env seq w = .ok run → run.state.requestBody = s'.requestBody →
      p.transform env seq w = .ok (out, none) →
      (out.requestBody.text = sentText env p.usesJson s.requestBody
        ↔ Undamaged env p.usesJson s.requestBody text)) := by
  constructor
  · intro p r w s s' run ht hrefused haccepts hrun hbody
    obtain ⟨out, hout, hsent⟩ := server_sends haccepts hrun
    obtain ⟨hfalse, hleft⟩ := serverHex_eq ht htext hrefused
    refine ⟨out, hout, ?_⟩
    rw [hsent, hbody, hleft]
    exact sentText_decoded_iff env p.usesJson hfalse
  · intro p seq w s s' run out ht hrefused hrun hbody htransform
    obtain ⟨hfalse, hleft⟩ := clientHex_eq ht htext hrefused
    rw [client_sends hrun htransform, hbody, hleft]
    exact sentText_decoded_iff env p.usesJson hfalse

/-- An item that decodes a text into the response body. -/
def hexItem (text : String) : Transformation :=
  { sourceType := .Value, source := text, targetType := .ResponseBodyHexString }

/-- A provision with a body and that item. -/
def hexProvision (text : String) : H2ServerProvision.AdminServerProvision :=
  { responseCode := 200, responseBodyAsString := "hello",
    transformations := .cons (hexItem text) .nil .nil }

/-- The state before and after the item. -/
def hexBefore (text : String) : ServerState :=
  (hexProvision text).initialState World.blank (hexProvision text).initialBody

def hexAfter (text body : String) : ServerState :=
  { hexBefore text with responseBody := ⟨.null, body⟩ }

def hexIncoming (text : String) : Incoming := ⟨TypeConverter.fresh.setString text, false, []⟩

/-- A text of odd length is refused before anything is written. -/
theorem odd_hex_keeps_hello :
    ∃ out, (hexProvision "41z").transform idleEnv plainReception World.blank = .ok out
      ∧ out.responseBody.text = "hello" := by
  have hrefused : AdminServerProvision.processTargets idleEnv (hexItem "41z") (hexIncoming "41z")
      (hexBefore "41z") = (false, hexAfter "41z" "hello") := rfl
  obtain ⟨out, hout, hiff⟩ := (refused_hex_keeps_iff idleEnv (hexItem "41z") (hexIncoming "41z")
    "41z" rfl).1 (hexProvision "41z") plainReception World.blank (hexBefore "41z")
    (hexAfter "41z" "hello") ⟨hexAfter "41z" "hello", TypeConverter.fresh.setString "41z"⟩ rfl
    hrefused rfl rfl rfl
  exact ⟨out, hout, hiff.mpr (.inl (by decide))⟩

/-- Of `41zz` the first byte is written before the text is refused: `A` is sent, and
    not `hello`. -/
theorem even_hex_loses_hello :
    AdminServerProvision.processTargets idleEnv (hexItem "41zz") (hexIncoming "41zz")
        (hexBefore "41zz") = (false, hexAfter "41zz" "A")
      ∧ (hexBefore "41zz").responseBody.text = "hello"
      ∧ ∃ out, (hexProvision "41zz").transform idleEnv plainReception World.blank = .ok out
        ∧ out.responseBody.text = "A" :=
  ⟨rfl, rfl, _, rfl, by decide⟩

end H2Skip
