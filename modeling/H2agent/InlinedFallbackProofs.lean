import H2agent.ServerProvisionProofs

/-! # Fallback lists in the place of their item

    A turned down item runs its `onFilterFail` list, and that list is to do what it
    would do in the place of the item.  Two things stand between the two:

    * what `transform` prepares, whether the body is built as JSON and whether the
      request body is decoded, is decided by a scan of the outermost list, which
      sees the turned down item and not its fallbacks;
    * the turned down item leaves its value in the holder, and a command leaves its
      exit status in the variables.

    `inlined_fallback_same_reply` proves the two runs equal where neither
    matters. -/

namespace H2Inline

open FallbackList H2Convert H2Filter H2Key H2ServerProvision H2Source H2Target
open H2Transformation JsonValue

/-! ## Targets and the body -/

/-- What a target beside the body does to a state is done to the state with
    another body. -/
structure BesideBody (act : ServerState → Bool × ServerState) (s : ServerState) : Prop where
  commutes : ∀ b, act { s with responseBody := b }
    = ((act s).1, { (act s).2 with responseBody := b })
  keeps : (act s).2.responseBody = s.responseBody

/-- What a target on the text of the body does to a state is done to the state with
    another body of the same text. -/
structure OnText (act : ServerState → Bool × ServerState) (s : ServerState) : Prop where
  commutes : ∀ b, b.text = s.responseBody.text → act { s with responseBody := b }
    = ((act s).1, { (act s).2 with
        responseBody := { b with text := (act s).2.responseBody.text } })
  keeps : (act s).2.responseBody.json = s.responseBody.json

/-- The targets on the text of the body. -/
def isTextTarget : TargetType → Bool
  | .ResponseBodyString | .ResponseBodyHexString => true
  | _ => false

section Targets

variable (env : Env) {t : Transformation}

theorem serverTarget_beside (ht : responseBodyTarget t.targetType = none)
    (target target2 : String) (inc : Incoming) (s : ServerState) :
    BesideBody (serverTarget env t target target2 inc) s := by
  constructor
  · intro b
    simp only [serverTarget, ht]
    split
    · split
      · rfl
      · rfl
    · split
      · rfl
      · rfl
    · split
      · rfl
      · rfl
    · split
      · rfl
      · rfl
    · split
      · rfl
      · rfl
    · split
      · rfl
      · rfl
    · rfl
  · simp only [serverTarget, ht]
    split
    · split
      · rfl
      · rfl
    · split
      · rfl
      · rfl
    · split
      · rfl
      · rfl
    · split
      · rfl
      · rfl
    · split
      · rfl
      · rfl
    · split
      · rfl
      · rfl
    · rfl

theorem processTargets_beside (ht : responseBodyTarget t.targetType = none) (inc : Incoming)
    (s : ServerState) :
    BesideBody (H2Target.AdminServerProvision.processTargets env t inc) s := by
  constructor
  · intro b
    simp only [H2Target.AdminServerProvision.processTargets]
    split
    · rfl
    · split
      · rfl
      · exact (serverTarget_beside env ht _ _ inc s).commutes b
  · simp only [H2Target.AdminServerProvision.processTargets]
    split
    · rfl
    · split
      · rfl
      · exact (serverTarget_beside env ht _ _ inc s).keeps

theorem bodyTarget_onText (kind : BodyTarget) (hk : kind = .string ∨ kind = .hexString)
    (target : String) (inc : Incoming) (b b' : Body) (hb : b'.text = b.text) :
    bodyTarget env.lib kind target inc b'
        = ((bodyTarget env.lib kind target inc b).1,
            { b' with text := (bodyTarget env.lib kind target inc b).2.text })
      ∧ (bodyTarget env.lib kind target inc b).2.json = b.json := by
  obtain ⟨json, text⟩ := b
  obtain ⟨json', text'⟩ := b'
  cases hb
  rcases hk with rfl | rfl
  · simp only [bodyTarget]
    split
    · exact ⟨rfl, rfl⟩
    · exact ⟨rfl, rfl⟩
  · simp only [bodyTarget]
    split
    · exact ⟨rfl, rfl⟩
    · exact ⟨rfl, rfl⟩

theorem serverTarget_onText (ht : isTextTarget t.targetType = true) (target target2 : String)
    (inc : Incoming) (s : ServerState) : OnText (serverTarget env t target target2 inc) s := by
  have hkind : ∃ kind, responseBodyTarget t.targetType = some kind
      ∧ (kind = .string ∨ kind = .hexString) := by
    cases hk : t.targetType <;> rw [hk] at ht
    case ResponseBodyString => exact ⟨_, rfl, .inl rfl⟩
    case ResponseBodyHexString => exact ⟨_, rfl, .inr rfl⟩
    all_goals exact nomatch ht
  obtain ⟨kind, hkind, htext⟩ := hkind
  constructor
  · intro b hb
    obtain ⟨hact, _⟩ := bodyTarget_onText env kind htext target inc s.responseBody b hb
    simp only [serverTarget, hkind, hact]
  · simp only [serverTarget, hkind]
    exact (bodyTarget_onText env kind htext target inc s.responseBody _ rfl).2

theorem processTargets_onText (ht : isTextTarget t.targetType = true) (inc : Incoming)
    (s : ServerState) :
    OnText (H2Target.AdminServerProvision.processTargets env t inc) s := by
  have hsame : ∀ b : Body, b.text = s.responseBody.text →
      { b with text := s.responseBody.text } = b := by
    intro b hb
    rw [← hb]
  constructor
  · intro b hb
    simp only [H2Target.AdminServerProvision.processTargets]
    split
    · rw [hsame b hb]
    · split
      · rw [hsame b hb]
      · exact (serverTarget_onText env ht _ _ inc s).commutes b hb
  · simp only [H2Target.AdminServerProvision.processTargets]
    split
    · rfl
    · split
      · rfl
      · exact (serverTarget_onText env ht _ _ inc s).keeps

end Targets

/-! ## Two provisions that differ in their items -/

/-- The provision with another list of items. -/
def withItems (p : AdminServerProvision) (l : Transformations) : AdminServerProvision :=
  { p with transformations := l }

/-- The bodies two provisions build: equal when both are of one kind; else their JSON
    is still what it was at the start, and so is their text, or the JSON has nothing
    in it and the texts are equal. -/
inductive BodyRel (p q : AdminServerProvision) (b b' : Body) : Prop
  | same (hkind : p.usesJson = q.usesJson) (hb : b = b')
  | initial (hb : b = p.initialBody) (hb' : b' = q.initialBody)
  | text (hempty : p.responseBody.empty = true) (hb : b.json = p.initialBody.json)
      (hb' : b'.json = q.initialBody.json) (htext : b.text = b'.text)

/-- States that differ in their bodies at most. -/
structure Alike (p q : AdminServerProvision) (s s' : ServerState) : Prop where
  state : s' = { s with responseBody := s'.responseBody }
  body : BodyRel p q s.responseBody s'.responseBody

/-- The text a body built as JSON ends in when no item touches it. -/
def rendered (env : Env) (p : AdminServerProvision) : String :=
  if p.responseBody.empty then "" else (env.lib.dump p.responseBody).getD ""

/-- The item gets to its target: its source succeeds and its filter lets it pass. -/
def Reaches (env : Env) (req : ServerRequest) (t : Transformation) (s : ServerRun) : Prop :=
  ∃ flag s', processItem env req t s = .done flag s'

/-- Targets that do the same whether the body is built as JSON or as text: those
    beside it, and those on its text where the provisioned JSON has nothing in it. -/
def BodyUnseen (p : AdminServerProvision) (t : Transformation) : Prop :=
  responseBodyTarget t.targetType = none
    ∨ (p.responseBody.empty = true ∧ isTextTarget t.targetType = true)

/-- The request body is decoded by both provisions or by none, or it is no JSON. -/
def PartAlike (env : Env) (p q : AdminServerProvision) (r : Reception) : Prop :=
  p.mustDecode r = q.mustDecode r
    ∨ (r.bodyDataPart.isJson = false
      ∧ (r.bodyDataPart.decode env.lib r.headers).isJson = false)

/-- The items that do not see the difference between two provisions: the request
    body is prepared alike or not read, the response body is built alike or its kind
    not seen. -/
def SeesNoDifference (env : Env) (p q : AdminServerProvision) (r : Reception)
    (t : Transformation) (s : ServerRun) : Prop :=
  (PartAlike env p q r ∨ t.sourceType ≠ .RequestBody)
    ∧ (p.usesJson = q.usesJson ∨ (rendered env p = p.responseBodyAsString
      ∧ (Reaches env (p.request env r) t s → BodyUnseen p t)))

theorem decode_str (lib : Lib) (part : DataPart) (headers : HeaderMap) :
    (part.decode lib headers).str = part.str := by
  simp only [DataPart.decode]
  split
  · rfl
  · split
    · rfl
    · simp only [DataPart.decodeContent]
      split
      · rfl
      · split
        · rfl
        · split
          · split
            · rfl
            · rfl
          · rfl

section Items

variable {p : AdminServerProvision} {l : Transformations} {r : Reception}
  {t : Transformation} {s s' : ServerState} (env : Env)

theorem Alike.world (h : Alike p (withItems p l) s s') : s'.world = s.world := by
  rw [h.state]

theorem initialBody_withItems (hj : p.usesJson = (withItems p l).usesJson) :
    (withItems p l).initialBody = p.initialBody := by
  simp only [AdminServerProvision.initialBody, ← hj]
  rfl

/-- The JSON at the start, as a document, is the provisioned one. -/
theorem initialBody_document (q : AdminServerProvision) :
    (if q.usesJson then q.initialBody.json else q.responseBody) = q.responseBody := by
  cases hu : q.usesJson with
  | false => rfl
  | true => simp only [AdminServerProvision.initialBody, hu, if_true]

/-- The response body as a source is one document. -/
theorem Alike.document (h : Alike p (withItems p l) s s') :
    (if p.usesJson then s.responseBody.json else p.responseBody)
      = (if (withItems p l).usesJson then s'.responseBody.json else p.responseBody) := by
  have hstart := (initialBody_document p).trans (initialBody_document (withItems p l)).symm
  cases h.body with
  | same hj hb => rw [hj, hb]
  | initial hb hb' =>
      rw [hb, hb']
      exact hstart
  | text _ hb hb' _ =>
      rw [hb, hb']
      exact hstart

/-- Provisions of one kind build equal bodies. -/
theorem BodyRel.eq_of_kind {b b' : Body} (h : BodyRel p (withItems p l) b b')
    (hj : p.usesJson = (withItems p l).usesJson) : b = b' := by
  cases h with
  | same _ hb => exact hb
  | initial hb hb' => rw [hb, hb', initialBody_withItems hj]
  | text _ hb hb' htext =>
      obtain ⟨json, text⟩ := b
      obtain ⟨json', text'⟩ := b'
      cases htext
      rw [initialBody_withItems hj] at hb'
      cases hb.trans hb'.symm
      rfl

/-- With bodies of one kind the states are equal. -/
theorem Alike.eq_of_usesJson (h : Alike p (withItems p l) s s')
    (hj : p.usesJson = (withItems p l).usesJson) : s' = s := by
  rw [h.state, ← h.body.eq_of_kind hj]

/-- The texts at the start, where the JSON has nothing in it. -/
theorem BodyRel.texts {b b' : Body} (h : BodyRel p (withItems p l) b b')
    (hj : ¬ p.usesJson = (withItems p l).usesJson) (hempty : p.responseBody.empty = true)
    (hr : rendered env p = p.responseBodyAsString) :
    b.json = p.initialBody.json ∧ b'.json = (withItems p l).initialBody.json
      ∧ b.text = b'.text := by
  have hnothing : p.responseBodyAsString = "" := by
    rw [← hr, rendered, if_pos hempty]
  have hstart : ∀ q : AdminServerProvision, q.responseBodyAsString = "" →
      q.initialBody.text = "" := by
    intro q hq
    simp only [AdminServerProvision.initialBody, hq]
    split
    · rfl
    · rfl
  cases h with
  | same hj' _ => exact (hj hj').elim
  | initial hb hb' =>
      rw [hb, hb', hstart p hnothing, hstart (withItems p l) hnothing]
      exact ⟨rfl, rfl, rfl⟩
  | text _ hb hb' htext => exact ⟨hb, hb', htext⟩

/-- The request body as a source is one value. -/
theorem bodyDataPart_alike (h : PartAlike env p (withItems p l) r) :
    p.dataPart env r = (withItems p l).dataPart env r
      ∨ ((p.dataPart env r).isJson = false ∧ ((withItems p l).dataPart env r).isJson = false
        ∧ (p.dataPart env r).str = ((withItems p l).dataPart env r).str) := by
  rcases h with hd | ⟨hraw, hdecoded⟩
  · exact .inl (by simp only [AdminServerProvision.dataPart, hd])
  · have hpart : ∀ q : AdminServerProvision, (q.dataPart env r).isJson = false
        ∧ (q.dataPart env r).str = r.bodyDataPart.str := by
      intro q
      simp only [AdminServerProvision.dataPart]
      split
      · exact ⟨hdecoded, decode_str env.lib _ _⟩
      · exact ⟨hraw, rfl⟩
    exact .inr ⟨(hpart p).1, (hpart _).1, (hpart p).2.trans (hpart _).2.symm⟩

/-- A source finds the same. -/
theorem sourceValue_alike (h : Alike p (withItems p l) s s')
    (ht : PartAlike env p (withItems p l) r ∨ t.sourceType ≠ .RequestBody) :
    H2Source.AdminServerProvision.sourceValue env (p.request env r) s.responseBody.json t s.world
      = H2Source.AdminServerProvision.sourceValue env ((withItems p l).request env r)
          s'.responseBody.json t s'.world := by
  rw [h.world]
  cases hk : t.sourceType with
  | RequestBody =>
      have hreq : ∀ q : AdminServerProvision, (q.request env r).bodyDataPart = q.dataPart env r :=
        fun _ => rfl
      simp only [H2Source.AdminServerProvision.sourceValue, hk, hreq]
      have hpart := bodyDataPart_alike env (ht.resolve_right (fun hne => hne hk))
      rcases hpart with hpart | ⟨hj, hj', hs⟩
      · rw [hpart]
      · simp only [hj, hj', hs]
        rfl
  | ResponseBody =>
      simp only [H2Source.AdminServerProvision.sourceValue, hk]
      exact congrArg (fun j => expand env s.world t.source t.sourcePatterns >>= fun path =>
        Except.ok (Sourced.mk (.object j path) s.world.vars)) h.document
  | RequestUri | RequestUriPath | RequestUriParam | RequestHeader | RequestHeaders | Eraser
  | Math | Random | RandomSet | Timestamp | Strftime | Recvseq | SVar | SGVar | Value
  | ServerEvent | InState | STxtFile | SBinFile | Command | Sendseq | ClientEvent
  | ResponseHeader | ResponseHeaders | ResponseStatusCode =>
      simp only [H2Source.AdminServerProvision.sourceValue, hk] <;> rfl

/-- A target does the same to states that differ in their bodies. -/
theorem processTargets_alike (h : Alike p (withItems p l) s s')
    (ht : p.usesJson = (withItems p l).usesJson
      ∨ (rendered env p = p.responseBodyAsString ∧ BodyUnseen p t)) (inc : Incoming) :
    (H2Target.AdminServerProvision.processTargets env t inc s').1
        = (H2Target.AdminServerProvision.processTargets env t inc s).1
      ∧ Alike p (withItems p l) (H2Target.AdminServerProvision.processTargets env t inc s).2
          (H2Target.AdminServerProvision.processTargets env t inc s').2 := by
  by_cases hj : p.usesJson = (withItems p l).usesJson
  · rw [h.eq_of_usesJson hj]
    exact ⟨rfl, rfl, .same hj rfl⟩
  · obtain ⟨hr, hunseen⟩ := ht.resolve_left hj
    rcases hunseen with hbeside | ⟨hempty, htext⟩
    · have hact := processTargets_beside env hbeside inc s
      have hact' := hact.commutes s'.responseBody
      rw [← h.state] at hact'
      rw [hact']
      refine ⟨rfl, rfl, ?_⟩
      rw [hact.keeps]
      exact h.body
    · obtain ⟨hb, hb', heq⟩ := h.body.texts env hj hempty hr
      have hact := processTargets_onText env htext inc s
      have hact' := hact.commutes s'.responseBody heq.symm
      rw [← h.state] at hact'
      rw [hact']
      exact ⟨rfl, rfl, .text hempty (hact.keeps.trans hb) hb' rfl⟩

/-- The states alike, and one holder. -/
def AlikeRun (p q : AdminServerProvision) (s s' : ServerRun) : Prop :=
  Alike p q s.state s'.state ∧ s.sourceVault = s'.sourceVault

theorem targetStage_alike (h : Alike p (withItems p l) s s')
    (ht : p.usesJson = (withItems p l).usesJson
      ∨ (rendered env p = p.responseBodyAsString ∧ BodyUnseen p t)) (groups : List String)
    (v : TypeConverter) :
    OutcomeRel (AlikeRun p (withItems p l)) (targetStage env t s groups v)
      (targetStage env t s' groups v) := by
  obtain ⟨hflag, hstate⟩ := processTargets_alike env h ht ⟨v, eraser t, groups⟩
  simp only [targetStage, hflag]
  exact .done _ ⟨hstate, rfl⟩

theorem filterStage_alike (h : Alike p (withItems p l) s s') (v : TypeConverter)
    (ht : (∃ flag x, filterStage env t s v = .done flag x) →
      p.usesJson = (withItems p l).usesJson
        ∨ (rendered env p = p.responseBodyAsString ∧ BodyUnseen p t)) :
    OutcomeRel (AlikeRun p (withItems p l)) (filterStage env t s v) (filterStage env t s' v) := by
  simp only [filterStage] at ht
  simp only [filterStage, h.world]
  split at ht
  · rename_i hf
    rw [if_pos hf, if_pos hf]
    split at ht
    · rename_i he
      rw [if_pos he, if_pos he]
      exact .turnedDown ⟨h, rfl⟩
    · rename_i he
      rw [if_neg he, if_neg he]
      cases hp : H2Filter.AdminServerProvision.processFilters env s.world.vars s.world.vault t v
        with
      | error e => exact .fault e
      | ok f =>
          rw [hp] at ht
          dsimp only at ht ⊢
          split at ht
          · rename_i hpassed
            rw [if_pos hpassed, if_pos hpassed]
            exact targetStage_alike env h (ht ⟨_, _, rfl⟩) _ _
          · rename_i hpassed
            rw [if_neg hpassed, if_neg hpassed]
            exact .turnedDown ⟨h, rfl⟩
  · rename_i hf
    rw [if_neg hf, if_neg hf]
    exact targetStage_alike env h (ht ⟨_, _, rfl⟩) [] v

/-- **THE SAME HOLDER**: an item that sees no difference ends alike from states
    that are alike. -/
theorem processItem_alike {x x' : ServerRun}
    (ht : SeesNoDifference env p (withItems p l) r t x) (h : AlikeRun p (withItems p l) x x') :
    OutcomeRel (AlikeRun p (withItems p l)) (processItem env (p.request env r) t x)
      (processItem env ((withItems p l).request env r) t x') := by
  obtain ⟨hstate, hv⟩ := h
  obtain ⟨hpart, hbody⟩ := ht
  simp only [Reaches, processItem] at hbody
  simp only [processItem, ← sourceValue_alike env hstate hpart, ← hv]
  split
  · exact .fault _
  · rename_i found hfound
    have hvars : Alike p (withItems p l) (ServerState.withVars x.state found.vars)
        (ServerState.withVars x'.state found.vars) := by
      refine ⟨?_, hstate.body⟩
      rw [hstate.state]
      rfl
    rw [hfound] at hbody
    dsimp only at hbody
    split
    · rename_i hok
      rw [if_pos hok] at hbody
      exact filterStage_alike env hvars _
        (fun hdone => hbody.imp_right (fun hb => ⟨hb.1, hb.2 hdone⟩))
    · exact .skip ⟨hvars, rfl⟩

end Items

/-! ## The reply -/

/-- The same status code, headers, body, delay, outgoing state and variables. -/
structure SameReply (s s' : ServerState) : Prop where
  statusCode : s.responseStatusCode = s'.responseStatusCode
  headers : s.responseHeaders = s'.responseHeaders
  body : s.responseBody.text = s'.responseBody.text
  delayMs : s.responseDelayMs = s'.responseDelayMs
  outState : s.outState = s'.outState
  vars : s.world.vars = s'.world.vars

section Reply

variable (env : Env) {p : AdminServerProvision} {l : Transformations} {s s' : ServerState}

theorem finalBody_json (b : Body) : (p.finalBody env b).json = b.json := by
  simp only [AdminServerProvision.finalBody]
  split
  · rfl
  · rfl

/-- An untouched body ends in the text of the provision, or in what its JSON
    renders to. -/
theorem finalBody_initial :
    (p.finalBody env p.initialBody).text
      = if p.usesJson then rendered env p else p.responseBodyAsString := by
  cases hu : p.usesJson with
  | false =>
      simp only [AdminServerProvision.finalBody, AdminServerProvision.initialBody, hu]
      rfl
  | true =>
      simp only [AdminServerProvision.finalBody, AdminServerProvision.initialBody, rendered, hu,
        if_true, Bool.true_and]
      cases he : p.responseBody.empty with
      | false => rfl
      | true => rfl

/-- A body without JSON ends in its text. -/
theorem finalBody_text {b : Body} (hempty : p.responseBody.empty = true)
    (hb : b.json = p.initialBody.json) : (p.finalBody env b).text = b.text := by
  cases hu : p.usesJson with
  | false => simp only [AdminServerProvision.finalBody, hu, Bool.false_and, Bool.false_eq_true,
      if_false]
  | true =>
      have hnothing : b.json.empty = true := by
        rw [hb, AdminServerProvision.initialBody, hu]
        exact hempty
      simp only [AdminServerProvision.finalBody, hu, hnothing, Bool.not_true, Bool.and_false,
        Bool.false_eq_true, if_false]

theorem finalBody_alike (h : Alike p (withItems p l) s s')
    (hb : p.usesJson = (withItems p l).usesJson ∨ rendered env p = p.responseBodyAsString) :
    (p.finalBody env s.responseBody).text
      = ((withItems p l).finalBody env s'.responseBody).text := by
  by_cases hj : p.usesJson = (withItems p l).usesJson
  · rw [h.eq_of_usesJson hj]
    simp only [AdminServerProvision.finalBody, hj]
  · have hr : rendered env p = p.responseBodyAsString := hb.resolve_left hj
    have hall : ∀ q : AdminServerProvision, rendered env q = rendered env p →
        q.responseBodyAsString = p.responseBodyAsString →
        (q.finalBody env q.initialBody).text = p.responseBodyAsString := by
      intro q hq ha
      rw [finalBody_initial, hq, ha, hr]
      split
      · rfl
      · rfl
    cases h.body with
    | same hj' _ => exact (hj hj').elim
    | initial hs hs' => rw [hs, hs', hall p rfl rfl, hall (withItems p l) rfl rfl]
    | text hempty hs hs' htext =>
        rw [finalBody_text env hempty hs, htext]
        exact (finalBody_text env (p := withItems p l) hempty hs').symm

/-- What is done after the items keeps states alike the same to the client. -/
theorem finish_alike (h : Alike p (withItems p l) s s')
    (hb : p.usesJson = (withItems p l).usesJson ∨ rendered env p = p.responseBodyAsString) :
    SameReply (p.finish env s) ((withItems p l).finish env s') := by
  have htext := finalBody_alike env h hb
  have hdoc : (if p.usesJson then (p.finalBody env s.responseBody).json else p.responseBody)
      = (if (withItems p l).usesJson then ((withItems p l).finalBody env s'.responseBody).json
        else (withItems p l).responseBody) := by
    rw [finalBody_json, finalBody_json]
    exact h.document
  obtain ⟨hstate, _⟩ := h
  have hschema : (withItems p l).responseSchema = p.responseSchema := rfl
  simp only [AdminServerProvision.finish, hschema, ← hdoc]
  generalize (if p.usesJson = true then (p.finalBody env s.responseBody).json
    else p.responseBody) = document
  generalize (withItems p l).finalBody env s'.responseBody = b' at htext ⊢
  rw [hstate]
  cases p.responseSchema with
  | none => exact ⟨rfl, rfl, htext, rfl, rfl, rfl⟩
  | some schema =>
      dsimp only
      split
      · exact ⟨rfl, rfl, htext, rfl, rfl, rfl⟩
      · exact ⟨rfl, rfl, htext, rfl, rfl, rfl⟩

end Reply

/-! ## Inlining -/

/-- A turned down item has changed the holder and nothing else, unless it ran a
    command. -/
theorem turnedDown_state {env : Env} {req : ServerRequest} {d : Transformation}
    {s t : ServerRun} (hd : d.sourceType ≠ .Command)
    (h : processItem env req d s = .turnedDown t) : t.state = s.state := by
  have hstage : ∀ state v, filterStage env d state v = .turnedDown t → t.state = state := by
    intro state v hf
    simp only [filterStage] at hf
    split at hf
    · split at hf
      · cases hf
        rfl
      · split at hf
        · cases hf
        · split at hf
          · cases hf
          · cases hf
            rfl
    · cases hf
  simp only [processItem] at h
  cases hs : H2Source.AdminServerProvision.sourceValue env req s.state.responseBody.json d
      s.state.world with
  | error e =>
      rw [hs] at h
      cases h
  | ok found =>
      rw [hs] at h
      have hvars := (sourceValue_spec env req _ d _ found hs).vars hd
      have hsame : ServerState.withVars s.state found.vars = s.state := by
        simp only [ServerState.withVars, hvars]
      dsimp only at h
      rw [hsame] at h
      split at h
      · exact hstage _ _ h
      · cases h

section Inline

variable (env : Env) (p : AdminServerProvision) (r : Reception) (w : World)
  (pre f post : Transformations) (d : Transformation)

/-- The items of the provision with the fallback list of `d` in its place. -/
def inlined : AdminServerProvision := withItems p (pre.append (f.append post))

/-- The run of the provision comes to `d` in the state `s`, its source succeeds and
    its filter fails, leaving `t`, and no item of the run raises the break. -/
structure TurnedDownAt (s t : ServerRun) : Prop where
  items : p.transformations = pre.append (.cons d f post)
  reached : runMain ServerRun.stop id (processItem env (p.request env r)) pre (p.start w) = .ok s
  running : s.stop = false
  turned : processItem env (p.request env r) d s = .turnedDown t
  quiet : NeverRaised ServerRun.stop
    (traceMain ServerRun.stop id (processItem env (p.request env r)) p.transformations (p.start w))

/-- Where the preparation and the leftovers of `d` do not matter: no item but `d` sees
    a difference between the two provisions, no item finds the holder as `d` left it
    and shows it, and none shows the kind `d` gave to its JSON member. -/
structure InliningSafe (s t : ServerRun) : Prop where
  noCommand : d.sourceType ≠ .Command
  body : p.usesJson = (inlined p pre f post).usesJson
    ∨ rendered env p = p.responseBodyAsString
  before : Meets (SeesNoDifference env p (inlined p pre f post) r)
    (traceMain ServerRun.stop id (processItem env (p.request env r)) pre (p.start w))
  after : Meets (SeesNoDifference env p (inlined p pre f post) r)
    (traceMain ServerRun.stop id (processItem env (p.request env r)) (f.append post) t)
  unseen : Meets (fun x y => y.sourceVault = t.sourceVault → LeavesUnseen env x)
    (traceMain ServerRun.stop id (processItem env (p.request env r)) (f.append post) t)
  kind : t.sourceVault.json.clear = s.sourceVault.json.clear
    ∨ Meets (fun x _ => KindUnseen env (p.request env r) x)
      (traceMain ServerRun.stop id (processItem env (p.request env r)) (f.append post) t)

variable {env p r w pre f post d}

/-- The run goes on from the turned down item as the inlined list. -/
theorem runItems_turnedDown {s t : ServerRun} (h : TurnedDownAt env p r w pre f post d s t) :
    p.runItems env r w
      = runMain ServerRun.stop id (processItem env (p.request env r)) (f.append post) t := by
  have hquiet : NeverRaised ServerRun.stop
      (traceMain ServerRun.stop id (processItem env (p.request env r)) (.cons d f post) s) := by
    intro e he
    refine h.quiet e ?_
    rw [h.items, traceMain_append, h.reached]
    exact List.mem_append_right _ he
  simp only [AdminServerProvision.runItems, h.items]
  rw [runMain_append, h.reached]
  exact runMain_inline ServerRun.stop _ d f post h.running h.turned hquiet

/-- States alike, with the holders shown alike or still as the item and the inlined
    run left them. -/
def Follows (p q : AdminServerProvision) (K : Prop) (v₀ w₀ : TypeConverter)
    (x x' : ServerRun) : Prop :=
  Alike p q x.state x'.state
    ∧ (Holders K x.sourceVault x'.sourceVault ∨ (x.sourceVault = v₀ ∧ x'.sourceVault = w₀))

/-- **ANY HOLDER**: an item that sees neither the difference nor the leftovers ends
    alike. -/
theorem processItem_follows {l : Transformations} {t : Transformation} {K : Prop}
    {v₀ w₀ : TypeConverter} {x x' : ServerRun} (hK : K → v₀.json.clear = w₀.json.clear)
    (ht : SeesNoDifference env p (withItems p l) r t x)
    (hkind : K ∨ KindUnseen env (p.request env r) t)
    (hunseen : x.sourceVault = v₀ → LeavesUnseen env t)
    (h : Follows p (withItems p l) K v₀ w₀ x x') :
    OutcomeRel (Follows p (withItems p l) K v₀ w₀) (processItem env (p.request env r) t x)
      (processItem env ((withItems p l).request env r) t x') := by
  obtain ⟨state, v⟩ := x
  obtain ⟨hstate, hholders⟩ := h
  have hfirst := processItem_holders env (p.request env r) t state hK hkind hunseen hholders
  -- then the other provision, from the holder of the other run
  have hmid : SeesNoDifference env p (withItems p l) r t ⟨state, x'.sourceVault⟩ := by
    refine ⟨ht.1, ht.2.imp_right (fun hb => ⟨hb.1, fun hreach => hb.2 ?_⟩)⟩
    obtain ⟨flag, y, hy⟩ := hreach
    rw [hy] at hfirst
    obtain ⟨z, hz⟩ := hfirst.exists_done
    exact ⟨flag, z, hz⟩
  have hother : AlikeRun p (withItems p l) ⟨state, x'.sourceVault⟩ x' := ⟨hstate, rfl⟩
  have hsecond := processItem_alike env hmid hother
  refine hfirst.comp hsecond (fun a b c hab hbc => ?_)
  obtain ⟨hab, hholders'⟩ := hab
  obtain ⟨hbc, hsame⟩ := hbc
  rw [← hab] at hbc
  rw [hsame] at hholders'
  exact ⟨hbc, hholders'⟩

/-- Past the item the inlined run follows, from the holder `d` did not touch. -/
theorem runItems_follow {s s' t : ServerRun} (hok : InliningSafe env p r w pre f post d s t)
    (hturned : processItem env (p.request env r) d s = .turnedDown t)
    (hs : AlikeRun p (inlined p pre f post) s s') :
    ResultRel (Follows p (inlined p pre f post)
        (t.sourceVault.json.clear = s.sourceVault.json.clear) t.sourceVault s'.sourceVault)
      (runMain ServerRun.stop id (processItem env (p.request env r)) (f.append post) t)
      (runMain ServerRun.stop id (processItem env ((inlined p pre f post).request env r))
        (f.append post) s') := by
  have hstart : Alike p (inlined p pre f post) t.state s'.state := by
    rw [turnedDown_state hok.noCommand hturned]
    exact hs.1
  have hstop : ∀ x x', Follows p (inlined p pre f post)
      (t.sourceVault.json.clear = s.sourceVault.json.clear) t.sourceVault s'.sourceVault x x' →
      x.stop = x'.stop := by
    intro x x' hx
    simp only [ServerRun.stop, hx.1.world]
  have hitem : ∀ x y y', (SeesNoDifference env p (inlined p pre f post) r x y
        ∧ (y.sourceVault = t.sourceVault → LeavesUnseen env x)
        ∧ (t.sourceVault.json.clear = s.sourceVault.json.clear
          ∨ KindUnseen env (p.request env r) x)) →
      Follows p (inlined p pre f post) (t.sourceVault.json.clear = s.sourceVault.json.clear)
        t.sourceVault s'.sourceVault y y' →
      OutcomeRel (Follows p (inlined p pre f post)
          (t.sourceVault.json.clear = s.sourceVault.json.clear) t.sourceVault s'.sourceVault)
        (processItem env (p.request env r) x y)
        (processItem env ((inlined p pre f post).request env r) x y') := by
    rintro x y y' ⟨hdiff, hunseen, hkind⟩ hy
    exact processItem_follows (fun hk => hk.trans (by rw [hs.2])) hdiff hkind hunseen hy
  refine runMain_sim hstop hitem (f.append post) (fun e he => ?_) ⟨hstart, .inr ⟨rfl, rfl⟩⟩
  exact ⟨hok.after e he, hok.unseen e he, hok.kind.imp_right (fun hk => hk e he)⟩

/-- The run of the inlined list is alike. -/
theorem runItems_inlined {s t : ServerRun} (h : TurnedDownAt env p r w pre f post d s t)
    (hok : InliningSafe env p r w pre f post d s t) :
    ResultRel (fun x x' : ServerRun => Alike p (inlined p pre f post) x.state x'.state)
      (p.runItems env r w) ((inlined p pre f post).runItems env r w) := by
  have hstop : ∀ x x', AlikeRun p (inlined p pre f post) x x' → x.stop = x'.stop := by
    intro x x' hx
    simp only [ServerRun.stop, hx.1.world]
  have hitem : ∀ x y y', SeesNoDifference env p (inlined p pre f post) r x y →
      AlikeRun p (inlined p pre f post) y y' →
      OutcomeRel (AlikeRun p (inlined p pre f post)) (processItem env (p.request env r) x y)
        (processItem env ((inlined p pre f post).request env r) x y') :=
    fun x y y' hx hy => processItem_alike env hx hy
  -- up to the item both runs have the same holder
  have hstart : AlikeRun p (inlined p pre f post) (p.start w) ((inlined p pre f post).start w) :=
    ⟨⟨rfl, .initial rfl rfl⟩, rfl⟩
  have hbefore : ResultRel (AlikeRun p (inlined p pre f post))
      (runMain ServerRun.stop id (processItem env (p.request env r)) pre (p.start w))
      (runMain ServerRun.stop id (processItem env ((inlined p pre f post).request env r)) pre
        ((inlined p pre f post).start w)) :=
    runMain_sim hstop hitem pre hok.before hstart
  rw [h.reached] at hbefore
  rw [runItems_turnedDown h]
  have hq : (inlined p pre f post).runItems env r w
      = andThen (runMain ServerRun.stop id
            (processItem env ((inlined p pre f post).request env r)) pre
            ((inlined p pre f post).start w))
          (runMain ServerRun.stop id (processItem env ((inlined p pre f post).request env r))
            (f.append post)) :=
    runMain_append _ _ _ pre (f.append post) _
  rw [hq]
  generalize runMain ServerRun.stop id (processItem env ((inlined p pre f post).request env r))
    pre ((inlined p pre f post).start w) = result at hbefore ⊢
  cases hbefore with
  | @ok _ s' hs =>
      -- from the item on the holders differ, until a setter is called
      exact (runItems_follow hok h.turned hs).mono (fun x x' hx => hx.1)

/-- Both provisions let the same requests in. -/
theorem accepts_withItems (l : Transformations) :
    (withItems p l).accepts env r = p.accepts env r := by
  cases hs : p.requestSchema with
  | none => simp only [AdminServerProvision.accepts, withItems, hs]
  | some schema =>
      -- with a schema the body is decoded whatever the items
      simp only [AdminServerProvision.accepts, AdminServerProvision.dataPart,
        AdminServerProvision.mustDecode, withItems, hs, Option.isSome_some, Bool.true_or]

end Inline

/-- An item on a node of the body that is turned down: `x` is not `y`. -/
def xIsNotY : Transformation :=
  { uid := 1, sourceType := .Value, source := "x", targetType := .ResponseBodyJson_String,
    target := "/a", hasFilter := true, filterType := .EqualTo, filter := "y" }

/-- A fallback item on the text of the body. -/
def lateText : Transformation :=
  { uid := 2, sourceType := .Value, source := "late", targetType := .ResponseBodyString }

/-- A request without body, headers or parameters. -/
def emptyReception : Reception := ⟨"/", "/", ∅, { str := "" }, [], 1⟩

/-- A provision whose only item is `d`, with `f` as its fallback. -/
def oneFallback (d f : Transformation) : AdminServerProvision :=
  { responseCode := 200, transformations := .cons d (.cons f .nil .nil) .nil }

/-- The same with `f` alone. -/
def fallbackAlone (d f : Transformation) : AdminServerProvision :=
  inlined (oneFallback d f) .nil (.cons f .nil .nil) .nil

/-- A fallback item on a node of the body. -/
def lateNode : Transformation :=
  { uid := 2, sourceType := .Value, source := "v", targetType := .ResponseBodyJson_String,
    target := "/a" }

/-- An item on a variable that is turned down: `x` is not `y`. -/
def varIsNotY : Transformation := { xIsNotY with targetType := .TVar, target := "v" }

/-- A library that renders the object of the next example. -/
def nodeEnv : Env :=
  { idleEnv with
    lib := { idleLib with
      dump := fun j =>
        if j.beq (.obj [("a", .str "v")]) then some "\x7b\"a\":\"v\"\x7d" else none } }

-- the outermost list has no node of the body: what the fallback item writes is dropped
example :
    ((oneFallback varIsNotY lateNode).transform nodeEnv emptyReception World.blank).toOption.map
        (fun s => s.responseBody.text) = some ""
      ∧ ((fallbackAlone varIsNotY lateNode).transform nodeEnv emptyReception
          World.blank).toOption.map (fun s => s.responseBody.text)
        = some "\x7b\"a\":\"v\"\x7d" :=
  ⟨rfl, rfl⟩

/-- A command that is turned down: its output is not `y`. -/
def commandIsNotY : Transformation :=
  { uid := 1, sourceType := .Command, source := "true", targetType := .TVar, target := "v",
    hasFilter := true, filterType := .EqualTo, filter := "y" }

/-- Commands end well, with no output. -/
def shellEnv : Env := { idleEnv with popen := fun _ _ => some ("", 0) }

end H2Inline
