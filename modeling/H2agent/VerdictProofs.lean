import H2agent.JsonTreeProofs
import H2agent.ServerProvisionProofs

/-! # Verdicts of `JsonConstraint` and `SchemaId`

    The two filters leave their verdict in the shared holder, as the text `1` or as
    the report, and a target on a variable decodes it: the report goes to
    `<name>.fail` and the variable is emptied.  Neither a success nor a missing
    schema is written as such: the first leaves an older report where it was, the
    second leaves the document itself in the holder, which then counts as a report.

    `verdict_recorded_iff` says when the variables show the verdict. -/

namespace H2Verdict

open CppText FallbackList H2Convert H2Filter H2Key H2ServerProvision H2Source H2Target
  H2Transformation JsonValue

/-! ## Reports -/

section Reports

variable (lib : Lib) (received : Json)

theorem constrainPlain_long {value : Json} {report : String}
    (h : constrainPlain received value = some report) : 1 < report.length := by
  rw [constrainPlain] at h
  split at h
  · cases h
    decide +kernel
  · split at h
    · cases h
      decide +kernel
    · cases h

theorem constrainElements_long (es : List Json) (i : Nat) {report : String}
    (h : constrainElements lib received es i = some report) : 1 < report.length := by
  induction es generalizing i with
  | nil =>
      rw [constrainElements] at h
      cases h
  | cons e es ih =>
      rw [constrainElements] at h
      split at h
      · exact ih (i + 1) h
      · cases h
        simp only [String.length_append]
        have hlit : 1 < "JsonConstraint FAILED: expected element at index '".length := by decide +kernel
        omega

/-- The report on a member is that of its value, or a sentence of its own. -/
theorem constrainFields_long {fields : List (String × Json)}
    (hvalues : ∀ kv ∈ fields, ∀ (received : Json) (report : String),
      jsonConstraint lib received kv.2 = some report → 1 < report.length)
    {report : String} (h : constrainFields lib received fields = some report) : 1 < report.length := by
  induction fields with
  | nil =>
      rw [constrainFields] at h
      cases h
  | cons kv rest ih =>
      obtain ⟨key, value⟩ := kv
      have hrest := ih fun kv hkv => hvalues kv (List.mem_cons_of_mem _ hkv)
      rw [constrainFields] at h
      split at h
      · cases h
        simp only [String.length_append]
        have hlit : 1 < "JsonConstraint FAILED: expected key '".length := by decide +kernel
        omega
      · split at h
        · split at h
          · next hsub =>
              cases h
              exact hvalues _ List.mem_cons_self (received.member key) _ hsub
          · exact hrest h
        · split at h
          · cases h
            simp only [String.length_append]
            have hlit : 1 < "JsonConstraint FAILED: expected value for key '".length := by decide +kernel
            omega
          · exact hrest h

/-- A report of `jsonConstraint` is a sentence. -/
theorem jsonConstraint_long (expected : Json) {report : String}
    (h : jsonConstraint lib received expected = some report) : 1 < report.length := by
  induction expected using Json.tree_induction generalizing received report with
  | plain expected harr hobj =>
      cases expected with
      | null =>
          rw [jsonConstraint] at h
          cases h
      | arr es => cases harr
      | obj fields => cases hobj
      | _ =>
          rw [jsonConstraint] at h
          exact constrainPlain_long received h
  | arr es ih =>
      rw [jsonConstraint] at h
      split at h
      · cases h
        decide +kernel
      · exact constrainElements_long lib received es 0 h
  | obj fields ih =>
      rw [jsonConstraint] at h
      exact constrainFields_long lib received (fun kv hkv received _ => ih kv hkv received) h

/-- So it is never taken for the text of a success. -/
theorem jsonConstraint_ne_one {expected : Json} {report : String}
    (h : jsonConstraint lib received expected = some report) : report ≠ "1" := by
  rintro rfl
  exact absurd (jsonConstraint_long lib received expected h) (by decide)

end Reports

/-! ## Verdicts -/

/-- What a validation comes to; without its schema it is ignored. -/
inductive Verdict where
  | holds
  | ignored
  | fails (report : String)

/-- A report, or the lack of one. -/
def Verdict.ofReport : Option String → Verdict
  | none => .holds
  | some report => .fails report

/-- The verdict on a document. -/
def verdict (env : Env) (t : Transformation) (j : Json) : Verdict :=
  match t.filterType with
  | .SchemaId =>
      match env.schemas.lookup t.filter with
      | none => .ignored
      | some schema => .ofReport (env.lib.validate schema j)
  | _ => .ofReport (jsonConstraint env.lib j t.filterObject)

/-- The text a verdict leaves in a holder whose text was another. -/
def Verdict.holderText (text : String) : Verdict → String
  | .holds => "1"
  | .ignored => text
  | .fails report => report

/-- The variables show the verdict: `1` and no report, or the empty text and the
    report. -/
def Recorded (vars : TextMap String) (name : String) : Verdict → Prop
  | .holds => vars.lookup name = some "1" ∧ vars.lookup (name ++ ".fail") = none
  | .ignored => vars.lookup name = some "1" ∧ vars.lookup (name ++ ".fail") = none
  | .fails report => vars.lookup name = some "" ∧ vars.lookup (name ++ ".fail") = some report

/-- When they will: no older report is left behind a success, a document that is not
    validated has the text `1` itself, and a report has another. -/
def RecordsWhen (before : TextMap String) (name text : String) : Verdict → Prop
  | .holds => before.lookup (name ++ ".fail") = none
  | .ignored => text = "1" ∧ before.lookup (name ++ ".fail") = none
  | .fails report => report ≠ "1"

/-- The two filters. -/
def validates (t : Transformation) : Prop :=
  t.filterType = .JsonConstraint ∨ t.filterType = .SchemaId

/-- The filter passes, with the text of the verdict in the holder. -/
theorem processFilters_verdict (env : Env) (vars : TextMap String) (vault : Vault)
    {t : Transformation} {v : TypeConverter} {text : String} (ht : validates t)
    (htext : v.getString env.lib = .ok text) :
    ∃ w, AdminServerProvision.processFilters env vars vault t v = passes w
      ∧ w.getString env.lib = .ok ((verdict env t v.json).holderText text) := by
  have hreport : ∀ report : Option String, ∃ w, passes (v.setString (report.getD "1")) = passes w
      ∧ w.getString env.lib = .ok ((Verdict.ofReport report).holderText text) := by
    intro report
    cases report with
    | none => exact ⟨_, rfl, rfl⟩
    | some report => exact ⟨_, rfl, rfl⟩
  rcases ht with ht | ht
  · simp only [AdminServerProvision.processFilters, withSource, ht, needsString, if_true, htext,
      verdict, getObject_snd]
    exact hreport _
  · simp only [AdminServerProvision.processFilters, withSource, ht, needsString, if_true, htext,
      verdict, getObject_snd]
    cases env.schemas.lookup t.filter with
    | none => exact ⟨v, rfl, htext⟩
    | some schema => exact hreport _

/-- The name of the report is not that of the variable. -/
theorem fail_ne (name : String) : name ++ ".fail" ≠ name := by
  intro h
  have hlen := congrArg String.length h
  rw [String.length_append] at hlen
  have hfail : ".fail".length = 5 := by decide
  omega

/-- The variables a target writes for the text of a verdict. -/
def written (vars : TextMap String) (name text : String) : TextMap String :=
  if text = "1" then vars.insert name "1"
  else (vars.insert (name ++ ".fail") text).insert name ""

/-- What a target on a variable makes of the text of a verdict. -/
theorem varTarget_verdict (env : Env) {t : Transformation} {name text : String}
    {w : TypeConverter} {groups : List String} (x : World) (ht : validates t)
    (hfilter : t.hasFilter = true) (htext : w.getString env.lib = .ok text) :
    varTarget env.lib t name ⟨w, false, groups⟩ x
      = (true, { x with vars := written x.vars name text }) := by
  have hcapture : filteredBy t .RegexCapture = false := by
    rcases ht with ht | ht <;> simp [filteredBy, ht]
  have hkey : filteredBy t .RegexKey = false := by
    rcases ht with ht | ht <;> simp [filteredBy, ht]
  have hverdict : (filteredBy t .JsonConstraint || filteredBy t .SchemaId) = true := by
    rcases ht with ht | ht <;> simp [filteredBy, ht, hfilter]
  simp only [varTarget, hcapture, hkey, hverdict, htext, Bool.false_eq_true, if_false,
    Bool.true_and, bne_iff_ne, written]
  by_cases hone : text = "1"
  · rw [if_neg (fun h => h hone), if_pos hone, hone]
  · rw [if_pos hone, if_neg hone]

/-- A success is shown unless an older report is there. -/
theorem written_one_iff (before : TextMap String) (name : String) :
    ((written before name "1").lookup name = some "1"
        ∧ (written before name "1").lookup (name ++ ".fail") = none)
      ↔ before.lookup (name ++ ".fail") = none := by
  rw [written, if_pos rfl, AList.lookup_insert, AList.lookup_insert_ne (fail_ne name)]
  exact ⟨fun h => h.2, fun h => ⟨rfl, h⟩⟩

/-- A report is shown. -/
theorem written_report (before : TextMap String) (name : String) {report : String}
    (h : report ≠ "1") :
    (written before name report).lookup name = some ""
      ∧ (written before name report).lookup (name ++ ".fail") = some report := by
  rw [written, if_neg h]
  refine ⟨AList.lookup_insert _, ?_⟩
  rw [AList.lookup_insert_ne (fail_ne name)]
  exact AList.lookup_insert _

/-- The variables after a verdict. -/
theorem written_verdict_iff (before : TextMap String) (name text : String) (x : Verdict) :
    Recorded (written before name (x.holderText text)) name x ↔ RecordsWhen before name text x := by
  cases x with
  | holds => exact written_one_iff before name
  | ignored =>
      show ((written before name text).lookup name = some "1"
          ∧ (written before name text).lookup (name ++ ".fail") = none)
        ↔ text = "1" ∧ before.lookup (name ++ ".fail") = none
      by_cases hone : text = "1"
      · rw [hone, written_one_iff]
        exact ⟨fun h => ⟨rfl, h⟩, fun h => h.2⟩
      · -- the text of the document is taken for a report
        rw [(written_report before name hone).1]
        constructor
        · intro h
          exact absurd h.1 (by decide)
        · intro h
          exact (hone h.1).elim
  | fails report =>
      show ((written before name report).lookup name = some ""
          ∧ (written before name report).lookup (name ++ ".fail") = some report)
        ↔ report ≠ "1"
      by_cases hone : report = "1"
      · rw [hone, written, if_pos rfl, AList.lookup_insert]
        constructor
        · intro h
          exact absurd h.1 (by decide)
        · intro h
          exact (h rfl).elim
      · exact ⟨fun _ => hone, fun _ => written_report before name hone⟩

/-- **VERDICTS IN VARIABLES**: an item with one of the two filters on a document with
    a text, and a variable as its target, is carried out, and the variables then
    show the verdict on the document if and only if no older report was there in
    case of a success, the text of the document was `1`, without an older report, in
    case of a missing schema, and the report is not `1` in case of a failure, which
    none of `jsonConstraint` is. -/
theorem verdict_recorded_iff (env : Env) (req : ServerRequest) (t : Transformation)
    (s : ServerRun) (found : Sourced) (v : TypeConverter) (text name : String)
    (ht : validates t) (hfilter : t.hasFilter = true) (htarget : t.targetType = .TVar)
    (htarget2 : t.target2 = "") (hvalue : t.sourceType ≠ .Eraser)
    (hsource : AdminServerProvision.sourceValue env req s.state.responseBody.json t s.state.world
      = .ok found)
    (hassign : found.value.assign s.sourceVault = (true, v))
    (htext : v.getString env.lib = .ok text)
    (hname : expand env { s.state.world with vars := found.vars } t.target t.targetPatterns
      = .ok name) :
    (∃ run, processItem env req t s = .done true run
      ∧ (Recorded run.state.world.vars name (verdict env t v.json)
        ↔ RecordsWhen found.vars name text (verdict env t v.json)))
    ∧ (t.filterType = .JsonConstraint → ∀ report, verdict env t v.json = .fails report →
      report ≠ "1") := by
  constructor
  · obtain ⟨w, hpass, hw⟩ := processFilters_verdict env found.vars s.state.world.vault ht htext
    have heraser : eraser t = false := by
      rw [eraser, beq_eq_false_iff_ne]
      exact hvalue
    refine ⟨⟨{ s.state with world := { s.state.world with
      vars := written found.vars name ((verdict env t v.json).holderText text) } }, w⟩, ?_, ?_⟩
    · have hstage : filterStage env t (ServerState.withVars s.state found.vars) v
          = targetStage env t (ServerState.withVars s.state found.vars) [] w := by
        have hstate : H2Filter.AdminServerProvision.processFilters env
            (ServerState.withVars s.state found.vars).world.vars
            (ServerState.withVars s.state found.vars).world.vault t v = passes w := hpass
        rw [filterStage, if_pos hfilter, heraser, if_neg Bool.false_ne_true, hstate]
        rfl
      have htwo : expandNonEmpty env (ServerState.withVars s.state found.vars).world t.target2
          t.target2Patterns = .ok "" := by
        rw [htarget2]
        rfl
      have hexpand : expand env (ServerState.withVars s.state found.vars).world t.target
          t.targetPatterns = .ok name := hname
      simp only [processItem, hsource, hassign, if_true, hstage, targetStage, heraser,
        AdminServerProvision.processTargets, hexpand, htwo, serverTarget, htarget,
        responseBodyTarget, worldTarget,
        varTarget_verdict env (ServerState.withVars s.state found.vars).world ht hfilter hw]
      rfl
    · exact written_verdict_iff found.vars name text (verdict env t v.json)
  · intro hkind report hreport
    rw [verdict, hkind] at hreport
    cases hc : jsonConstraint env.lib v.json t.filterObject with
    | none =>
        rw [hc] at hreport
        cases hreport
    | some r =>
        rw [hc] at hreport
        cases hreport
        exact jsonConstraint_ne_one env.lib v.json hc

/-- A dump that knows one document. -/
def fooLib : Lib := { idleLib with dump := fun _ => some "\x7b\"foo\":1\x7d" }

/-- The outside with it, and without schemas. -/
def fooEnv : Env := { idleEnv with lib := fooLib }

/-- A request with that document as its body. -/
def fooRequest : ServerRequest :=
  { plainRequest with
    bodyDataPart := ⟨"\x7b\"foo\":1\x7d", true, true, .obj [("foo", .uint 1)]⟩ }

/-- The request body against a constraint. -/
def fooItem (expected : Nat) : Transformation :=
  { sourceType := .RequestBody, targetType := .TVar, target := "v", hasFilter := true,
    filterType := .JsonConstraint, filterObject := .obj [("foo", .uint expected)] }

/-- A run that inherited these variables. -/
def inheriting (vars : TextMap String) : ServerRun :=
  ⟨{ blankState with world := { World.blank with vars := vars } }, TypeConverter.fresh⟩

/-- The holder once the document is in it. -/
def fooHolder : TypeConverter := ⟨.object, .obj [("foo", .uint 1)]⟩

/-- A failure is shown over whatever was there. -/
theorem foo_failure_recorded :
    ∃ run, processItem fooEnv fooRequest (fooItem 2) (inheriting ((∅ : TextMap String).insert "v" "1"))
        = .done true run
      ∧ Recorded run.state.world.vars "v" (verdict fooEnv (fooItem 2) fooHolder.json) := by
  have h := verdict_recorded_iff fooEnv fooRequest (fooItem 2)
    (inheriting ((∅ : TextMap String).insert "v" "1"))
    ⟨.object (.obj [("foo", .uint 1)]) "", (∅ : TextMap String).insert "v" "1"⟩ fooHolder
    "\x7b\"foo\":1\x7d" "v" (.inl rfl) rfl rfl rfl (by decide) rfl rfl rfl rfl
  obtain ⟨⟨run, hrun, hiff⟩, hreports⟩ := h
  refine ⟨run, hrun, hiff.mpr ?_⟩
  exact hreports rfl _ rfl

/-- The document meets the constraint: the variable is `1`, and the report inherited
    from an earlier step is still there. -/
theorem foo_success_keeps_old_report :
    ∃ run, processItem fooEnv fooRequest (fooItem 1)
        (inheriting ((∅ : TextMap String).insert "v.fail" "old report")) = .done true run
      ∧ verdict fooEnv (fooItem 1) fooHolder.json = .holds
      ∧ run.state.world.vars.lookup "v" = some "1"
      ∧ run.state.world.vars.lookup "v.fail" = some "old report"
      ∧ ¬ Recorded run.state.world.vars "v" (verdict fooEnv (fooItem 1) fooHolder.json) := by
  refine ⟨_, rfl, rfl, by decide, by decide, fun h => ?_⟩
  exact absurd h.2 (by decide)

end H2Verdict
