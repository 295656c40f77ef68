import H2agent.KeyProofs
import H2agent.StepRunProofs

/-! # Triggering a client provision

    `MyAdminHttp2Server::triggerClientOperation` with the part of
    `AdminClientProvision` it drives: the dynamics (`seq_`, `seq_begin_`,
    `seq_end_`, `cps_`, `repeat_`), their update from the texts of the query,
    and the timer whose ticks walk the range.

    Two things are settled here.  A trigger that is rejected late has already
    assigned what it accepted before (`rejected_trigger_unchanged_iff`); and
    the walk starts one below the requested range, because the counter is
    preset to `begin - 1` and read before it is advanced
    (`ticks_start_below_range`). -/

namespace H2Trigger

open CppText H2Key StepRun

/-- The dynamics of a client provision.  The timer and its callback are set and
    released together, so one flag stands for both. -/
structure Dynamics where
  seq : Int
  seqBegin : Int
  seqEnd : Int
  cps : Nat
  repeat_ : Bool
  ticking : Bool
  deriving DecidableEq, Repr

/-- The texts `triggerClientOperation` takes from the query. -/
structure TriggerQuery where
  inState : String
  sequence : String
  sequenceBegin : String
  sequenceEnd : String
  cps : String
  repeat_ : String
  deriving DecidableEq, Repr

/-! ## Updating the dynamics -/

/-- A bound of the range: the current one without a text. -/
def readBound (current : Int) (text : String) : Option Int :=
  if text.isEmpty then some current else stoll text

/-- The rate: kept without a text, stored in an `unsigned int`. -/
def readRate (current : Nat) (text : String) : Option Nat :=
  if text.isEmpty then some current
  else
    match string2uint64andSign text with
    | some (n, false) => some (wrapU32 n)
    | _ => none

/-- The repeat flag: kept without a text. -/
def readRepeat (current : Bool) (text : String) : Option Bool :=
  if text.isEmpty then some current
  else if text != "true" && text != "false" then none
  else some (text == "true")

/-- The range assignment of `updateTriggering`; a range given in the request
    presets the counter. -/
def Dynamics.assignRange (d : Dynamics) (q : TriggerQuery) (b e : Int) : Dynamics :=
  let d := if b ≠ d.seqBegin ∨ e ≠ d.seqEnd then { d with seqBegin := b, seqEnd := e }
    else d
  if !q.sequenceBegin.isEmpty || !q.sequenceEnd.isEmpty then
    { d with seq := wrapI64 (d.seqBegin - 1) }
  else d

/-- `updateTriggering`: the result and the dynamics left. -/
def Dynamics.updateTriggering (d : Dynamics) (q : TriggerQuery) : Bool × Dynamics :=
  match readBound d.seqBegin q.sequenceBegin with
  | none => (false, d)
  | some b =>
      match readBound d.seqEnd q.sequenceEnd with
      | none => (false, d)
      | some e =>
          if b > e then (false, d)
          else
            let d1 := d.assignRange q b e
            match readRate d1.cps q.cps with
            | none => (false, d1)
            | some rate =>
                let d2 := { d1 with cps := rate }
                match readRepeat d2.repeat_ q.repeat_ with
                | none => (false, d2)
                | some flag => (true, { d2 with repeat_ := flag })

/-! ## The timer -/

def Dynamics.stopTicking (d : Dynamics) : Dynamics := { d with ticking := false }

/-- `scheduleTick`: without a timer, or at rate zero, the ticking stops. -/
def Dynamics.scheduleTick (d : Dynamics) : Dynamics :=
  if !d.ticking || d.cps == 0 then d.stopTicking else d

/-- The counter outside the range (exhausted or never started) is preset again. -/
def Dynamics.resetOutside (d : Dynamics) : Dynamics :=
  if d.seq < wrapI64 (d.seqBegin - 1) ∨ d.seq > d.seqEnd then
    { d with seq := wrapI64 (d.seqBegin - 1) }
  else d

/-- `startTicking`. -/
def Dynamics.startTicking (d : Dynamics) : Dynamics :=
  { d.stopTicking.resetOutside with ticking := true }.scheduleTick

/-- The end of the tick handler: the counter advances; beyond the range it
    starts over or the ticking stops.  The flag tells that it stopped. -/
def Dynamics.advance (d : Dynamics) : Dynamics × Bool :=
  let d := { d with seq := wrapI64 (d.seq + 1) }
  if d.seq > d.seqEnd then
    if d.repeat_ then ({ d with seq := d.seqBegin }, false) else (d.stopTicking, true)
  else (d, false)

/-- What a tick leaves: the dynamics, the value a successful callback read, and
    whether the range was exhausted. -/
structure TickResult where
  dynamics : Dynamics
  observed : Option Int
  exhausted : Bool

/-- The handler of one timer tick.  The next tick is scheduled first; a callback
    that cannot dispatch leaves the counter; without a callback the counter
    advances all the same. -/
def Dynamics.tick (d : Dynamics) (dispatched : Bool) : TickResult :=
  let d := d.scheduleTick
  if d.ticking && !dispatched then ⟨d, none, false⟩
  else
    let observed := if d.ticking then some d.seq else none
    ⟨d.advance.1, observed, d.advance.2⟩

/-! ## The trigger operation -/

/-- A provision as far as triggering reads it. -/
structure Provision where
  clientEndpointId : String
  dynamics : Dynamics
  deriving DecidableEq, Repr

/-- The administrative data: provisions by `inState` and identifier, endpoints
    with their permit. -/
structure AdminData where
  findProvision : String → String → Option Provision
  findEndpoint : String → Option Bool

/-- The texts of the query; missing parameters are empty, `inState` is
    `initial`. -/
def readQuery (decode : String → String) (queryParams : String) : TriggerQuery :=
  let qmap := (extractQueryParameters decode queryParams '&').1
  { inState := (qmap.lookup "inState").getD "initial"
    sequence := (qmap.lookup "sequence").getD ""
    sequenceBegin := (qmap.lookup "sequenceBegin").getD ""
    sequenceEnd := (qmap.lookup "sequenceEnd").getD ""
    cps := (qmap.lookup "cps").getD ""
    repeat_ := (qmap.lookup "repeat").getD "" }

/-- A parameter of asynchronous triggering is present. -/
def TriggerQuery.hasDynamics (q : TriggerQuery) : Bool :=
  !q.sequenceBegin.isEmpty || !q.sequenceEnd.isEmpty || !q.cps.isEmpty
    || !q.repeat_.isEmpty

/-- What a trigger leaves: the answer, the provision it found, and whether one
    request was sent at once. -/
structure TriggerResult where
  statusCode : Nat
  provision : Option Provision
  sent : Bool

/-- An accepted asynchronous trigger starts, keeps or stops the timer. -/
def Dynamics.applyRate (d : Dynamics) : Dynamics :=
  if d.cps > 0 then (if d.ticking then d else d.startTicking) else d.stopTicking

/-- The last part of `triggerClientOperation`: the endpoint, then the timer or a
    single request. -/
def dispatch (admin : AdminData) (p : Provision) (statusCode : Nat) : TriggerResult :=
  match admin.findEndpoint p.clientEndpointId with
  | none => ⟨404, some p, false⟩
  | some false => ⟨403, some p, false⟩
  | some true =>
      if statusCode = 202 then
        ⟨202, some { p with dynamics := p.dynamics.applyRate }, false⟩
      else ⟨statusCode, some p, true⟩

/-- `triggerClientOperation` on the texts of the query. -/
def triggerWith (admin : AdminData) (clientProvisionId : String) (q : TriggerQuery) :
    TriggerResult :=
  let found := admin.findProvision q.inState clientProvisionId
  if !q.sequence.isEmpty && q.hasDynamics then ⟨400, found, false⟩
  else
    match found with
    | none => ⟨404, none, false⟩
    | some p =>
        if !q.sequence.isEmpty then
          match stoll q.sequence with
          | none => ⟨400, some p, false⟩
          | some v => dispatch admin { p with dynamics := { p.dynamics with seq := v } } 200
        else if q.hasDynamics then
          match p.dynamics.updateTriggering q with
          | (true, d) => dispatch admin { p with dynamics := d } 202
          | (false, d) => ⟨400, some { p with dynamics := d }, false⟩
        else dispatch admin p 200

/-- `triggerClientOperation`. -/
def triggerClientOperation (admin : AdminData) (decode : String → String)
    (clientProvisionId queryParams : String) : TriggerResult :=
  triggerWith admin clientProvisionId (readQuery decode queryParams)

/-! ## A rejected trigger -/

/-- The range of the request, when both bounds can be read and are in order. -/
def acceptedRange (d : Dynamics) (q : TriggerQuery) : Option (Int × Int) :=
  match readBound d.seqBegin q.sequenceBegin, readBound d.seqEnd q.sequenceEnd with
  | some b, some e => if b > e then none else some (b, e)
  | _, _ => none

/-- The request repeats the current range, with the counter still at its
    preset. -/
def SameRange (d : Dynamics) (q : TriggerQuery) : Prop :=
  acceptedRange d q = some (d.seqBegin, d.seqEnd)
    ∧ ((!q.sequenceBegin.isEmpty || !q.sequenceEnd.isEmpty) = true →
        d.seq = wrapI64 (d.seqBegin - 1))

/-- The request repeats the current rate, or has none. -/
def SameRate (d : Dynamics) (q : TriggerQuery) : Prop := readRate d.cps q.cps = some d.cps

/-- The request repeats the current flag, or has none. -/
def SameRepeat (d : Dynamics) (q : TriggerQuery) : Prop :=
  readRepeat d.repeat_ q.repeat_ = some d.repeat_

/-- With an acceptable range, a rate that is rejected finds the range repeated,
    and a flag that is rejected finds range and rate repeated. -/
def UpdateSafe (d : Dynamics) (q : TriggerQuery) : Prop :=
  acceptedRange d q ≠ none →
    (readRate d.cps q.cps = none → SameRange d q)
      ∧ (readRate d.cps q.cps ≠ none → readRepeat d.repeat_ q.repeat_ = none →
          SameRange d q ∧ SameRate d q)

theorem assignRange_eq_iff (d : Dynamics) (q : TriggerQuery) (b e : Int) :
    d.assignRange q b e = d ↔
      (b = d.seqBegin ∧ e = d.seqEnd) ∧
        ((!q.sequenceBegin.isEmpty || !q.sequenceEnd.isEmpty) = true →
          d.seq = wrapI64 (d.seqBegin - 1)) := by
  obtain ⟨seq, sb, se, cps, rep, tk⟩ := d
  simp only [Dynamics.assignRange]
  by_cases hr : b ≠ sb ∨ e ≠ se
  · -- a different range is assigned, whatever the counter
    have hne : ¬ (b = sb ∧ e = se) := by
      rintro ⟨hb, he⟩
      rcases hr with hr | hr
      · exact hr hb
      · exact hr he
    rw [if_pos hr]
    refine ⟨?_, fun h => (hne h.1).elim⟩
    intro h
    refine (hne ?_).elim
    split at h
    · injection h with _ h1 h2
      exact ⟨h1, h2⟩
    · injection h with _ h1 h2
      exact ⟨h1, h2⟩
  · have heq : b = sb ∧ e = se := by
      refine ⟨?_, ?_⟩
      · by_contra hb
        exact hr (Or.inl hb)
      · by_contra he
        exact hr (Or.inr he)
    rw [if_neg hr]
    by_cases hp : (!q.sequenceBegin.isEmpty || !q.sequenceEnd.isEmpty) = true
    · rw [if_pos hp]
      refine ⟨?_, ?_⟩
      · intro h
        injection h with h1
        exact ⟨heq, fun _ => h1.symm⟩
      · rintro ⟨_, h⟩
        have h1 : seq = wrapI64 (sb - 1) := h hp
        rw [← h1]
    · rw [if_neg hp]
      exact ⟨fun _ => ⟨heq, fun h => (hp h).elim⟩, fun _ => rfl⟩

@[simp] theorem assignRange_cps (d : Dynamics) (q : TriggerQuery) (b e : Int) :
    (d.assignRange q b e).cps = d.cps := by
  simp only [Dynamics.assignRange]
  split <;> split <;> rfl

@[simp] theorem assignRange_repeat (d : Dynamics) (q : TriggerQuery) (b e : Int) :
    (d.assignRange q b e).repeat_ = d.repeat_ := by
  simp only [Dynamics.assignRange]
  split <;> split <;> rfl

/-- `updateTriggering` by the stage that decides it. -/
theorem updateTriggering_eq (d : Dynamics) (q : TriggerQuery) :
    d.updateTriggering q =
      match acceptedRange d q with
      | none => (false, d)
      | some (b, e) =>
          match readRate d.cps q.cps with
          | none => (false, d.assignRange q b e)
          | some rate =>
              match readRepeat d.repeat_ q.repeat_ with
              | none => (false, { d.assignRange q b e with cps := rate })
              | some flag =>
                  (true, { d.assignRange q b e with cps := rate, repeat_ := flag }) := by
  simp only [Dynamics.updateTriggering, acceptedRange]
  cases hb : readBound d.seqBegin q.sequenceBegin with
  | none => rfl
  | some b =>
      cases he : readBound d.seqEnd q.sequenceEnd with
      | none => rfl
      | some e =>
          by_cases hgt : b > e
          · simp only [if_pos hgt]
          · simp only [if_neg hgt, assignRange_cps, assignRange_repeat]

/-- What the assignments up to the rate leave is the dynamics before exactly when
    the request repeats range and rate. -/
theorem assignRate_eq_iff (d : Dynamics) (q : TriggerQuery) (b e : Int) (rate : Nat) :
    { d.assignRange q b e with cps := rate } = d ↔
      d.assignRange q b e = d ∧ rate = d.cps := by
  refine ⟨?_, ?_⟩
  · intro h
    have hr : rate = d.cps := congrArg Dynamics.cps h
    refine ⟨?_, hr⟩
    rw [hr, ← assignRange_cps d q b e] at h
    exact h
  · rintro ⟨h, hr⟩
    rw [hr, h]

theorem assignAll_eq_iff (d : Dynamics) (q : TriggerQuery) (b e : Int) (rate : Nat)
    (flag : Bool) :
    { d.assignRange q b e with cps := rate, repeat_ := flag } = d ↔
      (d.assignRange q b e = d ∧ rate = d.cps) ∧ flag = d.repeat_ := by
  refine ⟨?_, ?_⟩
  · intro h
    have hf : flag = d.repeat_ := congrArg Dynamics.repeat_ h
    refine ⟨?_, hf⟩
    rw [hf, ← assignRange_repeat d q b e] at h
    exact (assignRate_eq_iff d q b e rate).mp h
  · rintro ⟨⟨h, hr⟩, hf⟩
    rw [hr, hf, h]

theorem sameRange_iff {d : Dynamics} {q : TriggerQuery} {b e : Int}
    (hr : acceptedRange d q = some (b, e)) :
    SameRange d q ↔ d.assignRange q b e = d := by
  rw [assignRange_eq_iff, SameRange, hr, Option.some.injEq, Prod.mk.injEq]

/-- **A REJECTED UPDATE**: `updateTriggering` that returns false has changed
    nothing exactly when the request is safe. -/
theorem updateTriggering_unchanged_iff (d : Dynamics) (q : TriggerQuery) :
    ((d.updateTriggering q).1 = false → (d.updateTriggering q).2 = d)
      ↔ UpdateSafe d q := by
  rw [updateTriggering_eq]
  cases hr : acceptedRange d q with
  | none => exact ⟨fun _ h => (h hr).elim, fun _ _ => rfl⟩
  | some p =>
      obtain ⟨b, e⟩ := p
      have hsome : acceptedRange d q ≠ none := by rw [hr]; exact Option.some_ne_none _
      cases hc : readRate d.cps q.cps with
      | none =>
          refine ⟨?_, ?_⟩
          · intro h _
            refine ⟨fun _ => (sameRange_iff hr).mpr (h rfl), ?_⟩
            intro hne
            exact (hne hc).elim
          · intro h _
            exact (sameRange_iff hr).mp ((h hsome).1 hc)
      | some rate =>
          cases hf : readRepeat d.repeat_ q.repeat_ with
          | none =>
              have hrate : SameRate d q ↔ rate = d.cps := by
                rw [SameRate, hc, Option.some.injEq]
              refine ⟨?_, ?_⟩
              · intro h _
                obtain ⟨h1, h2⟩ := (assignRate_eq_iff d q b e rate).mp (h rfl)
                refine ⟨?_, fun _ _ => ⟨(sameRange_iff hr).mpr h1, hrate.mpr h2⟩⟩
                intro hnone
                rw [hc] at hnone
                exact nomatch hnone
              · intro h _
                have hne : readRate d.cps q.cps ≠ none := by
                  rw [hc]
                  exact Option.some_ne_none _
                obtain ⟨h1, h2⟩ := (h hsome).2 hne hf
                exact (assignRate_eq_iff d q b e rate).mpr
                  ⟨(sameRange_iff hr).mp h1, hrate.mp h2⟩
          | some flag =>
              refine ⟨?_, fun _ h => nomatch h⟩
              intro _ _
              refine ⟨?_, ?_⟩
              · intro hnone
                rw [hc] at hnone
                exact nomatch hnone
              · intro _ hnone
                rw [hf] at hnone
                exact nomatch hnone

/-- The update is accepted: range, rate and flag can all be read. -/
def UpdateAccepted (d : Dynamics) (q : TriggerQuery) : Prop :=
  acceptedRange d q ≠ none ∧ readRate d.cps q.cps ≠ none
    ∧ readRepeat d.repeat_ q.repeat_ ≠ none

/-- An accepted update changes nothing exactly when it repeats everything. -/
theorem updateTriggering_accepted {d : Dynamics} {q : TriggerQuery} :
    (d.updateTriggering q).1 = true ↔ UpdateAccepted d q := by
  rw [updateTriggering_eq, UpdateAccepted]
  cases acceptedRange d q with
  | none => simp
  | some p =>
      obtain ⟨b, e⟩ := p
      cases readRate d.cps q.cps with
      | none => simp
      | some rate =>
          cases readRepeat d.repeat_ q.repeat_ with
          | none => simp
          | some flag => simp

theorem updateTriggering_accepted_eq_iff {d : Dynamics} {q : TriggerQuery}
    (h : UpdateAccepted d q) :
    (d.updateTriggering q).2 = d ↔ SameRange d q ∧ SameRate d q ∧ SameRepeat d q := by
  obtain ⟨hr, hc, hf⟩ := h
  obtain ⟨⟨b, e⟩, hr⟩ := Option.ne_none_iff_exists'.mp hr
  obtain ⟨rate, hc⟩ := Option.ne_none_iff_exists'.mp hc
  obtain ⟨flag, hf⟩ := Option.ne_none_iff_exists'.mp hf
  rw [updateTriggering_eq, hr, hc, hf, sameRange_iff hr, SameRate, SameRepeat, hc, hf,
    Option.some.injEq, Option.some.injEq]
  exact (assignAll_eq_iff d q b e rate flag).trans and_assoc

/-! ### The whole trigger -/

/-- The endpoint of the provision is there and permitted. -/
def EndpointReady (admin : AdminData) (p : Provision) : Prop :=
  admin.findEndpoint p.clientEndpointId = some true

/-- When a trigger that reaches a provision leaves it alone if it is rejected:
    a dynamics request is safe, and repeats everything when its endpoint is
    not ready; a single-shot request repeats the counter when its endpoint is
    not ready. -/
def TriggerSafe (admin : AdminData) (p : Provision) (q : TriggerQuery) : Prop :=
  (q.sequence.isEmpty = true → q.hasDynamics = true →
      UpdateSafe p.dynamics q
        ∧ (UpdateAccepted p.dynamics q → ¬ EndpointReady admin p →
            SameRange p.dynamics q ∧ SameRate p.dynamics q ∧ SameRepeat p.dynamics q))
    ∧ (q.sequence.isEmpty = false → q.hasDynamics = false → ¬ EndpointReady admin p →
        ∀ v, stoll q.sequence = some v → v = p.dynamics.seq)

/-- A status that is not 2xx. -/
def Rejected (statusCode : Nat) : Prop := statusCode < 200 ∨ 300 ≤ statusCode

/-- The dispatch of a provision is rejected exactly when its endpoint is not
    ready, and leaves the provision it was given. -/
theorem dispatch_rejected (admin : AdminData) (p : Provision) {statusCode : Nat}
    (hs : statusCode = 200 ∨ statusCode = 202) :
    (Rejected (dispatch admin p statusCode).statusCode ↔ ¬ EndpointReady admin p)
      ∧ (¬ EndpointReady admin p → (dispatch admin p statusCode).provision = some p) := by
  have h404 : Rejected 404 := Or.inr (by decide)
  have h403 : Rejected 403 := Or.inr (by decide)
  simp only [dispatch, EndpointReady]
  cases he : admin.findEndpoint p.clientEndpointId with
  | none => exact ⟨⟨fun _ => (nomatch ·), fun _ => h404⟩, fun _ => rfl⟩
  | some permit =>
      cases permit with
      | false => exact ⟨⟨fun _ => (nomatch ·), fun _ => h403⟩, fun _ => rfl⟩
      | true =>
          refine ⟨⟨?_, fun h => (h rfl).elim⟩, fun h => (h rfl).elim⟩
          intro h
          rcases hs with hs | hs <;> subst hs <;> revert h <;> simp [Rejected]

theorem provision_eq_iff (p : Provision) (d : Dynamics) :
    some { p with dynamics := d } = some p ↔ d = p.dynamics := by
  refine ⟨?_, ?_⟩
  · intro h
    exact congrArg Provision.dynamics (Option.some.inj h)
  · intro h
    rw [h]

/-- A provision dispatched with dynamics `d` is left as it was, when rejected,
    exactly when an endpoint that is not ready meets unchanged dynamics. -/
theorem dispatch_unchanged_iff (admin : AdminData) (p : Provision) (d : Dynamics)
    {statusCode : Nat} (hs : statusCode = 200 ∨ statusCode = 202) :
    (Rejected (dispatch admin { p with dynamics := d } statusCode).statusCode →
        (dispatch admin { p with dynamics := d } statusCode).provision = some p)
      ↔ (¬ EndpointReady admin p → d = p.dynamics) := by
  obtain ⟨hrej, hprov⟩ := dispatch_rejected admin { p with dynamics := d } hs
  refine ⟨?_, ?_⟩
  · intro h hnot
    have := h (hrej.mpr hnot)
    rw [hprov hnot] at this
    exact (provision_eq_iff p d).mp this
  · intro h hr
    have hnot := hrej.mp hr
    rw [hprov hnot]
    exact (provision_eq_iff p d).mpr (h hnot)

/-- The trigger that reaches provision `p`. -/
theorem triggerWith_unchanged_iff (admin : AdminData) (id : String) (q : TriggerQuery)
    {p : Provision} (hp : admin.findProvision q.inState id = some p) :
    (Rejected (triggerWith admin id q).statusCode →
        (triggerWith admin id q).provision = some p) ↔ TriggerSafe admin p q := by
  cases hseq : q.sequence.isEmpty with
  | false =>
      cases hd : q.hasDynamics with
      | true =>
          -- mixed parameters: turned down before anything is looked at
          simp only [triggerWith, hp, hseq, hd, Bool.not_false, Bool.and_self, if_true]
          refine ⟨fun _ => ⟨?_, ?_⟩, fun _ _ => trivial⟩
          · intro h
            rw [hseq] at h
            exact nomatch h
          · intro _ h
            rw [hd] at h
            exact nomatch h
      | false =>
          simp only [triggerWith, hp, hseq, hd, Bool.not_false, Bool.and_false,
            Bool.false_eq_true, if_false, if_true]
          have hsafe : TriggerSafe admin p q ↔ (¬ EndpointReady admin p →
              ∀ v, stoll q.sequence = some v → v = p.dynamics.seq) := by
            refine ⟨fun h => h.2 hseq hd, fun h => ⟨?_, fun _ _ => h⟩⟩
            intro h'
            rw [hseq] at h'
            exact nomatch h'
          rw [hsafe]
          cases hv : stoll q.sequence with
          | none => exact ⟨fun _ _ _ => (nomatch ·), fun _ _ => rfl⟩
          | some v =>
              refine (dispatch_unchanged_iff admin p _ (Or.inl rfl)).trans ?_
              refine ⟨?_, ?_⟩
              · intro h hnot v' hv'
                rw [← Option.some.inj hv']
                exact congrArg Dynamics.seq (h hnot)
              · intro h hnot
                rw [h hnot v rfl]
  | true =>
      cases hd : q.hasDynamics with
      | false =>
          simp only [triggerWith, hp, hseq, hd, Bool.not_true, Bool.and_false,
            Bool.false_eq_true, if_false]
          refine ⟨fun _ => ⟨?_, ?_⟩, fun _ =>
            (dispatch_unchanged_iff admin p p.dynamics (Or.inl rfl)).mpr (fun _ => rfl)⟩
          · intro _ h
            rw [hd] at h
            exact nomatch h
          · intro h
            rw [hseq] at h
            exact nomatch h
      | true =>
          simp only [triggerWith, hp, hseq, hd, Bool.not_true, Bool.false_and,
            Bool.false_eq_true, if_false, if_true]
          have hsafe : TriggerSafe admin p q ↔ UpdateSafe p.dynamics q ∧
              (UpdateAccepted p.dynamics q → ¬ EndpointReady admin p →
                SameRange p.dynamics q ∧ SameRate p.dynamics q
                  ∧ SameRepeat p.dynamics q) := by
            refine ⟨fun h => h.1 hseq hd, fun h => ⟨fun _ _ => h, ?_⟩⟩
            intro h'
            rw [hseq] at h'
            exact nomatch h'
          rw [hsafe]
          have hup := updateTriggering_unchanged_iff p.dynamics q
          have hacc := updateTriggering_accepted (d := p.dynamics) (q := q)
          have heq := updateTriggering_accepted_eq_iff (d := p.dynamics) (q := q)
          generalize p.dynamics.updateTriggering q = r at hup hacc heq
          obtain ⟨ok, d⟩ := r
          cases ok with
          | true =>
              refine (dispatch_unchanged_iff admin p d (Or.inr rfl)).trans ?_
              have hA := hacc.mp rfl
              refine ⟨?_, ?_⟩
              · intro h
                exact ⟨hup.mp (fun h => nomatch h), fun _ hnot => (heq hA).mp (h hnot)⟩
              · rintro ⟨_, h⟩ hnot
                exact (heq hA).mpr (h hA hnot)
          | false =>
              have hnA : ¬ UpdateAccepted p.dynamics q := fun h => nomatch hacc.mpr h
              refine ⟨?_, ?_⟩
              · intro h
                refine ⟨hup.mp (fun _ => ?_), fun hA => (hnA hA).elim⟩
                have h400 : Rejected 400 := Or.inr (by decide)
                exact (provision_eq_iff p d).mp (h h400)
              · rintro ⟨h, _⟩ _
                exact (provision_eq_iff p d).mpr (hup.mpr h rfl)

/-- **A REJECTED TRIGGER CHANGES NOTHING**, exactly when the provision it reaches
    is safe from it: for every query and every administrative data, the answer
    is 2xx or the provision is left as it was, if and only if `TriggerSafe`;
    and `updateTriggering` returning false changes nothing if and only if
    `UpdateSafe`. -/
theorem rejected_trigger_unchanged_iff (admin : AdminData) (decode : String → String)
    (clientProvisionId queryParams : String) :
    let q := readQuery decode queryParams
    let r := triggerClientOperation admin decode clientProvisionId queryParams
    let found := admin.findProvision q.inState clientProvisionId
    ((Rejected r.statusCode → r.provision = found)
        ↔ ∀ p, found = some p → TriggerSafe admin p q)
      ∧ ∀ (d : Dynamics) (q : TriggerQuery),
          ((d.updateTriggering q).1 = false → (d.updateTriggering q).2 = d)
            ↔ UpdateSafe d q := by
  intro q r found
  refine ⟨?_, updateTriggering_unchanged_iff⟩
  have hr : r = triggerWith admin clientProvisionId q := rfl
  cases hp : found with
  | none =>
      have hp' : admin.findProvision q.inState clientProvisionId = none := hp
      refine ⟨fun _ _ => (nomatch ·), ?_⟩
      intro _ _
      rw [hr]
      simp only [triggerWith, hp']
      split
      · rfl
      · rfl
  | some p =>
      have hiff := triggerWith_unchanged_iff admin clientProvisionId q hp
      rw [hr]
      refine hiff.trans ⟨?_, fun h => h p rfl⟩
      intro h p' hp'
      rw [← Option.some.inj hp']
      exact h

/-- One provision, at the third value of its range, with a permitted endpoint. -/
def sampleAdmin : AdminData where
  findProvision inState id :=
    if inState = "initial" ∧ id = "flow" then
      some ⟨"myEndpoint", ⟨3, 1, 10, 2, false, true⟩⟩
    else none
  findEndpoint id := if id = "myEndpoint" then some true else none

/-- A range that is taken over before the rate beside it is rejected. -/
theorem rejected_rate_moves_range :
    ¬ (let r := triggerClientOperation sampleAdmin id "flow" "sequenceBegin=5&cps=fast"
      Rejected r.statusCode →
        r.provision = sampleAdmin.findProvision "initial" "flow") := by
  intro h
  have hrej : Rejected
      (triggerClientOperation sampleAdmin id "flow" "sequenceBegin=5&cps=fast").statusCode := by
    refine Or.inr ?_
    decide +kernel
  exact absurd (h hrej) (by decide +kernel)

/-! ## The ticks of a range -/

/-- What happens to a provision while its range is walked: a tick of its timer,
    with whether the callback could dispatch, or a trigger that only has a
    rate (`0` pauses, anything else resumes or changes the rate). -/
inductive TickEvent where
  | tick (dispatched : Bool)
  | rate (cps : String)

/-- A trigger with nothing but a rate. -/
def rateQuery (cps : String) : TriggerQuery := ⟨"initial", "", "", "", cps, ""⟩

/-- A walk: the dynamics, the values the successful callbacks read, in order,
    and whether the range was exhausted. -/
structure Walk where
  dynamics : Dynamics
  observed : List Int
  exhausted : Bool

/-- One event of a walk. -/
def Walk.step (w : Walk) : TickEvent → Walk
  | .tick dispatched =>
      let r := w.dynamics.tick dispatched
      ⟨r.dynamics, w.observed ++ r.observed.toList, w.exhausted || r.exhausted⟩
  | .rate cps =>
      match w.dynamics.updateTriggering (rateQuery cps) with
      | (true, d) => { w with dynamics := d.applyRate }
      | (false, _) => w

/-- The walk an accepted trigger begins. -/
def Walk.begin (d : Dynamics) (q : TriggerQuery) : Walk :=
  ⟨(d.updateTriggering q).2.applyRate, [], false⟩

/-- Ticks come from a timer that is set: one that was stopped does not fire. -/
def Armed (w : Walk) : TickEvent → Prop
  | .tick _ => w.dynamics.ticking = true
  | .rate _ => True

/-- The `n`-th value of the range `b..e`, which `repeats` or ends. -/
def requested (b e : Int) (repeats : Bool) (n : Nat) : Option Int :=
  if repeats then some (b + (n : Int) % (e - b + 1))
  else if (n : Int) < e - b + 1 then some (b + n)
  else none

/-- The callbacks read the values of the range, in order, and the range is
    exhausted only when all of them were read. -/
def VisitsRange (b e : Int) (repeats : Bool) (w : Walk) : Prop :=
  (∀ n v, w.observed[n]? = some v → requested b e repeats n = some v)
    ∧ (w.exhausted = true → (w.observed.length : Int) = e - b + 1)

/-- What holds of a walk of the range that begins at `b`: nothing was read and
    the counter is at its preset, or the preset was read first. -/
structure Preset (b : Int) (w : Walk) : Prop where
  lower : w.dynamics.seqBegin = b
  rate : w.dynamics.ticking = true → w.dynamics.cps ≠ 0
  unread : w.observed = [] → w.dynamics.seq = wrapI64 (b - 1) ∧ w.exhausted = false
  first : w.observed ≠ [] → w.observed.head? = some (wrapI64 (b - 1))

theorem advance_seqBegin (d : Dynamics) : d.advance.1.seqBegin = d.seqBegin := by
  simp only [Dynamics.advance]
  split
  · split <;> rfl
  · rfl

theorem advance_rate {d : Dynamics} (h : d.ticking = true → d.cps ≠ 0) :
    d.advance.1.ticking = true → d.advance.1.cps ≠ 0 := by
  simp only [Dynamics.advance]
  split
  · split
    · exact h
    · exact fun h => nomatch h
  · exact h

/-- A tick of a set timer at a rate that is not zero. -/
theorem tick_armed {d : Dynamics} (ht : d.ticking = true) (hc : d.cps ≠ 0)
    (dispatched : Bool) :
    d.tick dispatched =
      if dispatched then ⟨d.advance.1, some d.seq, d.advance.2⟩ else ⟨d, none, false⟩ := by
  have hs : d.scheduleTick = d := by
    simp only [Dynamics.scheduleTick, ht, beq_eq_false_iff_ne.mpr hc, Bool.not_true,
      Bool.or_self, Bool.false_eq_true, if_false]
  simp only [Dynamics.tick, hs, ht]
  cases dispatched <;> rfl

@[simp] theorem scheduleTick_seqBegin (d : Dynamics) :
    d.scheduleTick.seqBegin = d.seqBegin := by
  simp only [Dynamics.scheduleTick]
  split <;> rfl

@[simp] theorem scheduleTick_seq (d : Dynamics) : d.scheduleTick.seq = d.seq := by
  simp only [Dynamics.scheduleTick]
  split <;> rfl

/-- What is still ticking once a tick is scheduled has a rate. -/
theorem scheduleTick_rate (d : Dynamics) :
    d.scheduleTick.ticking = true → d.scheduleTick.cps ≠ 0 := by
  by_cases hc : (!d.ticking || d.cps == 0) = true
  · simp only [Dynamics.scheduleTick, if_pos hc]
    exact fun h => nomatch h
  · simp only [Dynamics.scheduleTick, if_neg hc]
    intro _ h0
    exact hc (by simp [h0])

@[simp] theorem resetOutside_seqBegin (d : Dynamics) :
    d.resetOutside.seqBegin = d.seqBegin := by
  simp only [Dynamics.resetOutside]
  split <;> rfl

/-- A counter at its preset is left there by a reset. -/
theorem resetOutside_seq {d : Dynamics} (h : d.seq = wrapI64 (d.seqBegin - 1)) :
    d.resetOutside.seq = wrapI64 (d.seqBegin - 1) := by
  simp only [Dynamics.resetOutside]
  split
  · rfl
  · exact h

theorem startTicking_seqBegin (d : Dynamics) : d.startTicking.seqBegin = d.seqBegin := by
  simp only [Dynamics.startTicking, scheduleTick_seqBegin, resetOutside_seqBegin]
  rfl

theorem startTicking_rate (d : Dynamics) :
    d.startTicking.ticking = true → d.startTicking.cps ≠ 0 :=
  scheduleTick_rate _

theorem startTicking_seq {d : Dynamics} (h : d.seq = wrapI64 (d.seqBegin - 1)) :
    d.startTicking.seq = wrapI64 (d.seqBegin - 1) := by
  simp only [Dynamics.startTicking, scheduleTick_seq]
  exact resetOutside_seq (d := d.stopTicking) h

theorem applyRate_seqBegin (d : Dynamics) : d.applyRate.seqBegin = d.seqBegin := by
  simp only [Dynamics.applyRate]
  split
  · split
    · rfl
    · exact startTicking_seqBegin d
  · rfl

theorem applyRate_rate (d : Dynamics) :
    d.applyRate.ticking = true → d.applyRate.cps ≠ 0 := by
  simp only [Dynamics.applyRate]
  split
  · next hpos =>
      split
      · exact fun _ => Nat.pos_iff_ne_zero.mp hpos
      · exact startTicking_rate d
  · exact fun h => nomatch h

theorem applyRate_seq {d : Dynamics} (h : d.seq = wrapI64 (d.seqBegin - 1)) :
    d.applyRate.seq = wrapI64 (d.seqBegin - 1) := by
  simp only [Dynamics.applyRate]
  split
  · split
    · exact h
    · exact startTicking_seq h
  · exact h

/-- A trigger with only a rate leaves range and counter. -/
theorem updateTriggering_rateQuery (d : Dynamics) (cps : String) :
    (d.updateTriggering (rateQuery cps)).2.seqBegin = d.seqBegin
      ∧ (d.updateTriggering (rateQuery cps)).2.seq = d.seq := by
  rw [updateTriggering_eq]
  have hassign : ∀ b e, acceptedRange d (rateQuery cps) = some (b, e) →
      d.assignRange (rateQuery cps) b e = d := by
    intro b e hr
    refine (assignRange_eq_iff d _ b e).mpr ⟨?_, fun h => nomatch h⟩
    have hb : readBound d.seqBegin (rateQuery cps).sequenceBegin = some d.seqBegin := rfl
    have he : readBound d.seqEnd (rateQuery cps).sequenceEnd = some d.seqEnd := rfl
    simp only [acceptedRange, hb, he] at hr
    split at hr
    · exact nomatch hr
    · have := Option.some.inj hr
      exact ⟨(congrArg Prod.fst this).symm, (congrArg Prod.snd this).symm⟩
  cases hr : acceptedRange d (rateQuery cps) with
  | none => exact ⟨rfl, rfl⟩
  | some p =>
      obtain ⟨b, e⟩ := p
      have hd := hassign b e hr
      simp only [hd]
      cases readRate d.cps (rateQuery cps).cps with
      | none => exact ⟨rfl, rfl⟩
      | some rate =>
          cases readRepeat d.repeat_ (rateQuery cps).repeat_ with
          | none => exact ⟨rfl, rfl⟩
          | some flag => exact ⟨rfl, rfl⟩

/-- **STEP LEMMA**: an event of an armed walk keeps the preset first. -/
theorem step_preset {b : Int} {w : Walk} {e : TickEvent} (hw : Preset b w)
    (ha : Armed w e) : Preset b (w.step e) := by
  cases e with
  | tick dispatched =>
      have hc := hw.rate ha
      simp only [Walk.step, tick_armed ha hc]
      cases dispatched with
      | false =>
          simp only [Bool.false_eq_true, if_false, Option.toList_none, List.append_nil,
            Bool.or_false]
          exact hw
      | true =>
          simp only [if_true, Option.toList_some]
          refine ⟨(advance_seqBegin _).trans hw.lower, advance_rate (fun _ => hc), ?_, ?_⟩
          · intro h
            exact (List.append_ne_nil_of_right_ne_nil _ (List.cons_ne_nil _ _) h).elim
          · intro _
            by_cases hnil : w.observed = []
            · rw [hnil]
              exact congrArg some (hw.unread hnil).1
            · show (w.observed ++ [w.dynamics.seq]).head? = _
              rw [List.head?_append_of_ne_nil _ hnil]
              exact hw.first hnil
  | rate cps =>
      obtain ⟨h1, h2⟩ := updateTriggering_rateQuery w.dynamics cps
      simp only [Walk.step]
      generalize w.dynamics.updateTriggering (rateQuery cps) = r at h1 h2
      obtain ⟨ok, d⟩ := r
      cases ok with
      | false => exact hw
      | true =>
          have hb : d.seqBegin = b := h1.trans hw.lower
          refine ⟨(applyRate_seqBegin d).trans hb, applyRate_rate d, ?_, hw.first⟩
          intro hnil
          obtain ⟨hseq, hex⟩ := hw.unread hnil
          refine ⟨?_, hex⟩
          rw [← hb]
          refine applyRate_seq ?_
          rw [hb]
          exact h2.trans hseq

/-- An accepted trigger with a range sets the preset. -/
theorem begin_preset {d : Dynamics} {q : TriggerQuery} {b : Int}
    (hb : stoll q.sequenceBegin = some b) (hok : (d.updateTriggering q).1 = true) :
    Preset b (Walk.begin d q) := by
  have hne : q.sequenceBegin.isEmpty = false := by
    by_contra hemp
    have : q.sequenceBegin = "" := by simpa using hemp
    rw [this, show stoll "" = none by decide +kernel] at hb
    exact nomatch hb
  obtain ⟨hr, hc, hf⟩ := updateTriggering_accepted.mp hok
  obtain ⟨⟨b', e'⟩, hr⟩ := Option.ne_none_iff_exists'.mp hr
  obtain ⟨rate, hc⟩ := Option.ne_none_iff_exists'.mp hc
  obtain ⟨flag, hf⟩ := Option.ne_none_iff_exists'.mp hf
  have hbb : b' = b := by
    have hread : readBound d.seqBegin q.sequenceBegin = some b := by
      simp only [readBound, hne, Bool.false_eq_true, if_false, hb]
    simp only [acceptedRange, hread] at hr
    split at hr
    · next b0 e0 h1 h2 =>
        split at hr
        · exact nomatch hr
        · have h3 := congrArg Prod.fst (Option.some.inj hr)
          exact h3.symm.trans (Option.some.inj h1).symm
    · exact nomatch hr
  subst hbb
  have hassign : (d.assignRange q b' e').seqBegin = b'
      ∧ (d.assignRange q b' e').seq = wrapI64 (b' - 1) := by
    simp only [Dynamics.assignRange, hne, Bool.not_false, Bool.true_or, if_true]
    split
    · exact ⟨rfl, rfl⟩
    · next hsame =>
        have : b' = d.seqBegin := by
          by_contra hb'
          exact hsame (Or.inl hb')
        rw [this]
        exact ⟨rfl, rfl⟩
  have hd : (d.updateTriggering q).2
      = { d.assignRange q b' e' with cps := rate, repeat_ := flag } := by
    rw [updateTriggering_eq, hr, hc, hf]
  refine ⟨?_, applyRate_rate _, ?_, fun h => (h rfl).elim⟩
  · show (d.updateTriggering q).2.applyRate.seqBegin = b'
    rw [applyRate_seqBegin, hd]
    exact hassign.1
  · intro _
    refine ⟨?_, rfl⟩
    show (d.updateTriggering q).2.applyRate.seq = wrapI64 (b' - 1)
    rw [hd]
    have hpre : ({ d.assignRange q b' e' with cps := rate, repeat_ := flag }
        : Dynamics).seq = wrapI64 (({ d.assignRange q b' e' with
          cps := rate, repeat_ := flag } : Dynamics).seqBegin - 1) := by
      show (d.assignRange q b' e').seq = wrapI64 ((d.assignRange q b' e').seqBegin - 1)
      rw [hassign.1, hassign.2]
    rw [applyRate_seq hpre]
    show wrapI64 ((d.assignRange q b' e').seqBegin - 1) = _
    rw [hassign.1]

theorem wrap_pred_ne (b : Int) : wrapI64 (b - 1) ≠ b := by
  simp only [wrapI64]
  omega

/-- **THE WALK STARTS BELOW THE RANGE**: for every range `b ≤ e`, rate, repeat
    flag and state of the provision, along every run of ticks (dispatched or
    congested), pauses and resumes, the callbacks visit the requested range
    only as long as none of them has succeeded: the first value read is
    `b - 1`, not `b`. -/
theorem ticks_start_below_range (d : Dynamics) (q : TriggerQuery) {b e : Int}
    (hb : stoll q.sequenceBegin = some b) (_he : stoll q.sequenceEnd = some e)
    (hle : b ≤ e) (hok : (d.updateTriggering q).1 = true)
    (events : List TickEvent) (harmed : AllSteps Walk.step Armed (Walk.begin d q) events) :
    let w := run Walk.step (Walk.begin d q) events
    (VisitsRange b e (d.updateTriggering q).2.repeat_ w ↔ w.observed = [])
      ∧ (w.observed ≠ [] → w.observed.head? = some (wrapI64 (b - 1))) := by
  intro w
  have hw : Preset b w :=
    run_invariant_of (fun _ _ hI hA => step_preset hI hA) events _
      (begin_preset hb hok) harmed
  refine ⟨⟨?_, ?_⟩, hw.first⟩
  · rintro ⟨hvis, _⟩
    by_contra hne
    have hfirst := hw.first hne
    rw [List.head?_eq_getElem?] at hfirst
    have hreq := hvis 0 _ hfirst
    have hzero : requested b e (d.updateTriggering q).2.repeat_ 0 = some b := by
      simp only [requested]
      split
      · simp
      · rw [if_pos (by omega)]
        simp
    rw [hzero] at hreq
    exact wrap_pred_ne b (Option.some.inj hreq).symm
  · intro hnil
    refine ⟨?_, ?_⟩
    · intro n v hv
      rw [hnil] at hv
      exact nomatch hv
    · intro hex
      rw [(hw.unread hnil).2] at hex
      exact nomatch hex

/-- A provision as it is loaded, and a trigger of the range 1 to 3. -/
def idle : Dynamics := ⟨0, 0, 0, 0, false, false⟩

def oneToThree : TriggerQuery := ⟨"initial", "", "1", "3", "1", ""⟩

/-- A walk with a congested tick, a pause and a resume. -/
theorem paused_walk_starts_below :
    AllSteps Walk.step Armed (Walk.begin idle oneToThree)
        [.tick false, .tick true, .rate "0", .rate "2", .tick true]
      ∧ (run Walk.step (Walk.begin idle oneToThree)
          [.tick false, .tick true, .rate "0", .rate "2", .tick true]).observed.head?
        = some (wrapI64 (1 - 1)) := by
  have harmed : AllSteps Walk.step Armed (Walk.begin idle oneToThree)
      [.tick false, .tick true, .rate "0", .rate "2", .tick true] := by
    refine ⟨?_, ?_, True.intro, True.intro, ?_, True.intro⟩ <;>
      simp only [Armed] <;> decide +kernel
  refine ⟨harmed, ?_⟩
  exact (ticks_start_below_range idle oneToThree (b := 1) (e := 3) (by decide +kernel)
    (by decide +kernel) (by decide) (by decide +kernel) _ harmed).2 (by decide +kernel)

/-- The range 1 to 3 is read as 0, 1, 2, 3 before the ticking stops. -/
theorem one_to_three_reads_zero :
    (run Walk.step (Walk.begin idle oneToThree)
        [.tick true, .tick true, .tick true, .tick true]).observed = [0, 1, 2, 3]
      ∧ ¬ VisitsRange 1 3 false (run Walk.step (Walk.begin idle oneToThree)
        [.tick true, .tick true, .tick true, .tick true]) := by
  refine ⟨by decide +kernel, ?_⟩
  rintro ⟨hvis, _⟩
  have h0 := hvis 0 0 (by decide +kernel)
  exact absurd h0 (by decide)

end H2Trigger
