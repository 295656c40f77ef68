import H2agent.ClientEndpointProofs
import H2agent.ClientProvisionProofs
import H2agent.TrafficServerProofs
import H2agent.TriggeringProofs

/-! # Client flows

    `MyAdminHttp2Server::sendClientRequest` and what calls it: triggers of the
    administrative interface, triggers of the traffic server, timer ticks, and the
    responses of earlier requests, which continue a chain.

    The closures are explicit.  A call of `sendClientRequest` keeps pointers to a provision
    and to an endpoint, and so does the timer of a provision; both objects live on when the
    maps drop them.  A call goes through three steps: it transforms the
    provision into a request, it takes its numbers and sends, and it handles the
    response.  Between them, other calls, timers and the administrator take theirs. -/

namespace H2ClientFlow

open CppText H2ClientProvision H2Convert H2Endpoint H2Key H2Source H2Store H2Target H2Traffic
open H2Transformation H2Trigger JsonValue StepRun

/-! ## Provisions -/

/-- What `load` keeps of a document.  The schema of client provisions admits no `#` in the
    name of an endpoint. -/
structure ProvisionDocument where
  clientProvisionId : String
  clientEndpointId : String
  loaded : H2ClientProvision.AdminClientProvision
  hashFree : '#' ∉ clientEndpointId.toList

/-- `getKey`. -/
def ProvisionDocument.key (doc : ProvisionDocument) : String :=
  calculateStringKey doc.loaded.inState doc.clientProvisionId ""

/-- `AdminClientProvision` as an object: what was loaded, its dynamics, and the state and
    the endpoint its timer calls back with.  A timer that was started once can still have
    a tick under way. -/
structure ProvisionObject extends ProvisionDocument where
  dynamics : Dynamics := ⟨0, 0, 0, 0, false, false⟩
  tickInState : String := ""
  tickEndpoint : Nat := 0
  armed : Bool := false

namespace ProvisionObject

/-- An object nobody has loaded. -/
def blank : ProvisionObject where
  clientProvisionId := ""
  clientEndpointId := ""
  loaded := { outState := "", requestMethod := "", requestUri := "" }
  hashFree := List.not_mem_nil

/-- The provision at its current sequence. -/
def current (p : ProvisionObject) : H2ClientProvision.AdminClientProvision :=
  { p.loaded with seq := p.dynamics.seq }

/-- The sequence a call with an argument works with: a negative one stands for the
    counter. -/
def sequenceFor (p : ProvisionObject) (seq : Int) : Int :=
  if seq ≥ 0 then seq else p.dynamics.seq

end ProvisionObject

/-- `AdminClientProvisionData`: the objects made so far, and which of them is registered
    under a key. -/
structure ProvisionData where
  map : TextMap Nat
  objects : Nat → ProvisionObject
  made : Nat

namespace ProvisionData

def empty : ProvisionData := ⟨∅, fun _ => .blank, 0⟩

/-- `find`, as a pointer. -/
def find (d : ProvisionData) (inState clientProvisionId : String) : Option Nat :=
  d.map.lookup (calculateStringKey inState clientProvisionId "")

/-- The insertion at the end of `loadSingle`. -/
def add (d : ProvisionData) (doc : ProvisionDocument) : ProvisionData where
  map := d.map.insert doc.key d.made
  objects := Function.update d.objects d.made { toProvisionDocument := doc }
  made := d.made + 1

/-- Change the dynamics of an object. -/
def setDynamics (d : ProvisionData) (p : Nat) (dynamics : Dynamics) : ProvisionData :=
  { d with objects := Function.update d.objects p { d.objects p with dynamics := dynamics } }

@[simp] theorem setDynamics_self (d : ProvisionData) (p : Nat) (dynamics : Dynamics) :
    (d.setDynamics p dynamics).objects p = { d.objects p with dynamics := dynamics } :=
  Function.update_self ..

theorem setDynamics_ne (d : ProvisionData) {p q : Nat} (h : q ≠ p) (dynamics : Dynamics) :
    (d.setDynamics p dynamics).objects q = d.objects q :=
  Function.update_of_ne h ..

end ProvisionData

/-! ## Calls and requests -/

/-- The arguments of `sendClientRequest`.  `captured` remembers the number the call was
    made for, when it was made for one. -/
structure Call where
  provision : Nat
  inState : String
  endpoint : Nat
  seq : Int := -1
  chainVariables : TextMap String := ∅
  purgeKeys : Option (List (DataKey × Nat)) := none
  captured : Option Int := none

/-- What `transform` built. -/
structure Request where
  requestMethod : String
  requestUri : String
  requestBody : String
  requestHeaders : HeaderMap
  requestDelayMs : Nat
  requestTimeoutMs : Nat
  outState : String

/-- The request of a transformed state. -/
def Request.of (out : ClientState) : Request where
  requestMethod := out.requestMethod
  requestUri := out.requestUri
  requestBody := out.requestBody.text
  requestHeaders := out.requestHeaders
  requestDelayMs := out.requestDelayMs
  requestTimeoutMs := out.requestTimeoutMs
  outState := out.outState

/-- What the response handler captures of the moment of sending. -/
structure Sending where
  clientProvisionId : String
  clientEndpointId : String
  sendSeq : Nat
  provisionSeq : Int

/-- Where a chain stands. -/
inductive Stage where
  | entered (c : Call)
  | built (c : Call) (r : Request)
  | sent (c : Call) (r : Request) (m : Sending)

/-- The call of a stage. -/
def Stage.call : Stage → Call
  | .entered c | .built c _ | .sent c _ _ => c

/-- The key an event is stored under. -/
def dataKeyOf (r : Request) (m : Sending) : DataKey :=
  DataKey.ofClient m.clientEndpointId r.requestMethod r.requestUri

/-- `Http2Client::response`. -/
structure Response extends ReceivedResponse where
  sendingUs : Nat := 0
  receptionUs : Nat := 0

/-- `MockEvent::load` and `MockClientEvent::load`. -/
def mockClientEvent (lib : Lib) (inState state : String) (r : Request) (m : Sending)
    (response : Response) : MockEvent :=
  let requestBody := DataPart.decode lib { str := r.requestBody } r.requestHeaders
  let responseBody := (DataPart.decode lib { str := response.body } response.headers).json
  let fields := putIf (!inState.isEmpty) "previousState" (.str inState) []
  let fields := putIf (!state.isEmpty) "state" (.str state) fields
  let fields := putIf true "receptionTimestampUs" (.uint response.receptionUs) fields
  let fields := putIf true "responseStatusCode" (.int response.statusCode) fields
  let fields := putIf (!r.requestHeaders.isEmpty) "requestHeaders"
    (headersObject r.requestHeaders) fields
  let fields := putIf (!response.headers.isEmpty) "responseHeaders"
    (headersObject response.headers) fields
  let fields := putIf true "clientProvisionId" (.str m.clientProvisionId) fields
  let fields := putIf true "sendingTimestampUs" (.uint response.sendingUs) fields
  let fields := putIf (!requestBody.str.isEmpty) "requestBody" requestBody.json fields
  let fields := putIf (!responseBody.empty) "responseBody" responseBody fields
  let fields := putIf true "sendseq" (.uint m.sendSeq) fields
  let fields := putIf true "sequence" (.int m.provisionSeq) fields
  let fields := putIf true "requestDelayMs" (.uint r.requestDelayMs) fields
  let fields := putIf true "timeoutMs" (.uint r.requestTimeoutMs) fields
  ⟨state, m.sendSeq, .obj fields⟩

/-- The loop over the purge keys. -/
def purgeAll (d : MockClientData MockEvent) (keys : List (DataKey × Nat)) :
    MockClientData MockEvent :=
  keys.foldl (fun d k => (MockClientData.removeEventBySendSeq d k.1 k.2).2) d

/-! ## The state -/

/-- The administrative server: its modes, its registries, the stores, the ticks whose
    handler has not advanced the counter yet, and the chains.  `stored` remembers what a
    chain stored, `executions` the number each execution was for and the one it
    used. -/
structure Flow where
  clientData : Bool := true
  clientDataKeyHistory : Bool := true
  purgeExecution : Bool := true
  provisions : ProvisionData := .empty
  endpoints : AdminClientEndpointData := .empty
  world : World := World.blank
  advancing : List Nat := []
  chains : Nat → Option Stage := fun _ => none
  spawned : Nat := 0
  stored : Nat → List (String × Nat) := fun _ => []
  executions : List (Option Int × Int) := []

namespace Flow

variable (s : Flow)

/-- The administrative data a trigger reads. -/
def adminData : AdminData where
  findProvision inState clientProvisionId :=
    (s.provisions.find inState clientProvisionId).map (fun p =>
      ⟨(s.provisions.objects p).clientEndpointId, (s.provisions.objects p).dynamics⟩)
  findEndpoint id := (s.endpoints.find id).map AdminClientEndpoint.permit

/-- Move a chain. -/
def setChain (j : Nat) (stage : Option Stage) : Flow :=
  { s with chains := Function.update s.chains j stage }

/-- A call of `sendClientRequest` that begins a chain. -/
def enter (c : Call) : Flow :=
  { s.setChain s.spawned (some (.entered c)) with spawned := s.spawned + 1 }

/-- Note an execution. -/
def note (captured : Option Int) (used : Int) : Flow :=
  { s with executions := s.executions ++ [(captured, used)] }

/-! ## Triggers and ticks -/

/-- The number a single request is made for; without a text it is 0. -/
def requested (q : TriggerQuery) : Option Int :=
  if q.sequence.isEmpty then some 0 else stoll q.sequence

/-- What a trigger leaves of the provision it found.  A timer that is started calls back
    with the state and the endpoint of this trigger. -/
def triggered (p : ProvisionObject) (dynamics : Dynamics) (inState : String) (endpoint : Nat) :
    ProvisionObject :=
  if dynamics.ticking && !p.dynamics.ticking then
    { p with
      dynamics := dynamics, tickInState := inState, tickEndpoint := endpoint, armed := true }
  else { p with dynamics := dynamics }

/-- `triggerClientOperation`. -/
def triggerClientOperation (clientProvisionId : String) (q : TriggerQuery) : Flow :=
  match s.provisions.find q.inState clientProvisionId,
      (triggerWith s.adminData clientProvisionId q).provision with
  | some p, some after =>
      let endpoint := (s.endpoints.pointer (s.provisions.objects p).clientEndpointId).getD 0
      let t := { s with
        provisions := { s.provisions with
          objects := Function.update s.provisions.objects p
            (triggered (s.provisions.objects p) after.dynamics q.inState endpoint) } }
      if (triggerWith s.adminData clientProvisionId q).sent then
        t.enter
          { provision := p, inState := q.inState, endpoint := endpoint, captured := requested q }
      else t
  | _, _ => s

/-- `triggerClientProvision`, which the traffic server calls. -/
def triggerClientProvision (clientProvisionId inState : String) : Flow :=
  match s.provisions.find inState clientProvisionId with
  | none => s
  | some p =>
      match s.endpoints.pointer (s.provisions.objects p).clientEndpointId with
      | none => s
      | some e =>
          if (s.endpoints.objects e).permit then
            s.enter { provision := p, inState := inState, endpoint := e }
          else s

/-- The handler of a tick up to its callback, which reads the counter before it posts. -/
def tick (p : Nat) (dispatched : Bool) : Flow :=
  let object := s.provisions.objects p
  let d := object.dynamics.scheduleTick
  let t := { s with provisions := s.provisions.setDynamics p d }
  if !object.armed then s
  else if !d.ticking then { t with advancing := p :: t.advancing }
  else if dispatched then
    { t.enter
        { provision := p, inState := object.tickInState, endpoint := object.tickEndpoint,
          seq := d.seq, captured := some d.seq } with
      advancing := p :: t.advancing }
  else t

/-- The end of the handler. -/
def advance (p : Nat) : Flow :=
  if s.advancing.contains p then
    { s with
      advancing := s.advancing.erase p
      provisions :=
        s.provisions.setDynamics p (s.provisions.objects p).dynamics.advance.1 }
  else s

/-! ## `sendClientRequest` -/

/-- The purge keys, which the first call of a chain makes when purges are enabled. -/
def purgeKeysFor (c : Call) : Option (List (DataKey × Nat)) :=
  if s.purgeExecution && c.purgeKeys.isNone then some [] else c.purgeKeys

/-- `sendClientRequest` up to the end of `transform`.  A request with an error is not
    sent. -/
def build (env : Env) (j : Nat) (c : Call) : Except Fault Flow :=
  let object := s.provisions.objects c.provision
  match object.current.transform env c.seq { s.world with vars := c.chainVariables } with
  | .error e => .error e
  | .ok (out, error) =>
      let t := { s.note c.captured (object.sequenceFor c.seq) with world := out.world }
      if error.isSome then .ok (t.setChain j none)
      else .ok (t.setChain j (some (.built
        { c with chainVariables := out.world.vars, purgeKeys := s.purgeKeysFor c }
        (Request.of out))))

/-- What the moment of sending captures. -/
def sending (c : Call) : Sending where
  clientProvisionId := (s.provisions.objects c.provision).clientProvisionId
  clientEndpointId := (s.provisions.objects c.provision).clientEndpointId
  sendSeq := (s.endpoints.objects c.endpoint).incrementSendSeq.1
  provisionSeq := (s.provisions.objects c.provision).sequenceFor c.seq

/-- `sendClientRequest` from there to the end of `asyncSend`. -/
def send (j : Nat) (c : Call) (r : Request) : Flow :=
  { (s.note c.captured (s.sending c).provisionSeq).setChain j (some (.sent c r (s.sending c))) with
    endpoints := s.endpoints.modify c.endpoint
      (s.endpoints.objects c.endpoint).incrementSendSeq.2 rfl }

/-! ## The response handler -/

/-- The transformations on the response, by the provision found now: the validation, the
    out-state, and the world left. -/
def respond (env : Env) (c : Call) (r : Request) (m : Sending) (response : Response) :
    Except Fault (Bool × String × World) :=
  match s.provisions.find c.inState m.clientProvisionId with
  | none => .ok (true, r.outState, { s.world with vars := c.chainVariables })
  | some p =>
      (s.provisions.objects p).current.transformResponse env r.requestUri r.requestHeaders
        response.toReceivedResponse m.sendSeq r.outState m.provisionSeq
        { s.world with vars := c.chainVariables }

/-- Note the executions of the response handler. -/
def noteResponse (c : Call) (m : Sending) : Flow :=
  match s.provisions.find c.inState m.clientProvisionId with
  | none => s
  | some p => s.note c.captured ((s.provisions.objects p).sequenceFor m.provisionSeq)

/-- The storage of the event. -/
def store (lib : Lib) (j : Nat) (c : Call) (r : Request) (m : Sending) (response : Response)
    (outState : String) : Flow :=
  if s.clientData then
    { s.note c.captured m.provisionSeq with
      world := { s.world with
        clientEvents := MockClientData.loadEvent s.world.clientEvents (dataKeyOf r m)
          (mockClientEvent lib c.inState outState r m response) s.clientDataKeyHistory }
      stored := Function.update s.stored j
        (s.stored j ++ [((dataKeyOf r m).getKey, m.sendSeq)]) }
  else s

/-- The purge keys behind the storage. -/
def keysAfter (c : Call) (r : Request) (m : Sending) : Option (List (DataKey × Nat)) :=
  if s.clientData then c.purgeKeys.map (· ++ [(dataKeyOf r m, m.sendSeq)]) else c.purgeKeys

/-- The purge of a chain: its keys, and the current event in any case. -/
def purge (keys : Option (List (DataKey × Nat))) (r : Request) (m : Sending) : Flow :=
  { s with world := { s.world with
      clientEvents := purgeAll s.world.clientEvents
        (keys.getD [] ++ [(dataKeyOf r m, m.sendSeq)]) } }

/-- The next call of a chain: the provision of the new state, and the endpoint of the
    call before. -/
def nextCall (c : Call) (m : Sending) (outState : String) (vars : TextMap String)
    (keys : Option (List (DataKey × Nat))) (p : Nat) : Call where
  provision := p
  inState := outState
  endpoint := c.endpoint
  seq := m.provisionSeq
  chainVariables := vars
  purgeKeys := keys
  captured := c.captured

/-- The continuation of a chain in a new state. -/
def progress (j : Nat) (c : Call) (m : Sending) (outState : String)
    (keys : Option (List (DataKey × Nat))) : Flow :=
  if !outState.isEmpty && outState != c.inState then
    match s.provisions.find outState m.clientProvisionId with
    | none => s.setChain j none
    | some p =>
        { s.setChain j (some (.entered (nextCall c m outState s.world.vars keys p))) with
          provisions := s.provisions.setDynamics p
            { (s.provisions.objects p).dynamics with seq := m.provisionSeq } }
  else s.setChain j none

/-- The response handler behind the transformations. -/
def conclude (lib : Lib) (j : Nat) (c : Call) (r : Request) (m : Sending) (response : Response)
    (valid : Bool) (outState : String) : Flow :=
  if response.statusCode ≤ 0 then s.setChain j none
  else
    let t := s.store lib j c r m response outState
    if !valid then t.setChain j none
    else if s.purgeExecution && outState == "purge" then
      (t.purge (s.keysAfter c r m) r m).setChain j none
    else t.progress j c m outState (s.keysAfter c r m)

/-- The response handler. -/
def complete (env : Env) (j : Nat) (c : Call) (r : Request) (m : Sending) (response : Response) :
    Except Fault Flow :=
  match s.respond env c r m response with
  | .error e => .error e
  | .ok (valid, outState, w) =>
      .ok ({ s.noteResponse c m with world := w }.conclude env.lib j c r m response valid outState)

end Flow

/-! ## Runs -/

/-- What happens.  The outside is as each call finds it; other components change every part
    of the world but the client events. -/
inductive Act where
  | triggerClientOperation (clientProvisionId : String) (q : TriggerQuery)
  | triggerClientProvision (clientProvisionId inState : String)
  | tick (p : Nat) (dispatched : Bool)
  | advance (p : Nat)
  | transform (j : Nat) (env : Env)
  | send (j : Nat)
  | response (j : Nat) (env : Env) (response : Response)
  | loadEndpoint (doc : EndpointDocument)
  | clearEndpoints
  | loadProvision (doc : ProvisionDocument)
  | clearProvisions
  | clearEvents (ekey : EventKey)
  | configure (clientData clientDataKeyHistory purgeExecution : Bool)
  | disturb (w : World)

/-- One act; a fault ends the run. -/
def act (s : Flow) : Act → Except Fault Flow
  | .triggerClientOperation clientProvisionId q =>
      .ok (s.triggerClientOperation clientProvisionId q)
  | .triggerClientProvision clientProvisionId inState =>
      .ok (s.triggerClientProvision clientProvisionId inState)
  | .tick p dispatched => .ok (s.tick p dispatched)
  | .advance p => .ok (s.advance p)
  | .transform j env =>
      match s.chains j with
      | some (.entered c) => s.build env j c
      | _ => .ok s
  | .send j =>
      match s.chains j with
      | some (.built c r) => .ok (s.send j c r)
      | _ => .ok s
  | .response j env response =>
      match s.chains j with
      | some (.sent c r m) => s.complete env j c r m response
      | _ => .ok s
  | .loadEndpoint doc =>
      .ok (if doc.accepted then { s with endpoints := (s.endpoints.put doc).2 } else s)
  | .clearEndpoints => .ok { s with endpoints := s.endpoints.clear }
  | .loadProvision doc => .ok { s with provisions := s.provisions.add doc }
  | .clearProvisions => .ok { s with provisions := { s.provisions with map := ∅ } }
  | .clearEvents ekey =>
      .ok { s with world := { s.world with
        clientEvents := (MockData.clear s.world.clientEvents ekey).2.2 } }
  | .configure clientData clientDataKeyHistory purgeExecution =>
      .ok { s with
        clientData := clientData
        clientDataKeyHistory := clientDataKeyHistory
        purgeExecution := purgeExecution }
  | .disturb w => .ok { s with world := { w with clientEvents := s.world.clientEvents } }

/-! ## What brings a chain to a stage -/

/-- The call a timer makes. -/
def tickCall (s : Flow) (p : Nat) : Call where
  provision := p
  inState := (s.provisions.objects p).tickInState
  endpoint := (s.provisions.objects p).tickEndpoint
  seq := (s.provisions.objects p).dynamics.seq
  captured := some (s.provisions.objects p).dynamics.seq

/-- The chain goes on behind the response, in a state and with a provision. -/
structure GoesOn (s : Flow) (env : Env) (c : Call) (r : Request) (m : Sending)
    (response : Response) (outState : String) (w : World) (p : Nat) : Prop where
  responded : s.respond env c r m response = .ok (true, outState, w)
  answered : 0 < response.statusCode
  kept : (s.purgeExecution && outState == "purge") = false
  found : s.provisions.find outState m.clientProvisionId = some p

/-- The acts that bring a chain to a stage. -/
inductive Brings (s : Flow) : Act → Nat → Stage → Prop where
  | operation {clientProvisionId : String} {q : TriggerQuery} {p : Nat} {after : Provision}
      (found : s.provisions.find q.inState clientProvisionId = some p)
      (updated : (triggerWith s.adminData clientProvisionId q).provision = some after)
      (sent : (triggerWith s.adminData clientProvisionId q).sent = true) :
      Brings s (.triggerClientOperation clientProvisionId q) s.spawned
        (.entered
          { provision := p, inState := q.inState,
            endpoint := (s.endpoints.pointer (s.provisions.objects p).clientEndpointId).getD 0,
            captured := Flow.requested q })
  | provision {clientProvisionId inState : String} {p e : Nat}
      (found : s.provisions.find inState clientProvisionId = some p)
      (registered : s.endpoints.pointer (s.provisions.objects p).clientEndpointId = some e)
      (permitted : (s.endpoints.objects e).permit = true) :
      Brings s (.triggerClientProvision clientProvisionId inState) s.spawned
        (.entered { provision := p, inState := inState, endpoint := e })
  | tick {p : Nat} (ticking : (s.provisions.objects p).dynamics.ticking = true) :
      Brings s (.tick p true) s.spawned (.entered (tickCall s p))
  | transform {j : Nat} {env : Env} {c : Call} {out : ClientState}
      (entered : s.chains j = some (.entered c))
      (built : (s.provisions.objects c.provision).current.transform env c.seq
        { s.world with vars := c.chainVariables } = .ok (out, none)) :
      Brings s (.transform j env) j (.built
        { c with chainVariables := out.world.vars, purgeKeys := s.purgeKeysFor c }
        (Request.of out))
  | send {j : Nat} {c : Call} {r : Request} (built : s.chains j = some (.built c r)) :
      Brings s (.send j) j (.sent c r (s.sending c))
  | response {j : Nat} {env : Env} {c : Call} {r : Request} {m : Sending} {response : Response}
      {outState : String} {w : World} {p : Nat} (sent : s.chains j = some (.sent c r m))
      (on : GoesOn s env c r m response outState w p) :
      Brings s (.response j env response) j (.entered
        (Flow.nextCall c m outState w.vars (s.keysAfter c r m) p))

namespace Flow

variable {s t : Flow} {j i : Nat} {stage : Stage}

theorem update_chains {chains : Nat → Option Stage} {next : Option Stage}
    (h : Function.update chains i next j = some stage) :
    chains j = some stage ∨ (j = i ∧ next = some stage) := by
  by_cases hji : j = i
  · rw [hji, Function.update_self] at h
    exact .inr ⟨hji, h⟩
  · rw [Function.update_of_ne hji] at h
    exact .inl h

theorem setChain_chains {next : Option Stage} (h : (s.setChain i next).chains j = some stage) :
    s.chains j = some stage ∨ (j = i ∧ next = some stage) :=
  update_chains h

theorem enter_chains {c : Call} (h : (s.enter c).chains j = some stage) :
    s.chains j = some stage ∨ (j = s.spawned ∧ stage = .entered c) := by
  rcases setChain_chains (s := s) h with h | ⟨hj, h⟩
  · exact .inl h
  · injection h with h
    exact .inr ⟨hj, h.symm⟩

theorem operation_chains {clientProvisionId : String} {q : TriggerQuery}
    (h : (s.triggerClientOperation clientProvisionId q).chains j = some stage) :
    s.chains j = some stage
      ∨ Brings s (.triggerClientOperation clientProvisionId q) j stage := by
  simp only [triggerClientOperation] at h
  split at h
  · next p after hp hafter =>
      split at h
      · next hsent =>
          rcases enter_chains h with h | ⟨rfl, rfl⟩
          · exact .inl h
          · exact .inr (.operation hp hafter hsent)
      · exact .inl h
  · exact .inl h

theorem provision_chains {clientProvisionId inState : String}
    (h : (s.triggerClientProvision clientProvisionId inState).chains j = some stage) :
    s.chains j = some stage
      ∨ Brings s (.triggerClientProvision clientProvisionId inState) j stage := by
  simp only [triggerClientProvision] at h
  split at h
  · exact .inl h
  · next p hp =>
      split at h
      · exact .inl h
      · next e he =>
          split at h
          · next hpermit =>
              rcases enter_chains h with h | ⟨rfl, rfl⟩
              · exact .inl h
              · exact .inr (.provision hp he hpermit)
          · exact .inl h

/-- Without a timer, or at rate zero, the ticking stops; otherwise nothing changes. -/
theorem scheduleTick_ticking {d : Dynamics} (h : d.scheduleTick.ticking = true) :
    d.ticking = true ∧ d.scheduleTick = d := by
  simp only [Dynamics.scheduleTick] at h ⊢
  split at h
  · cases h
  · next hon =>
      rw [if_neg hon]
      exact ⟨h, rfl⟩

theorem tick_chains {p : Nat} {dispatched : Bool}
    (h : (s.tick p dispatched).chains j = some stage) :
    s.chains j = some stage ∨ Brings s (.tick p dispatched) j stage := by
  simp only [tick] at h
  split at h
  · exact .inl h
  · split at h
    · exact .inl h
    · next hticking =>
        split at h
        · next hdispatched =>
            simp only [Bool.not_eq_true', Bool.not_eq_false] at hticking
            obtain ⟨hon, hsame⟩ := scheduleTick_ticking hticking
            subst hdispatched
            rcases enter_chains h with h | ⟨rfl, rfl⟩
            · exact .inl h
            · rw [hsame]
              exact .inr (.tick hon)
        · exact .inl h

theorem build_chains {env : Env} {c : Call} (hc : s.chains i = some (.entered c))
    (h : s.build env i c = .ok t) (hj : t.chains j = some stage) :
    s.chains j = some stage ∨ Brings s (.transform i env) j stage := by
  simp only [build] at h
  split at h
  · cases h
  · next out error hbuilt =>
      split at h
      · cases h
        rcases setChain_chains hj with hj | ⟨-, hj⟩
        · exact .inl hj
        · cases hj
      · next herror =>
          cases h
          simp only [setChain, note] at hj
          rcases update_chains hj with hold | ⟨rfl, hnew⟩
          · exact .inl hold
          · injection hnew with hnew
            subst hnew
            cases error with
            | none => exact .inr (.transform hc hbuilt)
            | some e => exact (herror rfl).elim

theorem send_chains {c : Call} {r : Request} (hc : s.chains i = some (.built c r))
    (hj : (s.send i c r).chains j = some stage) :
    s.chains j = some stage ∨ Brings s (.send i) j stage := by
  simp only [send, setChain, note] at hj
  rcases update_chains hj with hold | ⟨rfl, hnew⟩
  · exact .inl hold
  · injection hnew with hnew
    subst hnew
    exact .inr (.send hc)

/-- What `noteResponse` leaves alone. -/
theorem noteResponse_eq (s : Flow) (c : Call) (m : Sending) :
    ∃ executions, s.noteResponse c m = { s with executions := executions } := by
  simp only [noteResponse]
  split
  · exact ⟨s.executions, rfl⟩
  · exact ⟨_, rfl⟩

theorem store_chains (lib : Lib) (c : Call) (r : Request) (m : Sending) (response : Response)
    (outState : String) : (s.store lib i c r m response outState).chains = s.chains := by
  simp only [store]
  split
  · rfl
  · rfl

theorem store_provisions (lib : Lib) (c : Call) (r : Request) (m : Sending) (response : Response)
    (outState : String) : (s.store lib i c r m response outState).provisions = s.provisions := by
  simp only [store]
  split
  · rfl
  · rfl

theorem store_vars (lib : Lib) (c : Call) (r : Request) (m : Sending) (response : Response)
    (outState : String) :
    (s.store lib i c r m response outState).world.vars = s.world.vars := by
  simp only [store]
  split
  · rfl
  · rfl

theorem progress_chains {c : Call} {m : Sending} {outState : String}
    {keys : Option (List (DataKey × Nat))}
    (h : (s.progress i c m outState keys).chains j = some stage) :
    s.chains j = some stage
      ∨ ∃ p, s.provisions.find outState m.clientProvisionId = some p ∧ j = i
          ∧ stage = .entered (nextCall c m outState s.world.vars keys p) := by
  simp only [progress] at h
  split at h
  · split at h
    · rcases setChain_chains h with h | ⟨-, h⟩
      · exact .inl h
      · cases h
    · next p hp =>
        rcases setChain_chains (s := s) h with h | ⟨hj, h⟩
        · exact .inl h
        · cases h
          exact .inr ⟨p, hp, hj, rfl⟩
  · rcases setChain_chains h with h | ⟨-, h⟩
    · exact .inl h
    · cases h

theorem conclude_chains {lib : Lib} {c : Call} {r : Request} {m : Sending} {response : Response}
    {valid : Bool} {outState : String}
    (h : (s.conclude lib i c r m response valid outState).chains j = some stage) :
    s.chains j = some stage
      ∨ ∃ p, 0 < response.statusCode ∧ valid = true
          ∧ (s.purgeExecution && outState == "purge") = false
          ∧ s.provisions.find outState m.clientProvisionId = some p ∧ j = i
          ∧ stage = .entered (nextCall c m outState s.world.vars (s.keysAfter c r m) p) := by
  simp only [conclude] at h
  split at h
  · rcases setChain_chains h with h | ⟨-, h⟩
    · exact .inl h
    · cases h
  · next hstatus =>
      split at h
      · rcases setChain_chains h with h | ⟨-, h⟩
        · rw [store_chains] at h
          exact .inl h
        · cases h
      · next hvalid =>
          split at h
          · rcases setChain_chains h with h | ⟨-, h⟩
            · simp only [purge] at h
              rw [store_chains] at h
              exact .inl h
            · cases h
          · next hpurge =>
              rcases progress_chains h with h | ⟨p, hp, hj, hstage⟩
              · rw [store_chains] at h
                exact .inl h
              · rw [store_provisions] at hp
                rw [store_vars] at hstage
                refine .inr ⟨p, by omega, ?_, Bool.eq_false_iff.mpr hpurge, hp, hj, hstage⟩
                simpa using hvalid

theorem complete_chains {env : Env} {c : Call} {r : Request} {m : Sending} {response : Response}
    (hc : s.chains i = some (.sent c r m)) (h : s.complete env i c r m response = .ok t)
    (hj : t.chains j = some stage) :
    s.chains j = some stage ∨ Brings s (.response i env response) j stage := by
  simp only [complete] at h
  split at h
  · cases h
  · next valid outState w hresponded =>
      cases h
      obtain ⟨executions, hnote⟩ := noteResponse_eq s c m
      rw [hnote] at hj
      rcases conclude_chains hj with hj | ⟨p, hstatus, rfl, hkept, hp, rfl, rfl⟩
      · exact .inl hj
      · exact .inr (.response hc ⟨hresponded, hstatus, hkept, hp⟩)

end Flow

/-- **WHAT BRINGS A CHAIN TO A STAGE**: behind an act it stands where it stood, or where
    this act can bring it. -/
theorem act_chains {s t : Flow} {a : Act} (h : act s a = .ok t) {j : Nat} {stage : Stage}
    (hj : t.chains j = some stage) : s.chains j = some stage ∨ Brings s a j stage := by
  cases a with
  | triggerClientOperation clientProvisionId q =>
      cases h
      exact Flow.operation_chains hj
  | triggerClientProvision clientProvisionId inState =>
      cases h
      exact Flow.provision_chains hj
  | tick p dispatched =>
      cases h
      exact Flow.tick_chains hj
  | advance p =>
      cases h
      simp only [Flow.advance] at hj
      split at hj <;> exact .inl hj
  | transform i env =>
      simp only [act] at h
      split at h
      · next c hc => exact Flow.build_chains hc h hj
      · cases h
        exact .inl hj
  | send i =>
      simp only [act] at h
      split at h
      · next c r hc =>
          cases h
          exact Flow.send_chains hc hj
      · cases h
        exact .inl hj
  | response i env response =>
      simp only [act] at h
      split at h
      · next c r m hc => exact Flow.complete_chains hc h hj
      · cases h
        exact .inl hj
  | loadEndpoint doc =>
      cases h
      split at hj <;> exact .inl hj
  | clearEndpoints | loadProvision | clearProvisions | clearEvents | configure | disturb =>
      cases h
      exact .inl hj

/-! ## What else an act changes -/

/-- A transformation, unless no call of the chain waits for it. -/
theorem act_transform {s t : Flow} {j : Nat} {env : Env} (h : act s (.transform j env) = .ok t) :
    ((∀ c, s.chains j ≠ some (.entered c)) ∧ t = s)
      ∨ ∃ c out error stage, s.chains j = some (.entered c)
          ∧ (s.provisions.objects c.provision).current.transform env c.seq
              { s.world with vars := c.chainVariables } = .ok (out, error)
          ∧ t = { s.note c.captured ((s.provisions.objects c.provision).sequenceFor c.seq) with
              world := out.world }.setChain j stage := by
  simp only [act] at h
  split at h
  · next c hc =>
      simp only [Flow.build] at h
      split at h
      · cases h
      · next out error hbuilt =>
          split at h <;> cases h <;> exact .inr ⟨c, out, error, _, hc, hbuilt, rfl⟩
  · next hnot =>
      cases h
      exact .inl ⟨hnot, rfl⟩

/-- A sending, unless no request of the chain waits for it. -/
theorem act_send {s t : Flow} {j : Nat} (h : act s (.send j) = .ok t) :
    ((∀ c r, s.chains j ≠ some (.built c r)) ∧ t = s)
      ∨ ∃ c r, s.chains j = some (.built c r) ∧ t = s.send j c r := by
  simp only [act] at h
  split at h
  · next c r hc =>
      cases h
      exact .inr ⟨c, r, hc, rfl⟩
  · next hnot =>
      cases h
      exact .inl ⟨hnot, rfl⟩

/-- A response, unless no request of the chain waits for it. -/
theorem act_response {s t : Flow} {j : Nat} {env : Env} {response : Response}
    (h : act s (.response j env response) = .ok t) :
    ((∀ c r m, s.chains j ≠ some (.sent c r m)) ∧ t = s)
      ∨ ∃ c r m valid outState w, s.chains j = some (.sent c r m)
          ∧ s.respond env c r m response = .ok (valid, outState, w)
          ∧ t = { s.noteResponse c m with world := w }.conclude env.lib j c r m response valid
              outState := by
  simp only [act] at h
  split at h
  · next c r m hc =>
      simp only [Flow.complete] at h
      split at h
      · cases h
      · next valid outState w hresponded =>
          cases h
          exact .inr ⟨c, r, m, valid, outState, w, hc, hresponded, rfl⟩
  · next hnot =>
      cases h
      exact .inl ⟨hnot, rfl⟩

/-- A response moves its chain on, or ends it. -/
theorem conclude_self (s : Flow) (lib : Lib) (j : Nat) (c : Call) (r : Request) (m : Sending)
    (response : Response) (valid : Bool) (outState : String) :
    (s.conclude lib j c r m response valid outState).chains j = none
      ∨ ∃ c', (s.conclude lib j c r m response valid outState).chains j = some (.entered c') := by
  have hended : ∀ t : Flow, (t.setChain j none).chains j = none :=
    fun t => Function.update_self ..
  simp only [Flow.conclude]
  split
  · exact .inl (hended _)
  · split
    · exact .inl (hended _)
    · split
      · exact .inl (hended _)
      · simp only [Flow.progress]
        split
        · split
          · exact .inl (hended _)
          · exact .inr ⟨_, Function.update_self ..⟩
        · exact .inl (hended _)

theorem response_self {s t : Flow} {j : Nat} {env : Env} {response : Response} {c : Call}
    {r : Request} {m : Sending} (hj : s.chains j = some (.sent c r m))
    (h : act s (.response j env response) = .ok t) {c' : Call} {r' : Request} {m' : Sending} :
    t.chains j ≠ some (.sent c' r' m') := by
  intro hsent
  rcases act_response h with ⟨hnot, -⟩ | ⟨c₀, r₀, m₀, valid, outState, w, -, -, rfl⟩
  · exact hnot c r m hj
  · rcases conclude_self { s.noteResponse c₀ m₀ with world := w } env.lib j c₀ r₀ m₀ response valid
        outState with hnone | ⟨c'', hentered⟩
    · rw [hnone] at hsent
      cases hsent
    · rw [hentered] at hsent
      cases hsent

/-- What triggers, ticks and the end of a response leave alone. -/
structure Kept (s t : Flow) : Prop where
  endpoints : t.endpoints = s.endpoints
  stored : t.stored = s.stored
  executions : t.executions = s.executions
  spawned : s.spawned ≤ t.spawned

theorem Kept.refl (s : Flow) : Kept s s := ⟨rfl, rfl, rfl, Nat.le_refl _⟩

/-- The acts that make calls, and the end of a tick. -/
def Act.Schedules : Act → Prop
  | .triggerClientOperation .. | .triggerClientProvision .. | .tick .. | .advance .. => True
  | _ => False

/-- They only enter chains and change provisions. -/
theorem act_schedules {s t : Flow} {a : Act} (h : act s a = .ok t) (ha : a.Schedules) :
    Kept s t ∧ t.world = s.world := by
  have hentered : Kept s s ∧ s.world = s.world := ⟨.refl s, rfl⟩
  have hnext := Nat.le_succ s.spawned
  cases a with
  | triggerClientOperation clientProvisionId q =>
      cases h
      simp only [Flow.triggerClientOperation]
      split
      · split
        · exact ⟨⟨rfl, rfl, rfl, hnext⟩, rfl⟩
        · exact ⟨⟨rfl, rfl, rfl, Nat.le_refl _⟩, rfl⟩
      · exact hentered
  | triggerClientProvision clientProvisionId inState =>
      cases h
      simp only [Flow.triggerClientProvision]
      split
      · exact hentered
      · split
        · exact hentered
        · split
          · exact ⟨⟨rfl, rfl, rfl, hnext⟩, rfl⟩
          · exact hentered
  | tick p dispatched =>
      cases h
      simp only [Flow.tick]
      split
      · exact hentered
      · split
        · exact ⟨⟨rfl, rfl, rfl, Nat.le_refl _⟩, rfl⟩
        · split
          · exact ⟨⟨rfl, rfl, rfl, hnext⟩, rfl⟩
          · exact ⟨⟨rfl, rfl, rfl, Nat.le_refl _⟩, rfl⟩
  | advance p =>
      cases h
      simp only [Flow.advance]
      split
      · exact ⟨⟨rfl, rfl, rfl, Nat.le_refl _⟩, rfl⟩
      · exact hentered
  | transform | send | response | loadEndpoint | clearEndpoints | loadProvision
  | clearProvisions | clearEvents | configure | disturb => exact ha.elim

/-- The response handler behind the storage. -/
theorem conclude_kept (s : Flow) (lib : Lib) (j : Nat) (c : Call) (r : Request) (m : Sending)
    (response : Response) (valid : Bool) (outState : String) :
    Kept (if response.statusCode ≤ 0 then s else s.store lib j c r m response outState)
      (s.conclude lib j c r m response valid outState) := by
  simp only [Flow.conclude]
  split
  · exact ⟨rfl, rfl, rfl, Nat.le_refl _⟩
  · split
    · exact ⟨rfl, rfl, rfl, Nat.le_refl _⟩
    · split
      · exact ⟨rfl, rfl, rfl, Nat.le_refl _⟩
      · simp only [Flow.progress]
        split
        · split <;> exact ⟨rfl, rfl, rfl, Nat.le_refl _⟩
        · exact ⟨rfl, rfl, rfl, Nat.le_refl _⟩

/-- The storage itself. -/
theorem store_eq (s : Flow) (lib : Lib) (j : Nat) (c : Call) (r : Request) (m : Sending)
    (response : Response) (outState : String) :
    ∃ world stored executions, s.store lib j c r m response outState
      = { s with world := world, stored := stored, executions := executions } := by
  simp only [Flow.store]
  split
  · exact ⟨_, _, _, rfl⟩
  · exact ⟨_, _, _, rfl⟩

theorem response_kept {s t : Flow} {j : Nat} {env : Env} {response : Response}
    (h : act s (.response j env response) = .ok t) :
    t.endpoints = s.endpoints ∧ s.spawned ≤ t.spawned := by
  rcases act_response h with ⟨-, rfl⟩ | ⟨c, r, m, valid, outState, w, -, -, rfl⟩
  · exact ⟨rfl, Nat.le_refl _⟩
  · obtain ⟨executions, hnote⟩ := Flow.noteResponse_eq s c m
    rw [hnote]
    have hkept := conclude_kept { s with executions := executions, world := w } env.lib j c r m
      response valid outState
    split at hkept
    · exact ⟨hkept.endpoints, hkept.spawned⟩
    · obtain ⟨world, stored, executions', hstore⟩ :=
        store_eq { s with executions := executions, world := w } env.lib j c r m response outState
      rw [hstore] at hkept
      exact ⟨hkept.endpoints, hkept.spawned⟩

/-- Chains are never forgotten. -/
theorem act_spawned {s t : Flow} {a : Act} (h : act s a = .ok t) : s.spawned ≤ t.spawned := by
  cases a with
  | triggerClientOperation | triggerClientProvision | tick | advance =>
      exact (act_schedules h True.intro).1.spawned
  | transform j env =>
      rcases act_transform h with ⟨-, rfl⟩ | ⟨c, out, error, stage, -, -, rfl⟩
      · exact Nat.le_refl _
      · exact Nat.le_refl _
  | send j =>
      rcases act_send h with ⟨-, rfl⟩ | ⟨c, r, -, rfl⟩
      · exact Nat.le_refl _
      · exact Nat.le_refl _
  | response j env response => exact (response_kept h).2
  | loadEndpoint doc =>
      cases h
      split <;> exact Nat.le_refl _
  | clearEndpoints | loadProvision | clearProvisions | clearEvents | configure | disturb =>
      cases h
      exact Nat.le_refl _

/-- The endpoints change by a document, by a deletion, or by a request that is sent. -/
theorem act_endpoints {s t : Flow} {a : Act} (h : act s a = .ok t) :
    t.endpoints = s.endpoints
      ∨ (∃ doc, a = .loadEndpoint doc ∧ doc.accepted = true
          ∧ t = { s with endpoints := (s.endpoints.put doc).2 })
      ∨ (a = .clearEndpoints ∧ t = { s with endpoints := s.endpoints.clear })
      ∨ ∃ j c r, a = .send j ∧ s.chains j = some (.built c r) ∧ t = s.send j c r := by
  cases a with
  | triggerClientOperation | triggerClientProvision | tick | advance =>
      exact .inl (act_schedules h True.intro).1.endpoints
  | transform j env =>
      rcases act_transform h with ⟨-, rfl⟩ | ⟨c, out, error, stage, -, -, rfl⟩
      · exact .inl rfl
      · exact .inl rfl
  | send j =>
      rcases act_send h with ⟨-, rfl⟩ | ⟨c, r, hc, rfl⟩
      · exact .inl rfl
      · exact .inr (.inr (.inr ⟨j, c, r, rfl, hc, rfl⟩))
  | response j env response => exact .inl (response_kept h).1
  | loadEndpoint doc =>
      cases h
      split
      · next haccepted => exact .inr (.inl ⟨doc, rfl, haccepted, rfl⟩)
      · exact .inl rfl
  | clearEndpoints =>
      cases h
      exact .inr (.inr (.inl ⟨rfl, rfl⟩))
  | loadProvision | clearProvisions | clearEvents | configure | disturb =>
      cases h
      exact .inl rfl

end H2ClientFlow
