import H2agent.ClientEndpointProofs
import H2agent.StepRunProofs

/-! # The connections of client endpoints

    `AdminClientEndpoint::connect` keeps one client for each worker connection.  A
    client is made for the host, port and secure values of that moment and keeps
    them.  A load connects at once, anew when one of the three has changed, unless
    connections are lazy; and every request calls `connect` with its defaults, which
    makes only the clients that are missing.

    The registry of endpoints is that of `H2Endpoint`; here each object also has its
    clients.  `request_address` says over every run of loads, clears and requests
    which worker a request goes through, and where that worker's client leads. -/

namespace H2Connections

open CppText H2Convert H2Endpoint JsonValue StepRun

/-! ## Clients -/

/-- What a client is made for. -/
structure Address where
  host : String
  port : Int
  secure : Bool
  deriving DecidableEq, Repr

/-- The address an endpoint has now. -/
def addressOf (e : AdminClientEndpoint) : Address := ⟨e.host, e.port, e.secure⟩

/-- `client_`, `clients_` and `num_workers_`; a missing client is a null pointer. -/
structure Connections where
  client : Option Address := none
  clients : List (Option Address) := []
  numWorkers : Nat := 1

/-- The loop over the first `n` workers: only missing clients are made. -/
def fillClients (address : Address) : Nat → List (Option Address) → List (Option Address)
  | 0, l => l
  | _ + 1, [] => []
  | n + 1, client :: l => some (client.getD address) :: fillClients address n l

/-- `connect`. -/
def connect (c : Connections) (address : Address) (fromScratch : Bool) (numWorkers : Nat) :
    Connections :=
  let client := if fromScratch then none else c.client
  let clients := if fromScratch then [] else c.clients
  let asked := if numWorkers > 1 then numWorkers else c.numWorkers
  let workers := if asked < 1 then 1 else asked
  let sized :=
    if clients.length < workers then clients ++ List.replicate (workers - clients.length) none
    else clients
  let filled := fillClients address workers sized
  { client := match filled with
      | [] => client
      | first :: _ => first
    clients := filled
    numWorkers := workers }

/-- `getNumWorkers`. -/
def getNumWorkers (c : Connections) : Nat :=
  if c.clients.isEmpty then (if c.client.isSome then 1 else 0) else c.clients.length

/-- `getClient`. -/
def getClient (c : Connections) (workerIndex : Nat) : Option Address :=
  if workerIndex < c.clients.length then (c.clients.getD workerIndex none) else c.client

/-- All workers have a client for one address. -/
structure Full (workers : Nat) (address : Address) (c : Connections) : Prop where
  positive : 0 < workers
  clients : c.clients = List.replicate workers (some address)
  numWorkers : c.numWorkers = workers

theorem fillClients_none (address : Address) (n : Nat) :
    fillClients address n (List.replicate n none) = List.replicate n (some address) := by
  induction n with
  | zero => rfl
  | succ n ih => simp [List.replicate_succ, fillClients, ih]

/-- Clients that are there stay what they are. -/
theorem fillClients_some (address other : Address) (n : Nat) :
    fillClients address n (List.replicate n (some other)) = List.replicate n (some other) := by
  induction n with
  | zero => rfl
  | succ n ih => simp [List.replicate_succ, fillClients, ih]

/-- How many workers a number of connections asks for. -/
def workersFor (numWorkers : Nat) : Nat := if numWorkers > 1 then numWorkers else 1

theorem workersFor_pos (numWorkers : Nat) : 0 < workersFor numWorkers := by
  unfold workersFor
  split <;> omega

/-- The first connection, and every one from scratch that asks for the workers there are. -/
theorem connect_fresh {c : Connections} (address : Address) (fromScratch : Bool)
    (numWorkers : Nat) (hclients : fromScratch = true ∨ c.clients = [])
    (hworkers : numWorkers > 1 ∨ c.numWorkers = 1) :
    Full (workersFor numWorkers) address (connect c address fromScratch numWorkers) := by
  have hnone : (if fromScratch then [] else c.clients) = [] := by
    rcases hclients with h | h
    · rw [h]
      rfl
    · rw [h]
      exact ite_self []
  have hasked : (if numWorkers > 1 then numWorkers else c.numWorkers) = workersFor numWorkers := by
    unfold workersFor
    split
    · rfl
    · exact hworkers.resolve_left ‹_›
  have hpos := workersFor_pos numWorkers
  refine ⟨hpos, ?_, ?_⟩
  · simp only [connect, hnone, hasked]
    rw [if_neg (by omega), if_pos (by simpa using hpos)]
    simpa using fillClients_none address (workersFor numWorkers)
  · simp only [connect, hasked]
    rw [if_neg (by omega)]

/-- With all clients there, a request's `connect` changes nothing. -/
theorem connect_full {workers : Nat} {other : Address} {c : Connections}
    (h : Full workers other c) (address : Address) :
    Full workers other (connect c address false 1) := by
  have hpos := h.positive
  refine ⟨hpos, ?_, ?_⟩
  · simp [connect, h.clients, h.numWorkers, Nat.not_lt.mpr hpos, fillClients_some]
  · simp [connect, h.numWorkers, Nat.not_lt.mpr hpos]

/-- The worker a request goes through, and the client it finds there. -/
theorem Full.getClient {workers : Nat} {address : Address} {c : Connections}
    (h : Full workers address c) (sendSeq : Nat) :
    getNumWorkers c = workers
      ∧ getClient c (sendSeq % workers) = some address := by
  have hne : c.clients.isEmpty = false := by
    rw [h.clients]
    cases hw : workers with
    | zero => exact absurd h.positive (by omega)
    | succ n => rfl
  have hlt : sendSeq % workers < workers := Nat.mod_lt _ h.positive
  constructor
  · rw [getNumWorkers, hne, h.clients, List.length_replicate]
    rfl
  · simp [H2Connections.getClient, h.clients, hlt]

/-! ## The registry with its connections -/

/-- `lazy_client_connection_` and `traffic_client_connections_`. -/
structure Configuration where
  lazyClientConnection : Bool
  trafficClientConnections : Nat

/-- The workers of an endpoint: requests alone ask for one. -/
def Configuration.workers (cfg : Configuration) : Nat :=
  if cfg.lazyClientConnection then 1 else workersFor cfg.trafficClientConnections

/-- A request that was handed to a client: the endpoint object, its send sequence, the
    worker, the address of that worker's client, and the address of the endpoint then. -/
structure Sent where
  endpoint : Nat
  sendSeq : Nat
  workerIndex : Nat
  client : Option Address
  current : Address

structure Endpoints where
  data : AdminClientEndpointData
  connections : Nat → Connections
  sent : List Sent

def start : Endpoints := ⟨AdminClientEndpointData.empty, fun _ => {}, []⟩

section Steps

variable (cfg : Configuration) (valid : Json → Bool) (lib : Lib) (s : Endpoints)

def connectObject (p : Nat) (address : Address) (fromScratch : Bool) (numWorkers : Nat) :
    Endpoints :=
  { s with
    connections :=
      Function.update s.connections p (connect (s.connections p) address fromScratch numWorkers) }

/-- The part of `loadSingle` behind the checks: what `put` does, and the connection of a
    new endpoint or of one whose address has changed. -/
def put (doc : EndpointDocument) : LoadResult × Endpoints :=
  let done := { s with data := (s.data.put doc).2 }
  let address : Address := ⟨doc.host, doc.port, doc.secure⟩
  match s.data.pointer doc.id, (s.data.put doc).1 with
  | some p, .Accepted =>
      (.Accepted,
        if cfg.lazyClientConnection then done
        else connectObject done p address true cfg.trafficClientConnections)
  | none, result =>
      (result,
        if cfg.lazyClientConnection then done
        else connectObject done s.data.made address false cfg.trafficClientConnections)
  | some _, result => (result, done)

/-- `loadSingle`: the result, or the exception that leaves it, and what is there then. -/
def loadSingle (j : Json) : Except Fault LoadResult × Endpoints :=
  if !valid j then (.ok .BadSchema, s)
  else
    match readDocument lib j with
    | .error e => (.error e, s)
    | .ok doc =>
        if doc.accepted then (.ok (put cfg s doc).1, (put cfg s doc).2) else (.ok .BadContent, s)

/-- The loop over an array ends at the first document that is bad or throws. -/
def loadEach : List Json → Endpoints → Endpoints
  | [], s => s
  | j :: js, s =>
      match loadSingle cfg valid lib s j with
      | (.ok .Success, s) => loadEach js s
      | (.ok .Accepted, s) => loadEach js s
      | (_, s) => s

def load (j : Json) : Endpoints :=
  match j with
  | .arr js => loadEach cfg valid lib js s
  | j => (loadSingle cfg valid lib s j).2

/-- The part of `sendClientRequest` from `connect` to the client; the endpoint is the one
    the chain holds, registered or not. -/
def send (p : Nat) : Endpoints :=
  let endpoint := s.data.objects p
  let connected := connectObject s p (addressOf endpoint) false 1
  let sendSeq := endpoint.incrementSendSeq.1
  let numWorkers := getNumWorkers (connected.connections p)
  let workerIndex := if numWorkers > 1 then sendSeq % numWorkers else 0
  { connected with
    data := s.data.modify p endpoint.incrementSendSeq.2 rfl
    sent := s.sent ++ [⟨p, sendSeq, workerIndex,
      getClient (connected.connections p) workerIndex, addressOf endpoint⟩] }

end Steps

inductive Act where
  | load (j : Json)
  | clear
  | send (p : Nat)

/-- One step; a request has an endpoint object. -/
def step (cfg : Configuration) (valid : Json → Bool) (lib : Lib) (s : Endpoints) : Act → Endpoints
  | .load j => load cfg valid lib s j
  | .clear => { s with data := s.data.clear }
  | .send p => if p < s.data.made then send s p else s

/-! ## The invariant -/

/-- The address an endpoint had when the first request went through it. -/
def firstOf (sent : List Sent) (p : Nat) : Option Address :=
  (sent.find? (fun e => e.endpoint = p)).map Sent.current

/-- The address a request should go to, in terms of the endpoint alone. -/
def expected (cfg : Configuration) (sent : List Sent) (e : Sent) : Option Address :=
  if cfg.lazyClientConnection then firstOf sent e.endpoint else some e.current

theorem firstOf_append_of_some {sent more : List Sent} {p : Nat} {a : Address}
    (h : firstOf sent p = some a) : firstOf (sent ++ more) p = some a := by
  unfold firstOf at h ⊢
  rw [List.find?_append]
  cases hf : sent.find? (fun e => e.endpoint = p) with
  | none => rw [hf] at h; cases h
  | some e =>
      rw [hf] at h
      exact h

/-- The clients of an endpoint object, by the mode of connection. -/
def Linked (cfg : Configuration) (s : Endpoints) (p : Nat) : Prop :=
  if cfg.lazyClientConnection then
    match firstOf s.sent p with
    | none => s.connections p = {}
    | some address => Full 1 address (s.connections p)
  else Full cfg.workers (addressOf (s.data.objects p)) (s.connections p)

structure Connected (cfg : Configuration) (s : Endpoints) : Prop where
  linked : ∀ p < s.data.made, Linked cfg s p
  unused : ∀ p, s.data.made ≤ p → s.connections p = {} ∧ firstOf s.sent p = none
  routed : ∀ e ∈ s.sent, e.workerIndex = e.sendSeq % cfg.workers
    ∧ e.client = expected cfg s.sent e ∧ e.client.isSome = true

/-- The invariant in the mode in which loads connect. -/
theorem linked_eager {cfg : Configuration} (h : cfg.lazyClientConnection = false) (s : Endpoints)
    (p : Nat) : Linked cfg s p
      ↔ Full (workersFor cfg.trafficClientConnections) (addressOf (s.data.objects p))
          (s.connections p) := by
  simp [Linked, Configuration.workers, h]

/-- The invariant in the lazy mode is about the requests and the clients alone. -/
theorem linked_lazy {cfg : Configuration} (h : cfg.lazyClientConnection = true) (s : Endpoints)
    (p : Nat) : Linked cfg s p
      ↔ (firstOf s.sent p = none ∧ s.connections p = {})
        ∨ ∃ address, firstOf s.sent p = some address ∧ Full 1 address (s.connections p) := by
  rw [Linked, if_pos h]
  cases firstOf s.sent p with
  | none => simp
  | some address => simp

theorem connected_start (cfg : Configuration) : Connected cfg start where
  linked p h := absurd h (Nat.not_lt_zero p)
  unused p _ := ⟨rfl, rfl⟩
  routed e h := by cases h

/-! ## Loads -/

/-- What an accepted document does to the registry. -/
theorem data_put_cases (d : AdminClientEndpointData) (doc : EndpointDocument) :
    (d.pointer doc.id = none ∧ d.put doc = (.Success, d.add (AdminClientEndpoint.assign {} doc)))
    ∨ ∃ p, d.pointer doc.id = some p
      ∧ (d.put doc = (.Success, d)
        ∨ ∃ hkey, d.put doc = (.Accepted, d.modify p ((d.objects p).assign doc) hkey)) := by
  simp only [AdminClientEndpointData.put]
  split
  · exact Or.inl ⟨‹_›, rfl⟩
  · next p hp =>
      have hkey : ((d.objects p).assign doc).key = (d.objects p).key := by
        rw [AdminClientEndpoint.assign_key, (d.keyed doc.id p hp).2]
      refine Or.inr ⟨p, hp, ?_⟩
      split
      · exact Or.inl rfl
      · exact Or.inr ⟨hkey, rfl⟩

section Loads

variable {cfg : Configuration} {s : Endpoints}

/-- Objects and clients beside one object stay, and the requests so far. -/
theorem Connected.update (h : Connected cfg s) {data : AdminClientEndpointData} {p : Nat}
    {c : Connections} (hp : p < data.made) (hmade : s.data.made ≤ data.made)
    (hnew : ∀ q, s.data.made ≤ q → q < data.made → q = p)
    (hobjects : ∀ q, q ≠ p → data.objects q = s.data.objects q)
    (hlinked : Linked cfg
      { s with data := data, connections := Function.update s.connections p c } p) :
    Connected cfg { s with data := data, connections := Function.update s.connections p c } where
  linked q hq := by
    by_cases hqp : q = p
    · rw [hqp]
      exact hlinked
    · have hold := h.linked q (Nat.lt_of_not_le (fun hle => hqp (hnew q hle hq)))
      cases hlazy : cfg.lazyClientConnection with
      | false =>
          rw [linked_eager hlazy] at hold ⊢
          simp only [hobjects q hqp, Function.update_of_ne hqp]
          exact hold
      | true =>
          rw [linked_lazy hlazy] at hold ⊢
          simp only [Function.update_of_ne hqp]
          exact hold
  unused q hq := by
    have hqp : q ≠ p := fun heq => Nat.lt_irrefl p (Nat.lt_of_lt_of_le hp (heq ▸ hq))
    obtain ⟨hunused, hnone⟩ := h.unused q (Nat.le_trans hmade hq)
    exact ⟨(Function.update_of_ne hqp _ _).trans hunused, hnone⟩
  routed := h.routed

/-- In the lazy mode a load leaves all clients alone. -/
theorem Connected.update_lazy (h : Connected cfg s) (hlazy : cfg.lazyClientConnection = true)
    {data : AdminClientEndpointData} (hmade : s.data.made ≤ data.made) :
    Connected cfg { s with data := data } where
  linked q hq := by
    rw [linked_lazy hlazy]
    by_cases hold : q < s.data.made
    · exact (linked_lazy hlazy s q).mp (h.linked q hold)
    · obtain ⟨hunused, hnone⟩ := h.unused q (Nat.le_of_not_lt hold)
      exact Or.inl ⟨hnone, hunused⟩
  unused q hq := h.unused q (Nat.le_trans hmade hq)
  routed := h.routed

/-- **STEP LEMMA**: an accepted document. -/
theorem Connected.put (h : Connected cfg s) (doc : EndpointDocument) :
    Connected cfg (put cfg s doc).2 := by
  rcases data_put_cases s.data doc with ⟨hnone, hput⟩ | ⟨p, hsome, hsame | ⟨hkey, hput⟩⟩
  · simp only [H2Connections.put, hnone, hput]
    cases hlazy : cfg.lazyClientConnection with
    | true => exact h.update_lazy hlazy (Nat.le_succ _)
    | false =>
        refine h.update (Nat.lt_succ_self _) (Nat.le_succ _) ?_ ?_ ?_
        · intro q hle hlt
          exact Nat.le_antisymm (Nat.le_of_lt_succ hlt) hle
        · intro q hq
          exact Function.update_of_ne hq _ _
        · rw [linked_eager hlazy]
          obtain ⟨hunused, -⟩ := h.unused s.data.made (Nat.le_refl _)
          have haddress : addressOf ((s.data.add (AdminClientEndpoint.assign {} doc)).objects
              s.data.made) = ⟨doc.host, doc.port, doc.secure⟩ := by
            simp [AdminClientEndpointData.add, addressOf, AdminClientEndpoint.assign]
          simp only [Function.update_self, haddress]
          exact connect_fresh _ false _ (Or.inr (by rw [hunused])) (Or.inr (by rw [hunused]))
  · simp only [H2Connections.put, hsome, hsame]
    exact h
  · have hp : p < s.data.made := (s.data.keyed doc.id p hsome).1
    simp only [H2Connections.put, hsome, hput]
    cases hlazy : cfg.lazyClientConnection with
    | true => exact h.update_lazy hlazy (Nat.le_refl _)
    | false =>
        refine h.update hp (Nat.le_refl _) ?_ ?_ ?_
        · intro q hle hlt
          exact absurd hlt (Nat.not_lt.mpr hle)
        · intro q hq
          exact Function.update_of_ne hq _ _
        · rw [linked_eager hlazy]
          have hold := (linked_eager hlazy s p).mp (h.linked p hp)
          have haddress : addressOf
              ((s.data.modify p ((s.data.objects p).assign doc) hkey).objects p)
              = ⟨doc.host, doc.port, doc.secure⟩ := by
            simp [AdminClientEndpointData.modify, addressOf, AdminClientEndpoint.assign]
          simp only [Function.update_self, haddress]
          refine connect_fresh _ true _ (Or.inl rfl) ?_
          have hworkers := hold.numWorkers
          unfold workersFor at hworkers
          split at hworkers
          · exact Or.inl ‹_›
          · exact Or.inr hworkers

variable (valid : Json → Bool) (lib : Lib)

theorem Connected.loadSingle (h : Connected cfg s) (j : Json) :
    Connected cfg (loadSingle cfg valid lib s j).2 := by
  simp only [H2Connections.loadSingle]
  split
  · exact h
  · split
    · exact h
    · split
      · exact h.put _
      · exact h

theorem Connected.loadEach (js : List Json) {s : Endpoints} (h : Connected cfg s) :
    Connected cfg (loadEach cfg valid lib js s) := by
  induction js generalizing s with
  | nil => exact h
  | cons j js ih =>
      have hone := h.loadSingle valid lib j
      simp only [H2Connections.loadEach]
      split
      · next hres => exact ih (by rw [hres] at hone; exact hone)
      · next hres => exact ih (by rw [hres] at hone; exact hone)
      · next hres => rw [hres] at hone; exact hone

theorem Connected.load (h : Connected cfg s) (j : Json) :
    Connected cfg (load cfg valid lib s j) := by
  unfold H2Connections.load
  split
  · exact h.loadEach valid lib _
  · exact h.loadSingle valid lib _

end Loads

/-! ## Requests -/

section Requests

variable {cfg : Configuration} {s : Endpoints}

theorem firstOf_append_other {sent : List Sent} {e : Sent} {q : Nat} (h : e.endpoint ≠ q) :
    firstOf (sent ++ [e]) q = firstOf sent q := by
  unfold firstOf
  rw [List.find?_append]
  cases sent.find? (fun e => e.endpoint = q) with
  | none => simp [h]
  | some _ => rfl

theorem firstOf_append_self {sent : List Sent} {e : Sent} (h : firstOf sent e.endpoint = none) :
    firstOf (sent ++ [e]) e.endpoint = some e.current := by
  unfold firstOf at h ⊢
  rw [List.find?_append, Option.map_eq_none_iff.mp h]
  simp

/-- Where the clients lead once the request has called `connect`. -/
theorem Connected.connects (h : Connected cfg s) {p : Nat} (hp : p < s.data.made) :
    ∃ address, Full cfg.workers address
        (connect (s.connections p) (addressOf (s.data.objects p)) false 1)
      ∧ (cfg.lazyClientConnection = false → address = addressOf (s.data.objects p))
      ∧ (cfg.lazyClientConnection = true →
          firstOf s.sent p = none ∧ address = addressOf (s.data.objects p)
            ∨ firstOf s.sent p = some address) := by
  cases hlazy : cfg.lazyClientConnection with
  | false =>
      have hold := (linked_eager hlazy s p).mp (h.linked p hp)
      have hworkers : cfg.workers = workersFor cfg.trafficClientConnections := by
        simp [Configuration.workers, hlazy]
      rw [hworkers]
      exact ⟨_, connect_full hold _, fun _ => rfl, fun hc => Bool.noConfusion hc⟩
  | true =>
      have hworkers : cfg.workers = 1 := by simp [Configuration.workers, hlazy]
      rw [hworkers]
      rcases (linked_lazy hlazy s p).mp (h.linked p hp) with
        ⟨hnone, hunused⟩ | ⟨address, hfirst, hfull⟩
      · refine ⟨addressOf (s.data.objects p), ?_, fun hc => Bool.noConfusion hc,
          fun _ => Or.inl ⟨hnone, rfl⟩⟩
        exact connect_fresh _ false 1 (Or.inr (by rw [hunused])) (Or.inr (by rw [hunused]))
      · exact ⟨address, connect_full hfull _, fun hc => Bool.noConfusion hc, fun _ => Or.inr hfirst⟩

/-- A request over full clients: its worker by the send sequence, and the address there. -/
theorem send_eq {p : Nat} {workers : Nat} {address : Address}
    (hfull : Full workers address
      (connect (s.connections p) (addressOf (s.data.objects p)) false 1)) :
    send s p =
      { data := s.data.modify p (s.data.objects p).incrementSendSeq.2 rfl
        connections := Function.update s.connections p
          (connect (s.connections p) (addressOf (s.data.objects p)) false 1)
        sent := s.sent ++ [⟨p, (s.data.objects p).incrementSendSeq.1,
          (s.data.objects p).incrementSendSeq.1 % workers, some address,
          addressOf (s.data.objects p)⟩] } := by
  obtain ⟨hworkers, hclient⟩ := hfull.getClient (s.data.objects p).incrementSendSeq.1
  have hindex : (if workers > 1 then (s.data.objects p).incrementSendSeq.1 % workers else 0)
      = (s.data.objects p).incrementSendSeq.1 % workers := by
    split
    · rfl
    · have hone : workers = 1 := by
        have hpos := hfull.positive
        omega
      rw [hone, Nat.mod_one]
  simp only [send, connectObject, Function.update_self, hworkers, hindex, hclient]

/-- **STEP LEMMA**: a request. -/
theorem Connected.send (h : Connected cfg s) {p : Nat} (hp : p < s.data.made) :
    Connected cfg (send s p) := by
  obtain ⟨address, hfull, heager, hlazyAddress⟩ := h.connects hp
  rw [send_eq hfull]
  have haddress : ∀ q, addressOf
      ((s.data.modify p (s.data.objects p).incrementSendSeq.2 rfl).objects q)
      = addressOf (s.data.objects q) := by
    intro q
    by_cases hq : q = p
    · subst hq
      simp [AdminClientEndpointData.modify, addressOf, AdminClientEndpoint.incrementSendSeq]
    · simp [AdminClientEndpointData.modify, hq]
  -- the first request through the endpoint in the lazy mode leads to its address
  have hfirst : cfg.lazyClientConnection = true →
      ∀ e : Sent, e.endpoint = p → e.current = addressOf (s.data.objects p) →
        firstOf (s.sent ++ [e]) p = some address := by
    intro hlazy e hep hcurrent
    rcases hlazyAddress hlazy with ⟨hnone, rfl⟩ | hsome
    · rw [← hep] at hnone ⊢
      rw [firstOf_append_self hnone, hcurrent]
      rw [hep]
    · exact firstOf_append_of_some hsome
  refine { linked := ?_, unused := ?_, routed := ?_ }
  · intro q hq
    by_cases hqp : q = p
    · subst hqp
      cases hlazy : cfg.lazyClientConnection with
      | false =>
          have hworkers : cfg.workers = workersFor cfg.trafficClientConnections := by
            simp [Configuration.workers, hlazy]
          rw [linked_eager hlazy, haddress q, ← hworkers, ← heager hlazy]
          simp only [Function.update_self]
          rw [heager hlazy] at hfull ⊢
          exact hfull
      | true =>
          have hworkers : cfg.workers = 1 := by simp [Configuration.workers, hlazy]
          rw [linked_lazy hlazy]
          refine Or.inr ⟨address, hfirst hlazy _ rfl rfl, ?_⟩
          simp only [Function.update_self]
          rw [hworkers] at hfull
          exact hfull
    · have hold := h.linked q hq
      cases hlazy : cfg.lazyClientConnection with
      | false =>
          rw [linked_eager hlazy] at hold ⊢
          rw [haddress q]
          simp only [Function.update_of_ne hqp]
          exact hold
      | true =>
          rw [linked_lazy hlazy] at hold ⊢
          rw [firstOf_append_other (Ne.symm hqp)]
          simp only [Function.update_of_ne hqp]
          exact hold
  · intro q hq
    have hqp : q ≠ p := fun heq => Nat.lt_irrefl p (Nat.lt_of_lt_of_le hp (heq ▸ hq))
    obtain ⟨hunused, hnone⟩ := h.unused q hq
    refine ⟨(Function.update_of_ne hqp _ _).trans hunused, ?_⟩
    rw [firstOf_append_other (Ne.symm hqp)]
    exact hnone
  · intro e he
    rcases List.mem_append.mp he with hold | hnew
    · obtain ⟨hindex, hclient, hsome⟩ := h.routed e hold
      refine ⟨hindex, ?_, hsome⟩
      cases hlazy : cfg.lazyClientConnection with
      | false =>
          simp only [expected, hlazy] at hclient ⊢
          exact hclient
      | true =>
          simp only [expected, hlazy, if_true] at hclient ⊢
          obtain ⟨first, hfirst'⟩ := Option.isSome_iff_exists.mp hsome
          rw [hfirst'] at hclient ⊢
          exact (firstOf_append_of_some hclient.symm).symm
    · rw [List.mem_singleton.mp hnew]
      refine ⟨rfl, ?_, rfl⟩
      cases hlazy : cfg.lazyClientConnection with
      | false =>
          simp only [expected, hlazy]
          rw [heager hlazy]
          rfl
      | true =>
          simp only [expected, hlazy, if_true]
          exact (hfirst hlazy _ rfl rfl).symm

end Requests

/-- **STEP LEMMA**. -/
theorem Connected.step {cfg : Configuration} {s : Endpoints} (h : Connected cfg s)
    (valid : Json → Bool) (lib : Lib) (a : Act) : Connected cfg (step cfg valid lib s a) := by
  cases a with
  | load j => exact h.load valid lib j
  | clear =>
      exact
        { linked := fun q hq => by
            cases hlazy : cfg.lazyClientConnection with
            | false =>
                rw [linked_eager hlazy]
                exact (linked_eager hlazy s q).mp (h.linked q hq)
            | true =>
                rw [linked_lazy hlazy]
                exact (linked_lazy hlazy s q).mp (h.linked q hq)
          unused := h.unused
          routed := h.routed }
  | send p =>
      simp only [H2Connections.step]
      split
      · exact h.send ‹_›
      · exact h

/-- The state at the end of a run. -/
def reached (cfg : Configuration) (valid : Json → Bool) (lib : Lib) (acts : List Act) : Endpoints :=
  run (step cfg valid lib) start acts

/-- **WHERE REQUESTS GO**: in every run of loads, clears and requests through endpoints
    that are registered or still held, no request meets a missing client; the worker is
    the send sequence modulo the number of workers, which lazy connection leaves at one;
    and the client leads to the address the endpoint has, but for lazy connection: there
    it leads to the address the endpoint had at its first request, whatever was loaded
    since. -/
theorem request_address (cfg : Configuration) (valid : Json → Bool) (lib : Lib)
    (acts : List Act) :
    ∀ e ∈ (reached cfg valid lib acts).sent,
      e.workerIndex = e.sendSeq % cfg.workers
        ∧ e.client.isSome = true
        ∧ e.client = if cfg.lazyClientConnection then
            firstOf (reached cfg valid lib acts).sent e.endpoint
          else some e.current := by
  have h : Connected cfg (reached cfg valid lib acts) :=
    run_invariant (I := Connected cfg) (fun _ a hs => hs.step valid lib a) acts _
      (connected_start cfg)
  intro e he
  obtain ⟨hindex, hclient, hsome⟩ := h.routed e he
  exact ⟨hindex, hsome, hclient⟩

/-- The document of one endpoint on some host. -/
def edge (host : String) : Json :=
  .obj [("host", .str host), ("id", .str "edge"), ("port", .uint 8000)]

/-- The second request of an endpoint that was moved in between. -/
def afterMove : Sent :=
  ⟨0, 2, 0, some ⟨"first", 8000, false⟩, ⟨"second", 8000, false⟩⟩

/-- A lazy endpoint that was moved goes on to the address of its first request. -/
theorem lazy_endpoint_stays :
    afterMove.workerIndex = 2 % 1 ∧ afterMove.client.isSome = true
      ∧ afterMove.client
        = firstOf (reached ⟨true, 4⟩ (fun _ => true) H2Transformation.idleLib
          [.load (edge "first"), .send 0, .load (edge "second"), .send 0]).sent 0 :=
  request_address ⟨true, 4⟩ (fun _ => true) H2Transformation.idleLib
    [.load (edge "first"), .send 0, .load (edge "second"), .send 0] afterMove
    (List.mem_of_getElem? (show _[1]? = some afterMove from rfl))

end H2Connections
