import H2agent.KeyedListProofs
import H2agent.StepRunProofs
import H2agent.TypeConverterProofs

/-! # Vault events on the stream connections

    `Vault::load` and `Vault::loadAtPath` store under the lock of the vault and tell
    `SseManager::notify` afterwards: what they tell can be overtaken by the events of
    later stores, and the last event of a connection is then not the value of the vault.

    The machine runs any calls in any order of their steps, while connections come and
    go.  `events_converge` says which events must not be late for the connections
    to end with the value of the vault. -/

namespace H2Sse

open CppText H2Convert H2Key JsonValue StepRun

/-! ## The machine -/

/-- The calls: the two overloads of `load`, and `loadAtPath`. -/
inductive Call where
  | load (name : String) (value : Json)
  | loadMoved (name : String) (value : Json)
  | loadAtPath (name path : String) (value : Json)

namespace Call

/-- The key of the call. -/
def key : Call → String
  | .load k _ | .loadMoved k _ | .loadAtPath k _ _ => k

/-- The store step; `false` when the path cannot be followed, which ends the call. -/
def store (vault : Vault) : Call → Vault × Bool
  | .load k value | .loadMoved k value => (vault.load k value, true)
  | .loadAtPath k path value => vault.loadAtPath k path value

theorem lookup_store_self (vault : Vault) (c : Call) :
    ((c.store vault).1.lookup c.key).isSome = true := by
  cases c with
  | load k value => simp [store, key, Vault.load]
  | loadMoved k value => simp [store, key, Vault.load]
  | loadAtPath k path value =>
      simp only [store, key, Vault.loadAtPath]
      split <;> simp

theorem lookup_store_ne (vault : Vault) (c : Call) {k : String} (hk : k ≠ c.key) :
    (c.store vault).1.lookup k = vault.lookup k := by
  cases c with
  | load k' value => exact AList.lookup_insert_ne hk
  | loadMoved k' value => exact AList.lookup_insert_ne hk
  | loadAtPath k' path value =>
      simp only [store, Vault.loadAtPath]
      split <;> exact AList.lookup_insert_ne hk

end Call

/-- Where a call stands: behind its store, with the value it will tell, behind the test
    for connections, at its end. -/
inductive CallPc where
  | start
  | stored
  | taken (value : Json)
  | formatted (value : Json)
  | done

/-- `SseManager::Connection` with the events written to it.  `joined` counts the stores
    made before it was registered. -/
structure Connection where
  id : Nat
  keys : List String
  events : List (String × Json)
  joined : Nat

namespace Connection

/-- No keys are all keys. -/
def watches (c : Connection) (key : String) : Bool := c.keys.isEmpty || c.keys.contains key

/-- The last event about a key. -/
def lastEvent (c : Connection) (key : String) : Option Json :=
  ((c.events.filter (fun e => e.1 == key)).getLast?).map (·.2)

/-- `conn.writeCb(event)`, for the connections that watch the key. -/
def write (key : String) (value : Json) (c : Connection) : Connection :=
  if c.watches key then { c with events := c.events ++ [(key, value)] } else c

@[simp] theorem watches_write (c : Connection) (key : String) (value : Json) (k : String) :
    (c.write key value).watches k = c.watches k := by
  rw [write]
  split <;> rfl

@[simp] theorem joined_write (c : Connection) (key : String) (value : Json) :
    (c.write key value).joined = c.joined := by
  rw [write]
  split <;> rfl

theorem lastEvent_write_self {c : Connection} {key : String} (h : c.watches key = true)
    (value : Json) : (c.write key value).lastEvent key = some value := by
  rw [write, if_pos h]
  simp [lastEvent]

theorem lastEvent_write_ne (c : Connection) {key k : String} (hk : k ≠ key) (value : Json) :
    (c.write key value).lastEvent k = c.lastEvent k := by
  rw [write]
  split
  · have hne : (key == k) = false := beq_false_of_ne hk.symm
    simp [lastEvent, List.filter_append, hne]
  · rfl

end Connection

/-- The vault, the connections and the calls.  `lastStore` remembers which call stored
    the value of a key, and how many stores had been made before it. -/
structure State (ι : Type) where
  vault : Vault
  connections : List Connection
  nextId : Nat
  call : ι → CallPc
  stores : Nat
  lastStore : String → Option (ι × Nat)

/-- Whose step is next. -/
inductive Act (ι : Type) where
  | store (i : ι)
  | read (i : ι)
  | check (i : ι)
  | write (i : ι)
  | addConnection (keys : List String)
  | removeConnection (id : Nat)

namespace State

variable {ι : Type}

/-- No call has begun. -/
def start (vault : Vault) : State ι where
  vault := vault
  connections := []
  nextId := 1
  call _ := .start
  stores := 0
  lastStore _ := none

section Properties

variable (s : State ι) (calls : ι → Call)

/-- A connection that watches the key has no event about it but the value of the vault
    as its last one, and has one when it was there before the last store. -/
def ConnectionConverged (key : String) (c : Connection) : Prop :=
  (∀ value, c.lastEvent key = some value → s.vault.lookup key = some value)
    ∧ ∀ i n, s.lastStore key = some (i, n) → c.joined ≤ n → (c.lastEvent key).isSome = true

/-- The last events about a key are the value of the vault. -/
def Converged (key : String) : Prop :=
  ∀ c ∈ s.connections, c.watches key = true → s.ConnectionConverged key c

/-- No call on the key is under way. -/
def Finished (key : String) : Prop :=
  ∀ i, (calls i).key = key → s.call i = .start ∨ s.call i = .done

/-- An event that watchers see is the value of the vault, unless the call that stored
    this value has its own event still ahead; a call that fails leaves the entry as it
    was. -/
def InOrder : Act ι → Prop
  | .store i => s.call i = .start → ((calls i).store s.vault).2 = false →
      ((calls i).store s.vault).1.lookup (calls i).key = s.vault.lookup (calls i).key
  | .write i => ∀ value, s.call i = .formatted value →
      (∃ c ∈ s.connections, c.watches (calls i).key = true) →
      ∀ j n, s.lastStore (calls i).key = some (j, n) → s.call j = .done →
        s.vault.lookup (calls i).key = some value
  | _ => True

end Properties

/-! ## The steps -/

section Steps

variable [DecidableEq ι] (s : State ι) (calls : ι → Call)

/-- Move a call. -/
def setCall (i : ι) (pc : CallPc) : State ι :=
  { s with call := Function.update s.call i pc }

/-- The store of a call that goes on: `load` by reference tells its argument, the others
    read the value back. -/
def stored (i : ι) : State ι :=
  { s with
    vault := ((calls i).store s.vault).1
    call := Function.update s.call i
      (match calls i with
        | .load _ value => .taken value
        | _ => .stored)
    stores := s.stores + 1
    lastStore := Function.update s.lastStore (calls i).key (some (i, s.stores)) }

/-- One step. -/
def step : Act ι → State ι
  | .store i =>
      match s.call i with
      | .start =>
          if ((calls i).store s.vault).2 then s.stored calls i
          else { s.setCall i .done with vault := ((calls i).store s.vault).1 }
      | _ => s
  | .read i =>
      match s.call i with
      | .stored => s.setCall i (.taken ((s.vault.lookup (calls i).key).getD .null))
      | _ => s
  | .check i =>
      match s.call i with
      | .taken value =>
          if s.connections.isEmpty then s.setCall i .done else s.setCall i (.formatted value)
      | _ => s
  | .write i =>
      match s.call i with
      | .formatted value =>
          { s.setCall i .done with
            connections := s.connections.map (Connection.write (calls i).key value) }
      | _ => s
  | .addConnection keys =>
      { s with
        connections := KeyedList.put Connection.id ⟨s.nextId, keys, [], s.stores⟩ s.connections
        nextId := wrapU64 (s.nextId + 1) }
  | .removeConnection id =>
      { s with connections := s.connections.filter (fun c => c.id != id) }

end Steps

/-! ## One step -/

/-- What every state of a run in order has: the call that stored last tells the value of
    the vault, and the connections have it once it is done. -/
structure Ordered (calls : ι → Call) (s : State ι) : Prop where
  key : ∀ k i n, s.lastStore k = some (i, n) → (calls i).key = k
  begun : ∀ k i n, s.lastStore k = some (i, n) → s.call i ≠ .start
  entry : ∀ k i n, s.lastStore k = some (i, n) → (s.vault.lookup k).isSome = true
  taken : ∀ k i n value, s.lastStore k = some (i, n) →
    s.call i = .taken value ∨ s.call i = .formatted value → s.vault.lookup k = some value
  converged : ∀ k i n, s.lastStore k = some (i, n) → s.call i = .done → s.Converged k
  silent : ∀ k, s.lastStore k = none → ∀ c ∈ s.connections, c.lastEvent k = none
  storedOnce : ∀ i, s.call i ≠ .start → s.call i ≠ .done →
    s.lastStore (calls i).key ≠ none
  joined : ∀ k i n, s.lastStore k = some (i, n) → n < s.stores

theorem ordered_start (calls : ι → Call) (vault : Vault) : (start vault).Ordered calls where
  key _ _ _ h := nomatch h
  begun _ _ _ h := nomatch h
  entry _ _ _ h := nomatch h
  taken _ _ _ _ h := nomatch h
  converged _ _ _ h := nomatch h
  silent _ _ _ hc := nomatch hc
  storedOnce _ h := (h rfl).elim
  joined _ _ _ h := nomatch h

/-- Where all calls on a key are done, its connections have converged. -/
theorem Ordered.converged_of_finished {calls : ι → Call} {s : State ι} (h : s.Ordered calls)
    {k : String} (hfin : s.Finished calls k) : s.Converged k := by
  cases hlast : s.lastStore k with
  | none =>
      intro c hc _
      have hsilent := h.silent k hlast c hc
      constructor
      · intro value hvalue
        rw [hsilent] at hvalue
        cases hvalue
      · intro i n hi
        rw [hlast] at hi
        cases hi
  | some last =>
      obtain ⟨i, n⟩ := last
      rcases hfin i (h.key k i n hlast) with hstart | hdone
      · exact (h.begun k i n hlast hstart).elim
      · exact h.converged k i n hlast hdone

/-- The last store of a key was not made by a call that has not begun. -/
theorem Ordered.ne_of_start {s : State ι} {calls : ι → Call} (h : s.Ordered calls) {i : ι}
    (hi : s.call i = .start) {k : String} {j : ι} {n : Nat} (hj : s.lastStore k = some (j, n)) :
    j ≠ i := by
  intro hji
  subst hji
  exact h.begun k j n hj hi

/-- Only the connections change. -/
theorem Ordered.reconnect {s : State ι} {calls : ι → Call} (h : s.Ordered calls)
    {connections : List Connection} {nextId : Nat}
    (hconv : ∀ k i n, s.lastStore k = some (i, n) → s.call i = .done →
      ∀ c ∈ connections, c.watches k = true → s.ConnectionConverged k c)
    (hsilent : ∀ k, s.lastStore k = none → ∀ c ∈ connections, c.lastEvent k = none) :
    ({ s with connections := connections, nextId := nextId } : State ι).Ordered calls where
  key := h.key
  begun := h.begun
  entry := h.entry
  taken := h.taken
  converged := hconv
  silent := hsilent
  storedOnce := h.storedOnce
  joined := h.joined

theorem Ordered.lastStore_ne_none {s : State ι} {calls : ι → Call} (h : s.Ordered calls) {i : ι}
    {pc : CallPc} (hi : s.call i = pc) (hstart : pc ≠ .start) (hdone : pc ≠ .done) :
    s.lastStore (calls i).key ≠ none := by
  subst hi
  exact h.storedOnce i hstart hdone

/-- Behind the write of the value of the vault, the watchers have converged. -/
theorem connectionConverged_write {s : State ι} {k : String} {value : Json} {c : Connection}
    (hwatch : c.watches k = true) (hvalue : s.vault.lookup k = some value) :
    s.ConnectionConverged k (c.write k value) := by
  rw [ConnectionConverged, Connection.lastEvent_write_self hwatch]
  constructor
  · intro v hv
    cases hv
    exact hvalue
  · intro _ _ _ _
    rfl

section OneStep

variable [DecidableEq ι] {s : State ι} {calls : ι → Call}

/-- A call moves, and no entry of the vault and no connection changes. -/
theorem Ordered.move (h : s.Ordered calls) {i : ι} {pc : CallPc} {vault : Vault}
    (hvault : ∀ k, vault.lookup k = s.vault.lookup k) (hpc : pc ≠ .start)
    (hstored : pc ≠ .done → s.lastStore (calls i).key ≠ none)
    (htaken : ∀ k n value, s.lastStore k = some (i, n) →
      pc = .taken value ∨ pc = .formatted value → s.vault.lookup k = some value)
    (hdone : ∀ k n, s.lastStore k = some (i, n) → pc = .done → s.Converged k) :
    ({ s.setCall i pc with vault := vault } : State ι).Ordered calls where
  key := h.key
  begun k j n hj := by
    by_cases hji : j = i
    · subst hji
      simpa only [setCall, Function.update_self] using hpc
    · simpa only [setCall, Function.update_of_ne hji] using h.begun k j n hj
  entry k j n hj := by
    rw [hvault]
    exact h.entry k j n hj
  taken k j n value hj hvalue := by
    rw [hvault]
    by_cases hji : j = i
    · subst hji
      simp only [setCall, Function.update_self] at hvalue
      exact htaken k n value hj hvalue
    · simp only [setCall, Function.update_of_ne hji] at hvalue
      exact h.taken k j n value hj hvalue
  converged k j n hj hend := by
    have hconv : s.Converged k := by
      by_cases hji : j = i
      · subst hji
        simp only [setCall, Function.update_self] at hend
        exact hdone k n hj hend
      · simp only [setCall, Function.update_of_ne hji] at hend
        exact h.converged k j n hj hend
    intro c hc hwatch
    obtain ⟨hlast, hsome⟩ := hconv c hc hwatch
    exact ⟨fun value hvalue => (hvault k).trans (hlast value hvalue), hsome⟩
  silent := h.silent
  storedOnce j hstart hend := by
    by_cases hji : j = i
    · subst hji
      simp only [setCall, Function.update_self] at hend
      exact hstored hend
    · simp only [setCall, Function.update_of_ne hji] at hstart hend
      exact h.storedOnce j hstart hend
  joined := h.joined

/-- The last store of a key is the new one, or an old one of another key. -/
theorem Ordered.lastStore_stored (h : s.Ordered calls) {i : ι} (hi : s.call i = .start) {k : String}
    {j : ι} {n : Nat} (hj : (s.stored calls i).lastStore k = some (j, n)) :
    (k = (calls i).key ∧ j = i ∧ n = s.stores)
      ∨ (k ≠ (calls i).key ∧ j ≠ i ∧ s.lastStore k = some (j, n)) := by
  by_cases hk : k = (calls i).key
  · subst hk
    simp only [State.stored, Function.update_self] at hj
    cases hj
    exact .inl ⟨rfl, rfl, rfl⟩
  · simp only [State.stored, Function.update_of_ne hk] at hj
    exact .inr ⟨hk, h.ne_of_start hi hj, hj⟩

theorem stored_call_ne {i j : ι} (hji : j ≠ i) : (s.stored calls i).call j = s.call j :=
  Function.update_of_ne hji _ _

/-- Behind its store a call has its value, or has to read it back. -/
theorem stored_call_self (s : State ι) (calls : ι → Call) (i : ι) :
    (s.stored calls i).call i = .stored
      ∨ ∃ k value, calls i = .load k value ∧ (s.stored calls i).call i = .taken value := by
  simp only [State.stored, Function.update_self]
  cases calls i with
  | load k value => exact .inr ⟨k, value, rfl, rfl⟩
  | loadMoved k value => exact .inl rfl
  | loadAtPath k path value => exact .inl rfl

theorem stored_under_way (s : State ι) (calls : ι → Call) (i : ι) :
    (s.stored calls i).call i ≠ .start ∧ (s.stored calls i).call i ≠ .done := by
  rcases stored_call_self s calls i with hpc | ⟨k, value, -, hpc⟩
  · rw [hpc]
    constructor <;> rintro ⟨⟩
  · rw [hpc]
    constructor <;> rintro ⟨⟩

/-- The value it has is the one it stored. -/
theorem stored_taken {i : ι} {value : Json}
    (hvalue : (s.stored calls i).call i = .taken value
      ∨ (s.stored calls i).call i = .formatted value) :
    (s.stored calls i).vault.lookup (calls i).key = some value := by
  rcases stored_call_self s calls i with hpc | ⟨k, stored, hload, hpc⟩
  · rw [hpc] at hvalue
    rcases hvalue with hvalue | hvalue <;> cases hvalue
  · rw [hpc] at hvalue
    rcases hvalue with hvalue | hvalue
    · cases hvalue
      show ((calls i).store s.vault).1.lookup (calls i).key = some value
      rw [hload]
      exact AList.lookup_insert s.vault
    · cases hvalue

/-- A store: its own key waits for its event, the others are as they were. -/
theorem Ordered.stored (h : s.Ordered calls) {i : ι} (hi : s.call i = .start) :
    (s.stored calls i).Ordered calls := by
  have hsame : ∀ k, k ≠ (calls i).key →
      (s.stored calls i).vault.lookup k = s.vault.lookup k :=
    fun k hk => Call.lookup_store_ne s.vault (calls i) hk
  obtain ⟨hstarted, hunfinished⟩ := stored_under_way s calls i
  constructor
  case key =>
    intro k j n hj
    rcases h.lastStore_stored hi hj with ⟨rfl, rfl, -⟩ | ⟨-, -, hold⟩
    · rfl
    · exact h.key k j n hold
  case begun =>
    intro k j n hj
    rcases h.lastStore_stored hi hj with ⟨rfl, rfl, -⟩ | ⟨-, hji, hold⟩
    · exact hstarted
    · rw [stored_call_ne hji]
      exact h.begun k j n hold
  case entry =>
    intro k j n hj
    rcases h.lastStore_stored hi hj with ⟨rfl, rfl, -⟩ | ⟨hk, -, hold⟩
    · exact Call.lookup_store_self s.vault (calls j)
    · rw [hsame k hk]
      exact h.entry k j n hold
  case taken =>
    intro k j n value hj hvalue
    rcases h.lastStore_stored hi hj with ⟨rfl, rfl, -⟩ | ⟨hk, hji, hold⟩
    · exact stored_taken hvalue
    · rw [stored_call_ne hji] at hvalue
      rw [hsame k hk]
      exact h.taken k j n value hold hvalue
  case converged =>
    intro k j n hj hdone
    rcases h.lastStore_stored hi hj with ⟨rfl, rfl, -⟩ | ⟨hk, hji, hold⟩
    · exact (hunfinished hdone).elim
    · rw [stored_call_ne hji] at hdone
      intro c hc hwatch
      obtain ⟨hlastEvent, hsome⟩ := h.converged k j n hold hdone c hc hwatch
      constructor
      · rw [hsame k hk]
        exact hlastEvent
      · intro j' n' hj'
        rcases h.lastStore_stored hi hj' with ⟨hk', -⟩ | ⟨-, -, hold'⟩
        · exact (hk hk').elim
        · exact hsome j' n' hold'
  case silent =>
    intro k hnone c hc
    by_cases hk : k = (calls i).key
    · subst hk
      simp only [State.stored, Function.update_self] at hnone
      cases hnone
    · simp only [State.stored, Function.update_of_ne hk] at hnone
      exact h.silent k hnone c hc
  case storedOnce =>
    intro j hstart hdone
    by_cases hk : (calls j).key = (calls i).key
    · simp only [State.stored, hk, Function.update_self]
      exact Option.some_ne_none _
    · have hji : j ≠ i := fun hji => hk (by rw [hji])
      rw [stored_call_ne hji] at hstart hdone
      simp only [State.stored, Function.update_of_ne hk]
      exact h.storedOnce j hstart hdone
  case joined =>
    intro k j n hj
    rcases h.lastStore_stored hi hj with ⟨-, -, rfl⟩ | ⟨-, -, hold⟩
    · exact Nat.lt_succ_self s.stores
    · exact Nat.lt_succ_of_lt (h.joined k j n hold)

/-- A call that fails and leaves the entry as it was. -/
theorem Ordered.failed (h : s.Ordered calls) {i : ι} (hi : s.call i = .start)
    (hsame : ((calls i).store s.vault).1.lookup (calls i).key
      = s.vault.lookup (calls i).key) :
    ({ s.setCall i .done with vault := ((calls i).store s.vault).1 } : State ι).Ordered calls := by
  refine h.move ?_ (fun hpc => (nomatch hpc)) (fun hpc => (hpc rfl).elim) ?_ ?_
  · intro k
    by_cases hk : k = (calls i).key
    · rw [hk]
      exact hsame
    · exact Call.lookup_store_ne s.vault (calls i) hk
  · intro k n value hlast _
    exact (h.ne_of_start hi hlast rfl).elim
  · intro k n hlast _
    exact (h.ne_of_start hi hlast rfl).elim

/-- The value is read back. -/
theorem Ordered.read (h : s.Ordered calls) {i : ι} (hi : s.call i = .stored) :
    (s.setCall i (.taken ((s.vault.lookup (calls i).key).getD .null))).Ordered calls := by
  have honce := h.lastStore_ne_none hi (fun hpc => (nomatch hpc)) (fun hpc => (nomatch hpc))
  refine h.move (fun _ => rfl) (fun hpc => (nomatch hpc)) (fun _ => honce) ?_ ?_
  · intro k n value hlast hvalue
    rcases hvalue with hvalue | hvalue
    · obtain ⟨entry, hentry⟩ := Option.isSome_iff_exists.mp (h.entry k i n hlast)
      rw [h.key k i n hlast, hentry] at hvalue
      cases hvalue
      exact hentry
    · cases hvalue
  · intro k n _ hpc
    cases hpc

/-- The test for connections: nobody is told when there are none. -/
theorem Ordered.check (h : s.Ordered calls) {i : ι} {value : Json}
    (hi : s.call i = .taken value) :
    (if s.connections.isEmpty then s.setCall i .done
      else s.setCall i (.formatted value)).Ordered calls := by
  have honce := h.lastStore_ne_none hi (fun hpc => (nomatch hpc)) (fun hpc => (nomatch hpc))
  split
  · next hempty =>
      refine h.move (fun _ => rfl) (fun hpc => (nomatch hpc)) (fun _ => honce) ?_ ?_
      · intro k n v _ hv
        rcases hv with hv | hv <;> cases hv
      · intro k n _ _ c hc
        rw [List.isEmpty_iff.mp hempty] at hc
        cases hc
  · refine h.move (fun _ => rfl) (fun hpc => (nomatch hpc)) (fun _ => honce) ?_ ?_
    · intro k n v hlast hv
      rcases hv with hv | hv
      · cases hv
      · cases hv
        exact h.taken k i n value hlast (.inl hi)
    · intro k n _ hpc
      cases hpc

/-- The events of a call. -/
theorem Ordered.write (h : s.Ordered calls) {i : ι} {value : Json}
    (hi : s.call i = .formatted value) (hc : s.InOrder calls (.write i)) :
    (s.step calls (.write i)).Ordered calls := by
  have honce := h.lastStore_ne_none hi (fun hpc => (nomatch hpc)) (fun hpc => (nomatch hpc))
  have htold : ({ s with
      connections := s.connections.map (Connection.write (calls i).key value) } : State ι).Ordered
        calls := by
    refine h.reconnect ?_ ?_
    · intro k j n hj hdone c' hc' hwatch
      obtain ⟨c, hmem, rfl⟩ := List.mem_map.mp hc'
      rw [Connection.watches_write] at hwatch
      by_cases hk : k = (calls i).key
      · subst hk
        exact connectionConverged_write hwatch (hc value hi ⟨c, hmem, hwatch⟩ j n hj hdone)
      · rw [ConnectionConverged, Connection.lastEvent_write_ne c hk, Connection.joined_write]
        exact h.converged k j n hj hdone c hmem hwatch
    · intro k hnone c' hc'
      obtain ⟨c, hmem, rfl⟩ := List.mem_map.mp hc'
      have hk : k ≠ (calls i).key := fun hk => honce (hk ▸ hnone)
      rw [Connection.lastEvent_write_ne c hk]
      exact h.silent k hnone c hmem
  simp only [step, hi]
  refine htold.move (fun _ => rfl) (fun hpc => (nomatch hpc)) (fun _ => honce) ?_ ?_
  · intro k n v _ hv
    rcases hv with hv | hv <;> cases hv
  · -- the call that stored last tells the value of the vault
    intro k n hlast _ c' hc' hwatch
    obtain ⟨c, hmem, rfl⟩ := List.mem_map.mp hc'
    rw [Connection.watches_write] at hwatch
    have hk := h.key k i n hlast
    subst hk
    exact connectionConverged_write (s := s) hwatch (h.taken _ i n value hlast (.inr hi))

/-- A new connection has no event and came after all stores. -/
theorem Ordered.addConnection (h : s.Ordered calls) (keys : List String) :
    (s.step calls (.addConnection keys)).Ordered calls := by
  refine h.reconnect ?_ ?_
  · intro k j n hj hdone c hc hwatch
    rcases KeyedList.mem_put hc with rfl | hc
    · constructor
      · intro value hvalue
        cases hvalue
      · intro j' n' hj' hjoined
        exact absurd hjoined (Nat.not_le.mpr (h.joined k j' n' hj'))
    · exact h.converged k j n hj hdone c hc hwatch
  · intro k hnone c hc
    rcases KeyedList.mem_put hc with rfl | hc
    · rfl
    · exact h.silent k hnone c hc

theorem Ordered.removeConnection (h : s.Ordered calls) (id : Nat) :
    (s.step calls (.removeConnection id)).Ordered calls := by
  refine h.reconnect ?_ ?_
  · intro k j n hj hdone c hc hwatch
    exact h.converged k j n hj hdone c (List.mem_of_mem_filter hc) hwatch
  · intro k hnone c hc
    exact h.silent k hnone c (List.mem_of_mem_filter hc)

/-- **STEP LEMMA**: a step in order. -/
theorem step_ordered {a : Act ι} (h : s.Ordered calls) (ha : s.InOrder calls a) :
    (s.step calls a).Ordered calls := by
  cases a with
  | store i =>
      simp only [step]
      split
      · next hi =>
          split
          · exact h.stored hi
          · next hfail => exact h.failed hi (ha hi (Bool.eq_false_iff.mpr hfail))
      · exact h
  | read i =>
      simp only [step]
      split
      · next hi => exact h.read hi
      · exact h
  | check i =>
      simp only [step]
      split
      · next hi => exact h.check hi
      · exact h
  | write i =>
      cases hi : s.call i with
      | formatted value => exact h.write hi ha
      | start => simpa only [step, hi] using h
      | stored => simpa only [step, hi] using h
      | taken value => simpa only [step, hi] using h
      | done => simpa only [step, hi] using h
  | addConnection keys => exact h.addConnection keys
  | removeConnection id => exact h.removeConnection id

/-- An event that is late stays the last one of its watchers. -/
theorem late_write_not_converged {i : ι} (ha : ¬ s.InOrder calls (.write i)) :
    ¬ (s.step calls (.write i)).Converged (calls i).key := by
  rw [InOrder] at ha
  push Not at ha
  obtain ⟨value, hi, ⟨c, hc, hwatch⟩, j, n, -, -, hother⟩ := ha
  intro hconv
  simp only [step, hi] at hconv
  have hwatch' : (c.write (calls i).key value).watches (calls i).key = true := by
    rw [Connection.watches_write]
    exact hwatch
  have hlast := (hconv _ (List.mem_map_of_mem hc) hwatch').1 value
    (Connection.lastEvent_write_self hwatch value)
  exact hother hlast

end OneStep

/-! ## Runs -/

/-- Two calls one after the other. -/
def twoCalls : Bool → Call
  | true => .load "phase" (.str "first")
  | false => .loadMoved "phase" (.str "second")

end State

end H2Sse
