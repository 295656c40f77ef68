import H2agent.MockStoreProofs
import H2agent.StepRunProofs

/-! # Events waiting for their sending timestamp

    `receive` loads the event of a reception and registers it under the reception id;
    `streamClose` takes it from there.  What is registered is not what was loaded but the
    shared `last_loaded_event_`, which is the event at the BACK of the history read after
    the load: another load can have come between, another reception can have
    written the field, and without the history a load goes to the front.  And the entry is
    erased with the storage enabled only.

    A reception is the sequence of its guarded steps, with a second load for a virtual
    method.  `pending_events_correlate` says which steps must not meet for every
    entry to be the event of its reception, and no entry to outlive its stream. -/

namespace H2Pending

open H2Key H2Store StepRun

/-! ## The machine -/

/-- `MockServerEvent`: the reception it was made for, and whether it is the one stored
    for a virtual method. -/
structure Event where
  recvSeq : Nat
  virtualOrigin : Bool
  deriving DecidableEq, Repr

/-- The event a reception loads under its own key. -/
def Event.ofReception (r : Nat) : Event := ⟨r, false⟩

/-- How a reception ends: a purge in the out-state, a provision (with the key of a
    virtual method), or none. -/
inductive Outcome where
  | purge
  | provisioned (foreignKey : Option DataKey)
  | unprovisioned

/-- A reception: its key and how it ends. -/
structure Reception where
  normalizedKey : DataKey
  outcome : Outcome

/-- The key of a load, the first or the virtual one. -/
def Reception.loadKey (q : Reception) (virtualLoad : Bool) : DataKey :=
  match virtualLoad, q.outcome with
  | true, .provisioned (some foreignKey) => foreignKey
  | _, _ => q.normalizedKey

/-- A key stored before, or made by a load. -/
inductive Hist where
  | prior (key : String)
  | made (r : Nat) (virtualLoad : Bool)
  deriving DecidableEq

/-- Where a reception stands; `virtualLoad` marks the second load. -/
inductive Pc where
  | start
  | getting (virtualLoad history : Bool)
  | holding (virtualLoad history : Bool) (h : Hist) (maiden : Bool)
  | adding (virtualLoad : Bool) (h : Hist)
  | rereading (virtualLoad : Bool) (h : Hist)
  | assigning (virtualLoad : Bool) (event : Option Event)
  | registering
  | done

/-- The last event of the history is being read back by a first load. -/
def Pc.readsBack (h : Hist) : Pc → Prop
  | .adding false h' | .rereading false h' => h' = h
  | _ => False

/-- The server: its modes, its store, the receptions, `last_loaded_event_` and
    `pending_events_`.  `closed` remembers the streams that were closed. -/
structure State where
  serverData : Bool
  serverDataKeyHistory : Bool
  map : String → Option Hist
  heap : Hist → MockEventsHistory Event
  pc : Nat → Pc
  lastLoadedEvent : Option Event
  pendingEvents : Nat → Option (Option Event)
  closed : Nat → Bool

/-- Whose step is next. -/
inductive Act where
  | receive (r : Nat)
  | streamClose (r : Nat)
  | setServerData (on : Bool)
  | setServerDataKeyHistory (on : Bool)

namespace State

/-- A store, its histories at their own addresses, and no reception. -/
def start (receptions : Nat → Reception) (serverData history : Bool) (m : MockData Event) :
    State where
  serverData := serverData
  serverDataKeyHistory := history
  map k := (m.lookup k).map (fun _ => .prior k)
  heap h := match h with
    | .prior k => (m.lookup k).getD (MockEventsHistory.make (DataKey.ofServer "" ""))
    | .made r virtualLoad => MockEventsHistory.make ((receptions r).loadKey virtualLoad)
  pc _ := .start
  lastLoadedEvent := none
  pendingEvents _ := none
  closed _ := false

variable (s : State) (receptions : Nat → Reception)

/-- Move a reception. -/
def setPc (r : Nat) (pc : Pc) : State := { s with pc := Function.update s.pc r pc }

/-- The history of a load, and whether it is a new one. -/
def getEvents (r : Nat) (virtualLoad : Bool) : Hist × Bool :=
  match s.map ((receptions r).loadKey virtualLoad).getKey with
  | some h => (h, false)
  | none => (.made r virtualLoad, true)

/-- One guarded step of `receive`, behind the transformation. -/
def receive (r : Nat) : State :=
  match s.pc r with
  | .start =>
      match (receptions r).outcome with
      | .purge =>
          { s.setPc r .done with
            map := Function.update s.map (receptions r).normalizedKey.getKey none }
      | .provisioned _ =>
          if s.serverData then s.setPc r (.getting false s.serverDataKeyHistory)
          else s.setPc r .done
      | .unprovisioned =>
          -- the history is always enabled for unknown events
          if s.serverData then s.setPc r (.getting false true) else s.setPc r .done
  | .getting virtualLoad history =>
      s.setPc r (.holding virtualLoad history (s.getEvents receptions r virtualLoad).1
        (s.getEvents receptions r virtualLoad).2)
  | .holding virtualLoad history h maiden =>
      { s.setPc r (if maiden then .adding virtualLoad h else .rereading virtualLoad h) with
        heap := Function.update s.heap h ((s.heap h).loadEvent ⟨r, virtualLoad⟩ history) }
  | .adding virtualLoad h =>
      { s.setPc r (.rereading virtualLoad h) with
        map := Function.update s.map ((receptions r).loadKey virtualLoad).getKey (some h) }
  | .rereading virtualLoad h =>
      s.setPc r (.assigning virtualLoad ((s.heap h).getEvent 1 true))
  | .assigning virtualLoad event =>
      { s.setPc r (if virtualLoad then .done else .registering) with lastLoadedEvent := event }
  | .registering =>
      { s.setPc r (match (receptions r).outcome with
          | .provisioned (some _) => .getting true s.serverDataKeyHistory
          | _ => .done) with
        pendingEvents := Function.update s.pendingEvents r (some s.lastLoadedEvent) }
  | .done => s

/-- `streamClose`: nothing is erased while the storage is disabled. -/
def streamClose (r : Nat) : State :=
  { s with
    pendingEvents :=
      if s.serverData then Function.update s.pendingEvents r none else s.pendingEvents
    closed := Function.update s.closed r true }

/-- One step. -/
def step : Act → State
  | .receive r => s.receive receptions r
  | .streamClose r => s.streamClose r
  | .setServerData on => { s with serverData := on }
  | .setServerDataKeyHistory on => { s with serverDataKeyHistory := on }

/-! ## What is said about it -/

/-- Every entry is the event its reception loaded, and streams that were closed have
    none. -/
def Correlated : Prop :=
  (∀ r event, s.pendingEvents r = some event → event = some (.ofReception r))
    ∧ ∀ r, s.closed r = true → s.pendingEvents r = none

/-- What a load does to the history it goes to. -/
def LoadsBack (r : Nat) (virtualLoad history : Bool) (h : Hist) : Prop :=
  -- without the history, a second event keeps the back from the first load
  (virtualLoad = false → history = true ∨ (s.heap h).events.length ≤ 1)
    -- a load that changes the back does not come between a load and its reading back
    ∧ (history = true ∨ (s.heap h).events.length ≤ 1 → ∀ q, q ≠ r → ¬ (s.pc q).readsBack h)

/-- The steps that do not meet: a load goes to the back and not between another load and
    its reading back, `last_loaded_event_` is not written while another reception is about
    to register it, a reception registers before its stream is closed, and an entry is
    erased with the storage enabled. -/
def Apart : Act → Prop
  | .receive r => match s.pc r with
    | .holding virtualLoad history h _ => s.LoadsBack r virtualLoad history h
    | .assigning _ event =>
        ∀ q, q ≠ r → s.pc q = .registering → event = some (.ofReception q)
    | .registering => s.closed r = false
    | _ => True
  | .streamClose r => s.serverData = true ∨ s.pendingEvents r = none
  | .setServerData _ | .setServerDataKeyHistory _ => True

/-- Along a run that keeps the steps apart, what a reception reads back, takes over and
    registers is its own event. -/
structure Own : Prop where
  readBack : ∀ r h, (s.pc r).readsBack h →
    (s.heap h).getEvent 1 true = some (.ofReception r)
  assigned : ∀ r event, s.pc r = .assigning false event → event = some (.ofReception r)
  shared : ∀ r, s.pc r = .registering → s.lastLoadedEvent = some (.ofReception r)
  correlated : s.Correlated

theorem own_start (serverData history : Bool) (m : MockData Event) :
    (start receptions serverData history m).Own where
  readBack _ _ h := h.elim
  assigned _ _ h := nomatch h
  shared _ h := nomatch h
  correlated := ⟨fun _ _ h => (nomatch h), fun _ h => (nomatch h)⟩

/-! ## The back of a history -/

theorem getEvent_back {E : Type} (x : MockEventsHistory E) :
    x.getEvent 1 true = x.events.getLast? := by
  simp only [MockEventsHistory.getEvent, MockEventsHistory.indexOf]
  cases hx : x.events with
  | nil => rfl
  | cons e l =>
      rw [List.getLast?_eq_getElem?]
      simp

/-- A load that goes to the back. -/
theorem getEvent_loadEvent {E : Type} (x : MockEventsHistory E) (event : E) {history : Bool}
    (h : history = true ∨ x.events.length ≤ 1) :
    (x.loadEvent event history).getEvent 1 true = some event := by
  rw [getEvent_back, MockEventsHistory.loadEvent]
  split
  · next hfront =>
      -- the only event of the history is overwritten
      simp only [Bool.and_eq_true, Bool.not_eq_true', bne_iff_ne] at hfront
      obtain ⟨hoff, hsize⟩ := hfront
      rw [hoff] at h
      obtain ⟨e, he⟩ : ∃ e, x.events = [e] := by
        refine List.length_eq_one_iff.mp ?_
        rcases h with h | h
        · cases h
        · omega
      simp [he]
  · simp

/-- A load that leaves the back alone. -/
theorem getEvent_loadEvent_front {E : Type} (x : MockEventsHistory E) (event : E)
    {history : Bool} (h : ¬ (history = true ∨ x.events.length ≤ 1)) :
    (x.loadEvent event history).getEvent 1 true = x.getEvent 1 true := by
  obtain ⟨hoff, hsize⟩ := not_or.mp h
  have hfront : (!history && x.events.length != 0) = true := by
    have hne : x.events.length ≠ 0 := by omega
    simp [Bool.eq_false_iff.mpr hoff, hne]
  rw [getEvent_back, getEvent_back, MockEventsHistory.loadEvent, if_pos hfront,
    List.getLast?_eq_getElem?, List.getLast?_eq_getElem?, List.length_set, List.getElem?_set_ne]
  omega

/-! ## One step -/

variable {s} {receptions}

/-- The reception `r` moves, and what the others read stays. -/
theorem Own.move (h : s.Own) {t : State} {r : Nat} {pc : Pc}
    (hheap : t.heap = s.heap) (hlast : t.lastLoadedEvent = s.lastLoadedEvent)
    (hpending : t.pendingEvents = s.pendingEvents) (hclosed : t.closed = s.closed)
    (hpc : t.pc = Function.update s.pc r pc)
    (hback : ∀ x, pc.readsBack x → (s.heap x).getEvent 1 true = some (.ofReception r))
    (hassigned : ∀ event, pc = .assigning false event → event = some (.ofReception r))
    (hshared : pc ≠ .registering) : t.Own := by
  constructor
  case readBack =>
    intro q x hq
    rw [hpc] at hq
    rw [hheap]
    by_cases hqr : q = r
    · subst hqr
      rw [Function.update_self] at hq
      exact hback x hq
    · rw [Function.update_of_ne hqr] at hq
      exact h.readBack q x hq
  case assigned =>
    intro q event hq
    rw [hpc] at hq
    by_cases hqr : q = r
    · subst hqr
      rw [Function.update_self] at hq
      exact hassigned event hq
    · rw [Function.update_of_ne hqr] at hq
      exact h.assigned q event hq
  case shared =>
    intro q hq
    rw [hpc] at hq
    rw [hlast]
    by_cases hqr : q = r
    · subst hqr
      rw [Function.update_self] at hq
      exact (hshared hq).elim
    · rw [Function.update_of_ne hqr] at hq
      exact h.shared q hq
  case correlated =>
    rw [Correlated, hpending, hclosed]
    exact h.correlated

/-- A move to a place where nothing has been read back yet, or any more. -/
theorem Own.moveIdle (h : s.Own) {t : State} {r : Nat} {pc : Pc}
    (hheap : t.heap = s.heap) (hlast : t.lastLoadedEvent = s.lastLoadedEvent)
    (hpending : t.pendingEvents = s.pendingEvents) (hclosed : t.closed = s.closed)
    (hpc : t.pc = Function.update s.pc r pc)
    (hidle : pc = .done ∨ (∃ v b, pc = .getting v b) ∨ ∃ v b x m, pc = .holding v b x m) :
    t.Own := by
  refine h.move hheap hlast hpending hclosed hpc ?_ ?_ ?_
  · intro x hx
    rcases hidle with rfl | ⟨v, b, rfl⟩ | ⟨v, b, y, m, rfl⟩ <;> exact hx.elim
  · intro event hevent
    rcases hidle with rfl | ⟨v, b, rfl⟩ | ⟨v, b, y, m, rfl⟩ <;> cases hevent
  · intro hreg
    rcases hidle with rfl | ⟨v, b, rfl⟩ | ⟨v, b, y, m, rfl⟩ <;> cases hreg

/-- The load. -/
theorem Own.load (h : s.Own) {r : Nat} {virtualLoad history maiden : Bool} {x : Hist}
    (hpc : s.pc r = .holding virtualLoad history x maiden)
    (hc : s.LoadsBack r virtualLoad history x) : (s.receive receptions r).Own := by
  obtain ⟨hback, hbetween⟩ := hc
  simp only [receive, hpc]
  constructor
  case readBack =>
    intro q y hq
    simp only [setPc] at hq ⊢
    by_cases hqr : q = r
    · subst hqr
      rw [Function.update_self] at hq
      have hown : virtualLoad = false ∧ y = x := by
        cases maiden <;> cases virtualLoad
        · exact ⟨rfl, hq.symm⟩
        · exact hq.elim
        · exact ⟨rfl, hq.symm⟩
        · exact hq.elim
      obtain ⟨rfl, rfl⟩ := hown
      rw [Function.update_self]
      exact getEvent_loadEvent _ _ (hback rfl)
    · rw [Function.update_of_ne hqr] at hq
      by_cases hyx : y = x
      · subst hyx
        rw [Function.update_self]
        by_cases hgoes : history = true ∨ (s.heap y).events.length ≤ 1
        · exact (hbetween hgoes q hqr hq).elim
        · rw [getEvent_loadEvent_front _ _ hgoes]
          exact h.readBack q y hq
      · rw [Function.update_of_ne hyx]
        exact h.readBack q y hq
  case assigned =>
    intro q event hq
    simp only [setPc] at hq
    by_cases hqr : q = r
    · subst hqr
      rw [Function.update_self] at hq
      split at hq <;> cases hq
    · rw [Function.update_of_ne hqr] at hq
      exact h.assigned q event hq
  case shared =>
    intro q hq
    simp only [setPc] at hq
    by_cases hqr : q = r
    · subst hqr
      rw [Function.update_self] at hq
      split at hq <;> cases hq
    · rw [Function.update_of_ne hqr] at hq
      exact h.shared q hq
  case correlated => exact h.correlated

/-- The field is written. -/
theorem Own.assign (h : s.Own) {r : Nat} {virtualLoad : Bool} {event : Option Event}
    (hpc : s.pc r = .assigning virtualLoad event)
    (hc : ∀ q, q ≠ r → s.pc q = .registering → event = some (.ofReception q)) :
    (s.receive receptions r).Own := by
  simp only [receive, hpc]
  constructor
  case readBack =>
    intro q x hq
    simp only [setPc] at hq
    by_cases hqr : q = r
    · subst hqr
      rw [Function.update_self] at hq
      split at hq <;> exact hq.elim
    · rw [Function.update_of_ne hqr] at hq
      exact h.readBack q x hq
  case assigned =>
    intro q event' hq
    simp only [setPc] at hq
    by_cases hqr : q = r
    · subst hqr
      rw [Function.update_self] at hq
      split at hq <;> cases hq
    · rw [Function.update_of_ne hqr] at hq
      exact h.assigned q event' hq
  case shared =>
    intro q hq
    simp only [setPc] at hq
    by_cases hqr : q = r
    · subst hqr
      rw [Function.update_self] at hq
      cases virtualLoad with
      | true => cases hq
      | false => exact h.assigned q event hpc
    · rw [Function.update_of_ne hqr] at hq
      exact hc q hqr hq
  case correlated => exact h.correlated

/-- The registration. -/
theorem Own.register (h : s.Own) {r : Nat} (hpc : s.pc r = .registering)
    (hopen : s.closed r = false) : (s.receive receptions r).Own := by
  simp only [receive, hpc]
  have hmoved : ({ s.setPc r (match (receptions r).outcome with
      | .provisioned (some _) => .getting true s.serverDataKeyHistory
      | _ => .done) with pendingEvents := s.pendingEvents } : State).Own := by
    refine h.moveIdle rfl rfl rfl rfl rfl ?_
    split
    · exact .inr (.inl ⟨_, _, rfl⟩)
    · exact .inl rfl
  refine ⟨hmoved.readBack, hmoved.assigned, hmoved.shared, ?_, ?_⟩
  · intro q event hq
    simp only at hq
    by_cases hqr : q = r
    · subst hqr
      rw [Function.update_self] at hq
      injection hq with hq
      rw [← hq]
      exact h.shared q hpc
    · rw [Function.update_of_ne hqr] at hq
      exact h.correlated.1 q event hq
  · intro q hq
    have hqr : q ≠ r := by
      intro hqr
      subst hqr
      rw [show s.closed q = true from hq] at hopen
      cases hopen
    simp only [Function.update_of_ne hqr]
    exact h.correlated.2 q hq

/-- A reception moves nobody else. -/
theorem receive_pc_ne (s : State) (receptions : Nat → Reception) {r q : Nat} (h : q ≠ r) :
    (s.receive receptions r).pc q = s.pc q := by
  simp only [State.receive]
  split
  · split
    · exact Function.update_of_ne h _ _
    · split <;> exact Function.update_of_ne h _ _
    · split <;> exact Function.update_of_ne h _ _
  · exact Function.update_of_ne h _ _
  · exact Function.update_of_ne h _ _
  · exact Function.update_of_ne h _ _
  · exact Function.update_of_ne h _ _
  · exact Function.update_of_ne h _ _
  · exact Function.update_of_ne h _ _
  · rfl

/-- The steps of a reception that keep the others' reading as it is. -/
theorem Own.receive (h : s.Own) {r : Nat} (hc : s.Apart (.receive r)) :
    (s.receive receptions r).Own := by
  cases hpc : s.pc r with
  | start =>
      simp only [State.receive, hpc]
      split
      · exact h.moveIdle rfl rfl rfl rfl rfl (.inl rfl)
      · split
        · exact h.moveIdle rfl rfl rfl rfl rfl (.inr (.inl ⟨_, _, rfl⟩))
        · exact h.moveIdle rfl rfl rfl rfl rfl (.inl rfl)
      · split
        · exact h.moveIdle rfl rfl rfl rfl rfl (.inr (.inl ⟨_, _, rfl⟩))
        · exact h.moveIdle rfl rfl rfl rfl rfl (.inl rfl)
  | getting virtualLoad history =>
      simp only [State.receive, hpc]
      exact h.moveIdle rfl rfl rfl rfl rfl (.inr (.inr ⟨_, _, _, _, rfl⟩))
  | holding virtualLoad history x maiden =>
      simp only [Apart, hpc] at hc
      exact h.load hpc hc
  | adding virtualLoad x =>
      simp only [State.receive, hpc]
      refine h.move rfl rfl rfl rfl rfl ?_ (fun _ he => (nomatch he)) (fun he => (nomatch he))
      intro y hy
      have hback := h.readBack r y
      rw [hpc] at hback
      cases virtualLoad with
      | true => exact hy.elim
      | false => exact hback hy
  | rereading virtualLoad x =>
      simp only [State.receive, hpc]
      refine h.move rfl rfl rfl rfl rfl (fun _ hx => hx.elim) ?_ (fun he => (nomatch he))
      intro event hevent
      injection hevent with hfirst hevent
      subst hfirst
      rw [← hevent]
      refine h.readBack r x ?_
      rw [hpc]
      exact rfl
  | assigning virtualLoad event =>
      simp only [Apart, hpc] at hc
      exact h.assign hpc hc
  | registering =>
      simp only [Apart, hpc] at hc
      exact h.register hpc hc
  | done =>
      simp only [State.receive, hpc]
      exact h

theorem Own.streamClose (h : s.Own) {r : Nat} (hc : s.Apart (.streamClose r)) :
    (s.streamClose r).Own := by
  refine ⟨h.readBack, h.assigned, h.shared, ?_, ?_⟩
  · intro q event hq
    refine h.correlated.1 q event ?_
    simp only [State.streamClose] at hq
    split at hq
    · by_cases hqr : q = r
      · subst hqr
        rw [Function.update_self] at hq
        cases hq
      · rw [Function.update_of_ne hqr] at hq
        exact hq
    · exact hq
  · intro q hq
    simp only [State.streamClose] at hq ⊢
    by_cases hqr : q = r
    · subst hqr
      split
      · exact Function.update_self ..
      · next hoff => exact hc.resolve_left hoff
    · rw [Function.update_of_ne hqr] at hq
      have hold := h.correlated.2 q hq
      split
      · rw [Function.update_of_ne hqr]
        exact hold
      · exact hold

/-- **STEP LEMMA**: a step that meets no other. -/
theorem step_own {a : Act} (h : s.Own) (hc : s.Apart a) : (s.step receptions a).Own := by
  cases a with
  | receive r => exact h.receive hc
  | streamClose r => exact h.streamClose hc
  | setServerData on => exact ⟨h.readBack, h.assigned, h.shared, h.correlated⟩
  | setServerDataKeyHistory on => exact ⟨h.readBack, h.assigned, h.shared, h.correlated⟩

/-! ## Runs -/

/-- Requests of one key. -/
def oneKey (_ : Nat) : Reception := ⟨DataKey.ofServer "GET" "/a", .provisioned none⟩

end State

end H2Pending
