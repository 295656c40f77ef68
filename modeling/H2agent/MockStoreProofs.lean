import H2agent.KeyProofs
import H2agent.StepRunProofs

/-! # The mock events store

    `MockEventsHistory`, `MockData`, `MockServerData` and `MockClientData`, as
    one thread sees them: a map from aggregated keys to histories, a history
    being the vector of events of one key together with the variables chained
    along its states.

    The store is generic in the event: all it asks of one is its state and the
    sequence number it is addressed by (`recvseq` on the server, `sendseq` on
    the client).

    The second half says what the store is for: a map from keys to NON-EMPTY
    event lists (`AbsStore`).  `stores_refine_nonempty_lists` proves that
    every sequence of operations is answered by the code as that map
    answers it, and that no key is ever left with an empty history. -/

namespace H2Store

open CppText H2Key StepRun

/-- `DEFAULT_ADMIN_PROVISION_STATE`. -/
def defaultState : String := "initial"

/-- What the stores read of an event: `getState` and `getRecvSeq`/`getSendSeq`. -/
class MockEventLike (E : Type) where
  getState : E → String
  getSeq : E → Nat

open MockEventLike

/-- `MockEventsHistory`. -/
structure MockEventsHistory (E : Type) where
  dataKey : DataKey
  events : List E
  chainVariables : TextMap String

variable {E : Type}

namespace MockEventsHistory

/-- A history as its constructor leaves it. -/
def make (dataKey : DataKey) : MockEventsHistory E := ⟨dataKey, [], ∅⟩

/-- `loadEvent`: with the history disabled the FIRST event is overwritten. -/
def loadEvent (h : MockEventsHistory E) (event : E) (historyEnabled : Bool) :
    MockEventsHistory E :=
  if !historyEnabled && h.events.length != 0 then
    { h with events := h.events.set 0 event }
  else { h with events := h.events ++ [event] }

/-- The vector index `removeEvent` and `getEvent` compute. -/
def indexOf (size eventNumber : Nat) (reverse : Bool) : Nat :=
  if reverse then size - eventNumber else eventNumber - 1

/-- `removeEvent`: whether something was deleted, and the history left. -/
def removeEvent (h : MockEventsHistory E) (eventNumber : Nat) (reverse : Bool) :
    Bool × MockEventsHistory E :=
  if h.events.length = 0 ∨ eventNumber = 0 then (false, h)
  else if eventNumber > h.events.length then (false, h)
  else
    (true, { h with
      events := h.events.eraseIdx (indexOf h.events.length eventNumber reverse) })

/-- `getEvent`. -/
def getEvent (h : MockEventsHistory E) (eventNumber : Nat) (reverse : Bool) :
    Option E :=
  if h.events.length = 0 then none
  else if eventNumber = 0 then none
  else if eventNumber > h.events.length then none
  else h.events[indexOf h.events.length eventNumber reverse]?

/-- `removeEventByRecvSeq` and `removeEventBySendSeq`: the first event with the
    sequence number leaves. -/
def removeEventBySeq [MockEventLike E] (h : MockEventsHistory E) (seq : Nat) :
    Bool × MockEventsHistory E :=
  if h.events.any (fun e => getSeq e == seq) then
    (true, { h with events := h.events.eraseP (fun e => getSeq e == seq) })
  else (false, h)

/-- `getEventByRecvSeq` and `getEventBySendSeq`. -/
def getEventBySeq [MockEventLike E] (h : MockEventsHistory E) (seq : Nat) :
    Option E :=
  h.events.find? (fun e => getSeq e == seq)

/-- `getLastRegisteredRequestState` reads `events_.back()`; `none` is the
    undefined behaviour of `back()` on an empty vector. -/
def getLastRegisteredRequestState [MockEventLike E] (h : MockEventsHistory E) :
    Option String :=
  h.events.getLast?.map getState

end MockEventsHistory

/-- `MockData`: aggregated keys to histories. -/
abbrev MockData (E : Type) := TextMap (MockEventsHistory E)

namespace MockData

/-- `getEvents`: the history of the key, or a fresh one, which is `maiden`. -/
def getEvents (m : MockData E) (dataKey : DataKey) : MockEventsHistory E × Bool :=
  match m.lookup dataKey.getKey with
  | some h => (h, false)
  | none => (MockEventsHistory.make dataKey, true)

/-- `clear`: the result, `somethingDeleted`, and the store left. -/
def clear (m : MockData E) (ekey : EventKey) : Bool × Bool × MockData E :=
  if ekey.empty then (true, decide (0 < m.entries.length), ∅)
  else if !ekey.checkSelection then (false, false, m)
  else
    match m.lookup ekey.getKey with
    | none => (true, false, m)
    | some h =>
        if ekey.hasNumber then
          match ekey.position with
          | none => (false, false, m)
          | some (n, reverse) =>
              let (deleted, h') := h.removeEvent n reverse
              -- the key goes when its history is dropped
              if h'.events.length = 0 then (true, deleted, m.erase ekey.getKey)
              else (true, deleted, m.insert ekey.getKey h')
        else (true, true, m.erase ekey.getKey)

/-- `getEvent`. -/
def getEvent (m : MockData E) (ekey : EventKey) : Option E :=
  if !ekey.complete then none
  else
    match m.lookup ekey.getKey with
    | none => none
    | some h =>
        match ekey.position with
        | none => none
        | some (n, reverse) => h.getEvent n reverse

/-- `removeEventByRecvSeq` and `removeEventBySendSeq` of the two stores. -/
def removeEventBySeq [MockEventLike E] (m : MockData E) (dataKey : DataKey)
    (seq : Nat) : Bool × MockData E :=
  match m.lookup dataKey.getKey with
  | none => (false, m)
  | some h =>
      let (deleted, h') := h.removeEventBySeq seq
      if deleted && h'.events.length == 0 then (deleted, m.erase dataKey.getKey)
      else (deleted, m.insert dataKey.getKey h')

/-- `getEventByRecvSeq` and `getEventBySendSeq` of the two stores. -/
def getEventBySeq [MockEventLike E] (m : MockData E) (dataKey : DataKey)
    (seq : Nat) : Option E :=
  match m.lookup dataKey.getKey with
  | none => none
  | some h => h.getEventBySeq seq

/-- `findLastRegisteredRequestState` with chain variables: whether the key was
    found, the state and the variables.  `none` is undefined behaviour. -/
def findLastRegisteredRequestState [MockEventLike E] (m : MockData E)
    (dataKey : DataKey) : Option (Bool × String × TextMap String) :=
  match m.lookup dataKey.getKey with
  | none => some (false, defaultState, ∅)
  | some h =>
      match h.getLastRegisteredRequestState with
      | none => none
      | some state =>
          -- an unprovisioned event is understood as missing
          if state.isEmpty then some (true, defaultState, ∅)
          else some (true, state, h.chainVariables)

/-- `storeChainVariables`. -/
def storeChainVariables (m : MockData E) (dataKey : DataKey)
    (chainVariables : TextMap String) : MockData E :=
  match m.lookup dataKey.getKey with
  | none => m
  | some h => m.insert dataKey.getKey { h with chainVariables := chainVariables }

end MockData

/-- `MockServerData`: the map and the event loaded last. -/
structure MockServerData (E : Type) where
  map : MockData E
  lastLoadedEvent : Option E

/-- `MockServerData::loadEvent`: get or create the history, load into it, push
    a maiden history into the map, remember the last event. -/
def MockServerData.loadEvent (d : MockServerData E) (dataKey : DataKey) (event : E)
    (historyEnabled : Bool) : MockServerData E :=
  let (h, _) := d.map.getEvents dataKey
  let h' := h.loadEvent event historyEnabled
  -- a history already in the map is shared with it, so it changes in place
  { map := d.map.insert dataKey.getKey h'
    lastLoadedEvent := h'.getEvent 1 true }

/-- `MockClientData` has no state of its own. -/
abbrev MockClientData (E : Type) := MockData E

/-- `MockClientData::loadEvent`: `modifyOrInsert` under one lock. -/
def MockClientData.loadEvent (d : MockClientData E) (dataKey : DataKey) (event : E)
    (historyEnabled : Bool) : MockClientData E :=
  let entry := match d.lookup dataKey.getKey with
    | none => MockEventsHistory.make dataKey
    | some h => h
  d.insert dataKey.getKey (entry.loadEvent event historyEnabled)

/-- Both stores load an event the same way when nothing runs beside them. -/
theorem MockServerData.loadEvent_map (d : MockServerData E) (dataKey : DataKey)
    (event : E) (historyEnabled : Bool) :
    (d.loadEvent dataKey event historyEnabled).map
      = MockClientData.loadEvent d.map dataKey event historyEnabled := by
  simp only [MockServerData.loadEvent, MockClientData.loadEvent, MockData.getEvents]
  cases h : d.map.lookup dataKey.getKey with
  | none => rfl
  | some hist => rfl

/-- `MockServerData::removeEventByRecvSeq`. -/
def MockServerData.removeEventByRecvSeq [MockEventLike E] (d : MockServerData E)
    (dataKey : DataKey) (recvSeq : Nat) : Bool × MockServerData E :=
  let (deleted, m) := d.map.removeEventBySeq dataKey recvSeq
  (deleted, { d with map := m })

/-- `MockClientData::removeEventBySendSeq`. -/
def MockClientData.removeEventBySendSeq [MockEventLike E] (d : MockClientData E)
    (dataKey : DataKey) (sendSeq : Nat) : Bool × MockClientData E :=
  MockData.removeEventBySeq d dataKey sendSeq

/-! ## The operations as one alphabet -/

/-- The operations a store serves. -/
inductive StoreOp (E : Type) where
  | loadEvent (dataKey : DataKey) (event : E) (historyEnabled : Bool)
  | clear (ekey : EventKey)
  | removeEventBySeq (dataKey : DataKey) (seq : Nat)
  | storeChainVariables (dataKey : DataKey) (chainVariables : TextMap String)
  | getEvent (ekey : EventKey)
  | findLastRegisteredRequestState (dataKey : DataKey)

/-- What an operation answers. -/
inductive StoreOut (E : Type) where
  | done
  | cleared (result somethingDeleted : Bool)
  | removed (deleted : Bool)
  | event (found : Option E)
  | lastState (found : Option (Bool × String × TextMap String))

/-- The server store serving one operation. -/
def serverExec [MockEventLike E] (d : MockServerData E) :
    StoreOp E → StoreOut E × MockServerData E
  | .loadEvent dataKey event historyEnabled =>
      (.done, d.loadEvent dataKey event historyEnabled)
  | .clear ekey =>
      let (result, somethingDeleted, m) := d.map.clear ekey
      (.cleared result somethingDeleted, { d with map := m })
  | .removeEventBySeq dataKey seq =>
      let (deleted, d') := d.removeEventByRecvSeq dataKey seq
      (.removed deleted, d')
  | .storeChainVariables dataKey chainVariables =>
      (.done, { d with map := d.map.storeChainVariables dataKey chainVariables })
  | .getEvent ekey => (.event (d.map.getEvent ekey), d)
  | .findLastRegisteredRequestState dataKey =>
      (.lastState (d.map.findLastRegisteredRequestState dataKey), d)

/-- The client store serving one operation. -/
def clientExec [MockEventLike E] (d : MockClientData E) :
    StoreOp E → StoreOut E × MockClientData E
  | .loadEvent dataKey event historyEnabled =>
      (.done, MockClientData.loadEvent d dataKey event historyEnabled)
  | .clear ekey =>
      let (result, somethingDeleted, m) := MockData.clear d ekey
      (.cleared result somethingDeleted, m)
  | .removeEventBySeq dataKey seq =>
      let (deleted, d') := MockClientData.removeEventBySendSeq d dataKey seq
      (.removed deleted, d')
  | .storeChainVariables dataKey chainVariables =>
      (.done, MockData.storeChainVariables d dataKey chainVariables)
  | .getEvent ekey => (.event (MockData.getEvent d ekey), d)
  | .findLastRegisteredRequestState dataKey =>
      (.lastState (MockData.findLastRegisteredRequestState d dataKey), d)

/-! ## What the store is for: keys to non-empty event lists -/

/-- A non-empty list of events and the chained variables of its key. -/
structure AbsHistory (E : Type) where
  events : { l : List E // l ≠ [] }
  chainVariables : TextMap String

/-- The abstract store. -/
abbrev AbsStore (E : Type) := String → Option (AbsHistory E)

namespace AbsHistory

/-- A list with its chained variables; an empty list is no history at all. -/
def ofList (events : List E) (chainVariables : TextMap String) :
    Option (AbsHistory E) :=
  if h : events ≠ [] then some ⟨⟨events, h⟩, chainVariables⟩ else none

/-- The position, counted from 1 at the start, a number addresses: `k` from the
    end is `size + 1 - k`; `0` and anything beyond the size address nothing. -/
def addressed (size n : Nat) (reverse : Bool) : Option Nat :=
  if n = 0 ∨ size < n then none
  else some (if reverse then size + 1 - n else n)

/-- Load an event: appended with the history enabled, else put in the place of
    the first one. -/
def load (h : Option (AbsHistory E)) (event : E) (historyEnabled : Bool) :
    AbsHistory E :=
  match h with
  | none => ⟨⟨[event], List.cons_ne_nil _ _⟩, ∅⟩
  | some a =>
      if historyEnabled then
        ⟨⟨a.events.1 ++ [event], by simp⟩, a.chainVariables⟩
      else ⟨⟨event :: a.events.1.tail, List.cons_ne_nil _ _⟩, a.chainVariables⟩

/-- The event at a position. -/
def read (a : AbsHistory E) (position : Nat) : Option E :=
  a.events.1[position - 1]?

/-- Delete the event at a position. -/
def deleteAt (a : AbsHistory E) (position : Nat) : Option (AbsHistory E) :=
  ofList (a.events.1.eraseIdx (position - 1)) a.chainVariables

/-- Delete the first event with a sequence number. -/
def deleteSeq [MockEventLike E] (a : AbsHistory E) (seq : Nat) :
    Option (AbsHistory E) :=
  ofList (a.events.1.eraseP (fun e => getSeq e == seq)) a.chainVariables

/-- The state of the last event; the proof that there is one is a field. -/
def lastState [MockEventLike E] (a : AbsHistory E) : String :=
  getState (a.events.1.getLast a.events.2)

end AbsHistory

open Classical in
/-- The abstract store serving one operation. -/
noncomputable def absExec [MockEventLike E] (s : AbsStore E) :
    StoreOp E → StoreOut E × AbsStore E
  | .loadEvent dataKey event historyEnabled =>
      (.done, Function.update s dataKey.getKey
        (some (AbsHistory.load (s dataKey.getKey) event historyEnabled)))
  | .clear ekey =>
      if ekey.empty then
        (.cleared true (decide (∃ k, s k ≠ none)), fun _ => none)
      else if !ekey.checkSelection then (.cleared false false, s)
      else
        match s ekey.getKey with
        | none => (.cleared true false, s)
        | some a =>
            if ekey.hasNumber then
              match ekey.position with
              | none => (.cleared false false, s)
              | some (n, reverse) =>
                  match AbsHistory.addressed a.events.1.length n reverse with
                  | none => (.cleared true false, s)
                  | some i =>
                      (.cleared true true,
                        Function.update s ekey.getKey (a.deleteAt i))
            else (.cleared true true, Function.update s ekey.getKey none)
  | .removeEventBySeq dataKey seq =>
      match s dataKey.getKey with
      | none => (.removed false, s)
      | some a =>
          if a.events.1.any (fun e => getSeq e == seq) then
            (.removed true, Function.update s dataKey.getKey (a.deleteSeq seq))
          else (.removed false, s)
  | .storeChainVariables dataKey chainVariables =>
      match s dataKey.getKey with
      | none => (.done, s)
      | some a =>
          (.done, Function.update s dataKey.getKey
            (some { a with chainVariables := chainVariables }))
  | .getEvent ekey =>
      if !ekey.complete then (.event none, s)
      else
        match s ekey.getKey, ekey.position with
        | some a, some (n, reverse) =>
            (.event ((AbsHistory.addressed a.events.1.length n reverse).bind a.read), s)
        | _, _ => (.event none, s)
  | .findLastRegisteredRequestState dataKey =>
      match s dataKey.getKey with
      | none => (.lastState (some (false, defaultState, ∅)), s)
      | some a =>
          if a.lastState.isEmpty then
            (.lastState (some (true, defaultState, ∅)), s)
          else (.lastState (some (true, a.lastState, a.chainVariables)), s)

/-! ## The abstraction -/

/-- No key maps to an empty history. -/
def NonEmpty (m : MockData E) : Prop :=
  ∀ k h, m.lookup k = some h → h.events ≠ []

/-- What a concrete map stands for. -/
def absMap (m : MockData E) : AbsStore E :=
  fun k => (m.lookup k).bind (fun h => AbsHistory.ofList h.events h.chainVariables)

theorem ofList_of_ne {events : List E} (h : events ≠ []) (v : TextMap String) :
    AbsHistory.ofList events v = some ⟨⟨events, h⟩, v⟩ :=
  dif_pos h

@[simp] theorem ofList_nil (v : TextMap String) :
    AbsHistory.ofList ([] : List E) v = none := by
  simp only [AbsHistory.ofList]
  rw [dif_neg (by simp)]

theorem absMap_none {m : MockData E} {k : String} (h : m.lookup k = none) :
    absMap m k = none := by
  simp only [absMap]
  rw [h]
  rfl

theorem absMap_some {m : MockData E} {k : String} {h : MockEventsHistory E}
    (hl : m.lookup k = some h) (hne : h.events ≠ []) :
    absMap m k = some ⟨⟨h.events, hne⟩, h.chainVariables⟩ := by
  simp only [absMap]
  rw [hl]
  exact ofList_of_ne hne h.chainVariables

theorem absMap_empty : absMap (∅ : MockData E) = fun _ => none := by
  funext k
  exact absMap_none (AList.lookup_empty k)

theorem absMap_insert (m : MockData E) (k : String) (h : MockEventsHistory E) :
    absMap (m.insert k h)
      = Function.update (absMap m) k (AbsHistory.ofList h.events h.chainVariables) := by
  funext k'
  by_cases hk : k' = k
  · subst hk
    rw [Function.update_self]
    simp only [absMap]
    rw [AList.lookup_insert]
    rfl
  · rw [Function.update_of_ne hk]
    simp only [absMap]
    rw [AList.lookup_insert_ne hk]

theorem absMap_erase (m : MockData E) (k : String) :
    absMap (m.erase k) = Function.update (absMap m) k none := by
  funext k'
  by_cases hk : k' = k
  · subst hk
    rw [Function.update_self]
    exact absMap_none (AList.lookup_erase k' m)
  · rw [Function.update_of_ne hk]
    simp only [absMap]
    rw [AList.lookup_erase_ne hk]

theorem nonEmpty_empty : NonEmpty (∅ : MockData E) := forall_empty _

theorem nonEmpty_insert {m : MockData E} (hm : NonEmpty m) (k : String)
    {h : MockEventsHistory E} (hne : h.events ≠ []) : NonEmpty (m.insert k h) :=
  forall_insert hm hne

theorem nonEmpty_erase {m : MockData E} (hm : NonEmpty m) (k : String) :
    NonEmpty (m.erase k) :=
  forall_erase hm k

/-- Putting back what is already there changes nothing the store stands for. -/
theorem absMap_insert_same {m : MockData E} {k : String} {h : MockEventsHistory E}
    (hl : m.lookup k = some h) : absMap (m.insert k h) = absMap m := by
  rw [absMap_insert]
  funext k'
  by_cases hk : k' = k
  · subst hk
    rw [Function.update_self]
    simp only [absMap]
    rw [hl]
    rfl
  · rw [Function.update_of_ne hk]

/-! ## One history against one abstract history -/

theorem loadEvent_ne_nil (h : MockEventsHistory E) (event : E) (b : Bool) :
    (h.loadEvent event b).events ≠ [] := by
  simp only [MockEventsHistory.loadEvent]
  split
  · next hc =>
      intro hnil
      have hlen : h.events.length = 0 := by
        have := congrArg List.length hnil
        simpa using this
      rw [hlen] at hc
      simp at hc
  · simp

/-- Loading is the abstract load; a history without events is a fresh one. -/
theorem ofList_loadEvent (h : MockEventsHistory E) (event : E) (b : Bool)
    (hfresh : h.events = [] → h.chainVariables = ∅) :
    AbsHistory.ofList (h.loadEvent event b).events (h.loadEvent event b).chainVariables
      = some (AbsHistory.load (AbsHistory.ofList h.events h.chainVariables) event b) := by
  obtain ⟨dataKey, events, vars⟩ := h
  cases events with
  | nil =>
      have hv : vars = ∅ := hfresh rfl
      subst hv
      cases b <;> rfl
  | cons x xs =>
      rw [ofList_of_ne (List.cons_ne_nil x xs)]
      cases b <;> rfl

/-- `removeEvent` deletes the addressed position. -/
theorem removeEvent_eq (h : MockEventsHistory E) (n : Nat) (reverse : Bool) :
    h.removeEvent n reverse
      = match AbsHistory.addressed h.events.length n reverse with
        | none => (false, h)
        | some i => (true, { h with events := h.events.eraseIdx (i - 1) }) := by
  simp only [MockEventsHistory.removeEvent, AbsHistory.addressed]
  by_cases h0 : n = 0
  · simp [h0]
  · by_cases hgt : h.events.length < n
    · by_cases hl : h.events.length = 0
      · simp [hl, Nat.pos_of_ne_zero h0]
      · simp [h0, hl, hgt]
    · have hl : ¬ (h.events.length = 0 ∨ n = 0) := by omega
      rw [if_neg hl, if_neg hgt, if_neg (by omega)]
      cases reverse with
      | false => rfl
      | true =>
          show (true, { h with events := h.events.eraseIdx (h.events.length - n) })
            = (true, { h with events := h.events.eraseIdx (h.events.length + 1 - n - 1) })
          rw [show h.events.length + 1 - n - 1 = h.events.length - n by omega]

/-- `getEvent` reads the addressed position. -/
theorem getEvent_eq (h : MockEventsHistory E) (n : Nat) (reverse : Bool) :
    h.getEvent n reverse
      = (AbsHistory.addressed h.events.length n reverse).bind
          (fun i => h.events[i - 1]?) := by
  simp only [MockEventsHistory.getEvent, AbsHistory.addressed]
  by_cases h0 : n = 0
  · simp [h0]
  · by_cases hgt : h.events.length < n
    · simp [hgt]
    · rw [if_neg (by omega), if_neg h0, if_neg hgt, if_neg (by omega)]
      cases reverse with
      | false => rfl
      | true =>
          show h.events[h.events.length - n]?
            = h.events[h.events.length + 1 - n - 1]?
          rw [show h.events.length + 1 - n - 1 = h.events.length - n by omega]

theorem getLastRegisteredRequestState_eq [MockEventLike E]
    (h : MockEventsHistory E) (hne : h.events ≠ []) :
    h.getLastRegisteredRequestState
      = some (AbsHistory.lastState ⟨⟨h.events, hne⟩, h.chainVariables⟩) := by
  simp only [MockEventsHistory.getLastRegisteredRequestState]
  rw [List.getLast?_eq_getLast_of_ne_nil hne]
  rfl

/-! ## One operation against one abstract operation -/

/-- The three obligations of one operation: same answer, commuting square,
    invariant kept. -/
structure Refines (c : StoreOut E × MockData E) (a : StoreOut E × AbsStore E) :
    Prop where
  out : c.1 = a.1
  abs : absMap c.2 = a.2
  inv : NonEmpty c.2

/-- One operation of the store against the abstract one. -/
def OpRefines [MockEventLike E] (m : MockData E) (op : StoreOp E) : Prop :=
  Refines (clientExec m op) (absExec (absMap m) op)

variable [MockEventLike E]

theorem loadEvent_refines {m : MockData E} (hm : NonEmpty m) (dataKey : DataKey)
    (event : E) (b : Bool) : OpRefines m (.loadEvent dataKey event b) := by
  -- whichever history is loaded into, it is what the key stands for
  have key : ∀ h : MockEventsHistory E,
      (h.events = [] → h.chainVariables = ∅) →
      AbsHistory.ofList h.events h.chainVariables = absMap m dataKey.getKey →
      absMap (m.insert dataKey.getKey (h.loadEvent event b))
        = Function.update (absMap m) dataKey.getKey
            (some (AbsHistory.load (absMap m dataKey.getKey) event b)) := by
    intro h hfresh habs
    rw [absMap_insert, ofList_loadEvent h event b hfresh, habs]
  refine ⟨rfl, ?_, ?_⟩
  · show absMap (MockClientData.loadEvent m dataKey event b) = _
    simp only [MockClientData.loadEvent]
    cases hl : m.lookup dataKey.getKey with
    | none =>
        refine key (MockEventsHistory.make dataKey) (fun _ => rfl) ?_
        rw [absMap_none hl]
        exact ofList_nil _
    | some h =>
        have hne := hm _ h hl
        refine key h (fun hnil => absurd hnil hne) ?_
        rw [absMap_some hl hne]
        exact ofList_of_ne hne _
  · show NonEmpty (MockClientData.loadEvent m dataKey event b)
    exact nonEmpty_insert hm _ (loadEvent_ne_nil _ event b)

theorem clear_refines {m : MockData E} (hm : NonEmpty m) (ekey : EventKey) :
    OpRefines m (.clear ekey) := by
  simp only [OpRefines]
  simp only [clientExec, absExec, MockData.clear]
  by_cases he : ekey.empty = true
  · simp only [if_pos he]
    refine ⟨?_, absMap_empty, nonEmpty_empty⟩
    -- the map has an entry exactly when some key stands for something
    show StoreOut.cleared true (decide (0 < m.entries.length)) = .cleared true _
    congr 1
    refine decide_eq_decide.mpr ⟨?_, ?_⟩
    · intro hlen
      obtain ⟨⟨k, h⟩, hmem⟩ := List.exists_mem_of_length_pos hlen
      have hl : m.lookup k = some h := AList.mem_lookup_iff.mpr hmem
      refine ⟨k, ?_⟩
      rw [absMap_some hl (hm k h hl)]
      exact Option.some_ne_none _
    · rintro ⟨k, hk⟩
      cases hl : m.lookup k with
      | none => exact absurd (absMap_none hl) hk
      | some h => exact List.length_pos_of_mem (AList.mem_lookup_iff.mp hl)
  · simp only [if_neg he]
    by_cases hs : (!ekey.checkSelection) = true
    · simp only [if_pos hs]
      exact ⟨rfl, rfl, hm⟩
    · simp only [if_neg hs]
      cases hl : m.lookup ekey.getKey with
      | none =>
          simp only [absMap_none hl]
          exact ⟨rfl, rfl, hm⟩
      | some h =>
          have hne := hm _ h hl
          rw [absMap_some hl hne]
          by_cases hn : ekey.hasNumber = true
          · simp only [hn, if_true]
            cases hp : ekey.position with
            | none => exact ⟨rfl, rfl, hm⟩
            | some p =>
                obtain ⟨n, reverse⟩ := p
                simp only [removeEvent_eq]
                cases ha : AbsHistory.addressed h.events.length n reverse with
                | none =>
                    have hlen : h.events.length ≠ 0 :=
                      fun h0 => hne (List.length_eq_zero_iff.mp h0)
                    simp only [if_neg hlen]
                    exact ⟨rfl, absMap_insert_same hl, nonEmpty_insert hm _ hne⟩
                | some i =>
                    by_cases hz : (h.events.eraseIdx (i - 1)).length = 0
                    · have hnil := List.length_eq_zero_iff.mp hz
                      simp only [if_pos hz]
                      refine ⟨rfl, ?_, nonEmpty_erase hm _⟩
                      rw [absMap_erase]
                      show _ = Function.update (absMap m) ekey.getKey
                        (AbsHistory.ofList (h.events.eraseIdx (i - 1)) h.chainVariables)
                      rw [hnil, ofList_nil]
                    · have hne' : h.events.eraseIdx (i - 1) ≠ [] :=
                        fun hnil => hz (List.length_eq_zero_iff.mpr hnil)
                      simp only [if_neg hz]
                      exact ⟨rfl, absMap_insert m _ _, nonEmpty_insert hm _ hne'⟩
          · simp only [if_neg hn]
            exact ⟨rfl, absMap_erase m _, nonEmpty_erase hm _⟩

theorem removeEventBySeq_refines {m : MockData E} (hm : NonEmpty m)
    (dataKey : DataKey) (seq : Nat) : OpRefines m (.removeEventBySeq dataKey seq) := by
  simp only [OpRefines]
  simp only [clientExec, absExec, MockClientData.removeEventBySendSeq,
    MockData.removeEventBySeq]
  cases hl : m.lookup dataKey.getKey with
  | none =>
      rw [absMap_none hl]
      exact ⟨rfl, rfl, hm⟩
  | some h =>
      have hne := hm _ h hl
      rw [absMap_some hl hne]
      simp only [MockEventsHistory.removeEventBySeq]
      by_cases hany : h.events.any (fun e => getSeq e == seq) = true
      · simp only [hany, if_true]
        by_cases hz : (h.events.eraseP (fun e => getSeq e == seq)).length = 0
        · have hnil := List.length_eq_zero_iff.mp hz
          simp only [hz, beq_self_eq_true, Bool.and_true, if_true]
          refine ⟨rfl, ?_, nonEmpty_erase hm _⟩
          rw [absMap_erase]
          show _ = Function.update (absMap m) dataKey.getKey
            (AbsHistory.ofList (h.events.eraseP (fun e => getSeq e == seq))
              h.chainVariables)
          rw [hnil, ofList_nil]
        · have hne' : h.events.eraseP (fun e => getSeq e == seq) ≠ [] :=
            fun hnil => hz (List.length_eq_zero_iff.mpr hnil)
          rw [if_neg (by simpa using hz)]
          exact ⟨rfl, absMap_insert m _ _, nonEmpty_insert hm _ hne'⟩
      · simp only [if_neg hany]
        exact ⟨rfl, absMap_insert_same hl, nonEmpty_insert hm _ hne⟩

theorem storeChainVariables_refines {m : MockData E} (hm : NonEmpty m)
    (dataKey : DataKey) (vars : TextMap String) :
    OpRefines m (.storeChainVariables dataKey vars) := by
  simp only [OpRefines]
  simp only [clientExec, absExec, MockData.storeChainVariables]
  cases hl : m.lookup dataKey.getKey with
  | none =>
      rw [absMap_none hl]
      exact ⟨rfl, rfl, hm⟩
  | some h =>
      have hne := hm _ h hl
      rw [absMap_some hl hne]
      refine ⟨rfl, ?_, nonEmpty_insert hm _ hne⟩
      rw [absMap_insert, ofList_of_ne hne]

theorem getEvent_refines {m : MockData E} (hm : NonEmpty m) (ekey : EventKey) :
    OpRefines m (.getEvent ekey) := by
  simp only [OpRefines]
  simp only [clientExec, absExec, MockData.getEvent]
  by_cases hc : (!ekey.complete) = true
  · simp only [if_pos hc]
    exact ⟨rfl, rfl, hm⟩
  · simp only [if_neg hc]
    cases hl : m.lookup ekey.getKey with
    | none =>
        rw [absMap_none hl]
        exact ⟨rfl, rfl, hm⟩
    | some h =>
        have hne := hm _ h hl
        rw [absMap_some hl hne]
        cases hp : ekey.position with
        | none => exact ⟨rfl, rfl, hm⟩
        | some p =>
            obtain ⟨n, reverse⟩ := p
            refine ⟨?_, rfl, hm⟩
            show StoreOut.event (h.getEvent n reverse) = _
            rw [getEvent_eq]
            rfl

theorem findLast_refines {m : MockData E} (hm : NonEmpty m) (dataKey : DataKey) :
    OpRefines m (.findLastRegisteredRequestState dataKey) := by
  simp only [OpRefines]
  simp only [clientExec, absExec, MockData.findLastRegisteredRequestState]
  cases hl : m.lookup dataKey.getKey with
  | none =>
      rw [absMap_none hl]
      exact ⟨rfl, rfl, hm⟩
  | some h =>
      have hne := hm _ h hl
      rw [absMap_some hl hne]
      simp only [getLastRegisteredRequestState_eq h hne]
      split
      · exact ⟨rfl, rfl, hm⟩
      · exact ⟨rfl, rfl, hm⟩

/-- Every operation refines its abstract counterpart. -/
theorem exec_refines {m : MockData E} (hm : NonEmpty m) (op : StoreOp E) :
    OpRefines m op := by
  cases op with
  | loadEvent dataKey event b => exact loadEvent_refines hm dataKey event b
  | clear ekey => exact clear_refines hm ekey
  | removeEventBySeq dataKey seq => exact removeEventBySeq_refines hm dataKey seq
  | storeChainVariables dataKey vars =>
      exact storeChainVariables_refines hm dataKey vars
  | getEvent ekey => exact getEvent_refines hm ekey
  | findLastRegisteredRequestState dataKey => exact findLast_refines hm dataKey

/-- The server store serves an operation as the client store does. -/
theorem serverExec_map (d : MockServerData E) (op : StoreOp E) :
    (serverExec d op).1 = (clientExec d.map op).1
      ∧ (serverExec d op).2.map = (clientExec d.map op).2 := by
  cases op with
  | loadEvent dataKey event b => exact ⟨rfl, d.loadEvent_map dataKey event b⟩
  | clear ekey => exact ⟨rfl, rfl⟩
  | removeEventBySeq dataKey seq => exact ⟨rfl, rfl⟩
  | storeChainVariables dataKey vars => exact ⟨rfl, rfl⟩
  | getEvent ekey => exact ⟨rfl, rfl⟩
  | findLastRegisteredRequestState dataKey => exact ⟨rfl, rfl⟩

/-! ## Whole runs -/

omit [MockEventLike E] in
/-- A clear that reports nothing deleted leaves every key as it was. -/
theorem clear_silent {m : MockData E} (hm : NonEmpty m) (ekey : EventKey)
    (hs : (m.clear ekey).2.1 = false) (k : String) :
    (m.clear ekey).2.2.lookup k = m.lookup k := by
  -- putting a history back in its place is invisible to every lookup
  have hback : ∀ h, m.lookup ekey.getKey = some h →
      (m.insert ekey.getKey h).lookup k = m.lookup k := by
    intro h hl
    by_cases hk : k = ekey.getKey
    · rw [hk, AList.lookup_insert, hl]
    · exact AList.lookup_insert_ne hk
  revert hs
  simp only [MockData.clear]
  by_cases he : ekey.empty = true
  · simp only [if_pos he]
    intro hlen
    cases hl : m.lookup k with
    | none => exact AList.lookup_empty k
    | some h =>
        have hpos := List.length_pos_of_mem (AList.mem_lookup_iff.mp hl)
        exact absurd hpos (of_decide_eq_false hlen)
  · simp only [if_neg he]
    by_cases hsel : (!ekey.checkSelection) = true
    · simp only [if_pos hsel, implies_true]
    · simp only [if_neg hsel]
      cases hl : m.lookup ekey.getKey with
      | none => intro _; rfl
      | some h =>
          by_cases hn : ekey.hasNumber = true
          · simp only [if_pos hn]
            cases hp : ekey.position with
            | none => intro _; rfl
            | some p =>
                obtain ⟨n, reverse⟩ := p
                simp only [removeEvent_eq]
                cases ha : AbsHistory.addressed h.events.length n reverse with
                | none =>
                    have hlen : h.events.length ≠ 0 :=
                      fun h0 => hm _ h hl (List.length_eq_zero_iff.mp h0)
                    simp only [if_neg hlen]
                    intro _
                    exact hback h hl
                | some i =>
                    -- an addressed event is deleted, and reported
                    by_cases hz : (h.events.eraseIdx (i - 1)).length = 0
                    · simp only [if_pos hz, Bool.true_eq_false, false_implies]
                    · simp only [if_neg hz, Bool.true_eq_false, false_implies]
          · simp only [if_neg hn]
            exact fun hs => nomatch hs

/-- The server store before any reception. -/
def MockServerData.fresh : MockServerData E := ⟨∅, none⟩

/-- A run of the server store is the run of its map. -/
theorem server_outputs (ops : List (StoreOp E)) (d : MockServerData E) :
    (outputs serverExec d ops).1 = (outputs clientExec d.map ops).1
      ∧ (outputs serverExec d ops).2.map = (outputs clientExec d.map ops).2 := by
  obtain ⟨h1, h2, _⟩ := outputs_refine (I := fun _ => True)
    (fun d op _ => (serverExec_map d op).1)
    (fun d op _ => (serverExec_map d op).2)
    (fun _ _ _ => True.intro) ops d True.intro
  exact ⟨h1, h2⟩

/-- A run of the client store against the abstract one. -/
theorem client_outputs (ops : List (StoreOp E)) {m : MockData E} (hm : NonEmpty m) :
    (outputs clientExec m ops).1 = (outputs absExec (absMap m) ops).1
      ∧ absMap (outputs clientExec m ops).2 = (outputs absExec (absMap m) ops).2
      ∧ NonEmpty (outputs clientExec m ops).2 :=
  outputs_refine (I := NonEmpty)
    (fun _ op hm => (exec_refines hm op).out)
    (fun _ op hm => (exec_refines hm op).abs)
    (fun _ op hm => (exec_refines hm op).inv) ops m hm

/-- **THE STORES REFINE THE MAP OF NON-EMPTY LISTS**: every sequence of
    operations, from the fresh store, is answered by the server store and by
    the client store as by the abstract map, which they stand for at the end;
    no key maps to an empty history; and a clear that then reports nothing
    deleted leaves every key as it was. -/
theorem stores_refine_nonempty_lists (ops : List (StoreOp E)) :
    let server := outputs serverExec (MockServerData.fresh (E := E)) ops
    let client := outputs clientExec (∅ : MockClientData E) ops
    let spec := outputs absExec (fun _ => none : AbsStore E) ops
    (server.1 = spec.1 ∧ absMap server.2.map = spec.2 ∧ NonEmpty server.2.map)
      ∧ (client.1 = spec.1 ∧ absMap client.2 = spec.2 ∧ NonEmpty client.2)
      ∧ ∀ ekey : EventKey,
          ((server.2.map.clear ekey).2.1 = false →
            ∀ k, (server.2.map.clear ekey).2.2.lookup k = server.2.map.lookup k)
          ∧ ((MockData.clear client.2 ekey).2.1 = false →
            ∀ k, (MockData.clear client.2 ekey).2.2.lookup k = client.2.lookup k) := by
  intro server client spec
  obtain ⟨hc1, hc2, hc3⟩ := client_outputs ops (nonEmpty_empty (E := E))
  rw [absMap_empty] at hc1 hc2
  obtain ⟨hs1, hs2⟩ := server_outputs ops (MockServerData.fresh (E := E))
  have hs3 : NonEmpty server.2.map := by
    show NonEmpty (outputs serverExec MockServerData.fresh ops).2.map
    rw [hs2]
    exact hc3
  refine ⟨⟨hs1.trans hc1, ?_, hs3⟩, ⟨hc1, hc2, hc3⟩, ?_⟩
  · show absMap (outputs serverExec MockServerData.fresh ops).2.map = _
    rw [hs2]
    exact hc2
  · intro ekey
    exact ⟨clear_silent hs3 ekey, clear_silent hc3 ekey⟩

end H2Store
