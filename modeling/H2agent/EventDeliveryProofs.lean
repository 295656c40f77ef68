import H2agent.EventStreamProofs
import H2agent.TransformationProofs

/-! # The bytes of the event stream

    The handler of `vault/events` gives each connection a buffer.  The callback that
    `SseManager::notify` calls appends the text of an event and posts a resumption to
    the event loop; the generator, which the event loop calls for up to `len` bytes,
    takes them from the buffer and pauses the stream when there are none.  Writers,
    posted resumptions and the generator come in any order.

    The vault, the calls and the connections are those of `H2Sse`.
    `stream_delivery` says that no byte is lost, repeated or overtaken, and that no
    stream stays paused with bytes in its buffer. -/

namespace H2SseDelivery

open H2Convert H2Key H2Sse JsonValue StepRun

/-! ## What is asked for and what is written -/

/-- The key a piece of the query names: what follows `key=`. -/
def keyParameter (piece : List Char) : Option String :=
  if "key=".toList.isPrefixOf piece then some (String.ofList (piece.drop 4)) else none

/-- The keys of a connection, from the query as it comes, not decoded. -/
def watchedKeys (rawQuery : String) : List String :=
  (pieces '&' rawQuery.toList).filterMap keyParameter

/-- The text of an event; the dump can throw. -/
def eventText (lib : Lib) (key : String) (value : Json) : Option (List Char) :=
  (lib.dump (.obj [("key", .str key), ("value", value)])).map
    (fun data => ("event: vault-set\ndata: " ++ data ++ "\n\n").toList)

/-- The texts of events, one behind the other. -/
def eventsText (lib : Lib) (events : List (String × Json)) : List Char :=
  (events.map (fun e => (eventText lib e.1 e.2).getD [])).flatten

theorem eventsText_append (lib : Lib) (events : List (String × Json)) (e : String × Json) :
    eventsText lib (events ++ [e]) = eventsText lib events ++ (eventText lib e.1 e.2).getD [] := by
  simp [eventsText]

/-! ## Streams -/

/-- The buffer of a connection, whether its stream is paused, the callbacks that have
    appended and not yet posted, the resumptions posted, and the bytes handed over. -/
structure Stream where
  buffer : List Char
  deferred : Bool
  posting : Nat
  resumes : Nat
  sent : List Char

namespace Stream

def fresh : Stream := ⟨[], false, 0, 0, []⟩

def append (s : Stream) (data : List Char) : Stream :=
  { s with buffer := s.buffer ++ data, posting := s.posting + 1 }

def post (s : Stream) : Stream :=
  if s.posting = 0 then s else { s with posting := s.posting - 1, resumes := s.resumes + 1 }

def resume (s : Stream) : Stream :=
  if s.resumes = 0 then s else { s with resumes := s.resumes - 1, deferred := false }

/-- The generator, called for up to `len` bytes while the stream is not paused. -/
def generate (s : Stream) (len : Nat) : Stream :=
  if s.deferred then s
  else if s.buffer.isEmpty then { s with deferred := true }
  else
    { s with
      sent := s.sent ++ s.buffer.take (min len s.buffer.length)
      buffer := s.buffer.drop (min len s.buffer.length) }

/-- What was written to the stream, in order: the bytes handed over and those in the
    buffer. -/
def Holds (s : Stream) (written : List Char) : Prop := s.sent ++ s.buffer = written

/-- Bytes that wait are about to be asked for, or a resumption is on its way. -/
def Awake (s : Stream) : Prop :=
  s.buffer ≠ [] → s.deferred = true → 0 < s.posting + s.resumes

end Stream

/-- A turn of one stream. -/
inductive Turn where
  | post
  | resume
  | generate (len : Nat)

def Stream.turn (s : Stream) : Turn → Stream
  | .post => s.post
  | .resume => s.resume
  | .generate len => s.generate len

namespace Stream

variable {s : Stream} {written : List Char}

theorem Holds.append (h : s.Holds written) (data : List Char) :
    (s.append data).Holds (written ++ data) := by
  unfold Holds at h ⊢
  rw [← h, Stream.append, List.append_assoc]

theorem awake_append (s : Stream) (data : List Char) : (s.append data).Awake := by
  intro _ _
  show 0 < s.posting + 1 + s.resumes
  omega

/-- A turn moves bytes from the buffer to the stream, the first ones first. -/
theorem Holds.turn (h : s.Holds written) (t : Turn) : (s.turn t).Holds written := by
  cases t with
  | post =>
      simp only [Stream.turn, Stream.post]
      split <;> exact h
  | resume =>
      simp only [Stream.turn, Stream.resume]
      split <;> exact h
  | generate len =>
      simp only [Stream.turn, Stream.generate]
      split
      · exact h
      · split
        · exact h
        · unfold Holds at h ⊢
          rw [List.append_assoc, List.take_append_drop]
          exact h

/-- A stream is paused only over an empty buffer, and a resumption used up unpauses it. -/
theorem Awake.turn (h : s.Awake) (t : Turn) : (s.turn t).Awake := by
  cases t with
  | post =>
      simp only [Stream.turn, Stream.post]
      split
      · exact h
      · intro _ _
        show 0 < s.posting - 1 + (s.resumes + 1)
        omega
  | resume =>
      simp only [Stream.turn, Stream.resume]
      split
      · exact h
      · intro _ hdeferred
        cases hdeferred
  | generate len =>
      simp only [Stream.turn, Stream.generate]
      split
      · exact h
      · split
        · next hempty =>
            intro hbuffer _
            exact absurd (List.isEmpty_iff.mp hempty) hbuffer
        · next hrunning _ =>
            intro _ hdeferred
            exact absurd hdeferred hrunning

/-- A call of the generator for all there is. -/
theorem generate_all (h : s.Holds written) (hrunning : s.deferred = false)
    (hbytes : s.buffer ≠ []) :
    (s.turn (.generate s.buffer.length)).sent = written
      ∧ (s.turn (.generate s.buffer.length)).buffer = [] := by
  have hempty : s.buffer.isEmpty = false := by
    cases hb : s.buffer with
    | nil => exact absurd hb hbytes
    | cons c cs => rfl
  simp only [Stream.turn, Stream.generate, hrunning, hempty, Nat.min_self, List.take_length,
    List.drop_length]
  exact ⟨h, rfl⟩

/-- **NO STALL**: what waits in a buffer goes out in three turns at most. -/
theorem Awake.drains (hawake : s.Awake) (h : s.Holds written) :
    ∃ turns : List Turn, turns.length ≤ 3 ∧ (run Stream.turn s turns).sent = written
      ∧ (run Stream.turn s turns).buffer = [] := by
  by_cases hbuffer : s.buffer = []
  · refine ⟨[], Nat.zero_le 3, ?_, hbuffer⟩
    unfold Holds at h
    rw [hbuffer, List.append_nil] at h
    exact h
  · cases hdeferred : s.deferred with
    | false =>
        obtain ⟨hsent, hnone⟩ := generate_all h hdeferred hbuffer
        exact ⟨[.generate s.buffer.length], by simp, hsent, hnone⟩
    | true =>
        have hcoming := hawake hbuffer hdeferred
        by_cases hresumes : s.resumes = 0
        · -- the resumption is still to be posted
          have hposting : s.posting ≠ 0 := by omega
          have hresumed : ((s.turn .post).turn .resume).deferred = false
              ∧ ((s.turn .post).turn .resume).buffer = s.buffer := by
            simp [Stream.turn, Stream.post, Stream.resume, hposting]
          obtain ⟨hsent, hnone⟩ := generate_all ((h.turn .post).turn .resume) hresumed.1
            (by rw [hresumed.2]; exact hbuffer)
          exact ⟨[.post, .resume, .generate _], by simp, hsent, hnone⟩
        · have hresumed : (s.turn .resume).deferred = false
              ∧ (s.turn .resume).buffer = s.buffer := by
            simp [Stream.turn, Stream.resume, hresumes]
          obtain ⟨hsent, hnone⟩ := generate_all (h.turn .resume) hresumed.1
            (by rw [hresumed.2]; exact hbuffer)
          exact ⟨[.resume, .generate _], by simp, hsent, hnone⟩

end Stream

/-! ## The connections with their streams -/

/-- The vault with its calls and connections, and the stream of each connection. -/
structure State (ι : Type) where
  events : H2Sse.State ι
  stream : Nat → Stream

inductive Act (ι : Type) where
  | store (i : ι)
  | read (i : ι)
  | check (i : ι)
  | write (i : ι)
  | connect (rawQuery : String)
  | disconnect (id : Nat)
  | turn (id : Nat) (t : Turn)

variable {ι : Type}

def start (vault : Vault) : State ι := ⟨H2Sse.State.start vault, fun _ => .fresh⟩

/-- The connections that an event about a key is written to. -/
def watchers (connections : List Connection) (key : String) : List Nat :=
  (connections.filter (fun c => c.watches key)).map Connection.id

section Steps

variable [DecidableEq ι] (lib : Lib) (calls : ι → Call) (s : State ι)

/-- The test for connections and the text behind it; when the dump throws, the exception
    leaves the call. -/
def check (i : ι) : State ι :=
  match s.events.call i with
  | .taken value =>
      if s.events.connections.isEmpty = false ∧ eventText lib (calls i).key value = none then
        { s with events := s.events.setCall i .done }
      else { s with events := s.events.step calls (.check i) }
  | _ => s

/-- The callbacks of the connections that watch the key. -/
def write (i : ι) : State ι :=
  match s.events.call i with
  | .formatted value =>
      { events := s.events.step calls (.write i)
        stream := fun id =>
          if id ∈ watchers s.events.connections (calls i).key then
            (s.stream id).append ((eventText lib (calls i).key value).getD [])
          else s.stream id }
  | _ => s

def step : Act ι → State ι
  | .store i => { s with events := s.events.step calls (.store i) }
  | .read i => { s with events := s.events.step calls (.read i) }
  | .check i => check lib calls s i
  | .write i => write lib calls s i
  | .connect rawQuery =>
      { events := s.events.step calls (.addConnection (watchedKeys rawQuery))
        stream := Function.update s.stream s.events.nextId .fresh }
  | .disconnect id => { s with events := s.events.step calls (.removeConnection id) }
  | .turn id t => { s with stream := Function.update s.stream id ((s.stream id).turn t) }

end Steps

/-! ## What every run keeps -/

/-- **The invariant.**  Connections have different identifiers, every event under way has
    a text, and the stream of a connection holds the texts of its events. -/
structure Delivering (lib : Lib) (calls : ι → Call) (s : State ι) : Prop where
  nodup : (s.events.connections.map Connection.id).Nodup
  formatted : ∀ i value, s.events.call i = .formatted value →
    (eventText lib (calls i).key value).isSome = true
  textual : ∀ c ∈ s.events.connections, ∀ e ∈ c.events, (eventText lib e.1 e.2).isSome = true
  holds : ∀ c ∈ s.events.connections, (s.stream c.id).Holds (eventsText lib c.events)
  awake : ∀ c ∈ s.events.connections, (s.stream c.id).Awake

theorem delivering_start (lib : Lib) (calls : ι → Call) (vault : Vault) :
    Delivering lib calls (start vault) where
  nodup := List.nodup_nil
  formatted i value h := by cases h
  textual c hc := by cases hc
  holds c hc := by cases hc
  awake c hc := by cases hc

section Runs

variable [DecidableEq ι] {lib : Lib} {calls : ι → Call} {s : State ι}

omit [DecidableEq ι] in
/-- The calls move on beside the connections. -/
theorem Delivering.beside (h : Delivering lib calls s) {events : H2Sse.State ι}
    (hconn : events.connections = s.events.connections)
    (hformatted : ∀ i value, events.call i = .formatted value →
      (eventText lib (calls i).key value).isSome = true) :
    Delivering lib calls { s with events := events } where
  nodup := by rw [hconn]; exact h.nodup
  formatted := hformatted
  textual := by rw [hconn]; exact h.textual
  holds := by rw [hconn]; exact h.holds
  awake := by rw [hconn]; exact h.awake

/-- A call that goes elsewhere than to its event. -/
theorem Delivering.formatted_update (h : Delivering lib calls s) (i : ι) (pc : CallPc)
    (hpc : ∀ value, pc = .formatted value → (eventText lib (calls i).key value).isSome = true)
    (j : ι) (value : Json) (hj : Function.update s.events.call i pc j = .formatted value) :
    (eventText lib (calls j).key value).isSome = true := by
  by_cases hji : j = i
  · subst hji
    rw [Function.update_self] at hj
    exact hpc value hj
  · rw [Function.update_of_ne hji] at hj
    exact h.formatted j value hj

theorem Delivering.store (h : Delivering lib calls s) (i : ι) :
    Delivering lib calls (step lib calls s (.store i)) := by
  simp only [step, H2Sse.State.step]
  split
  · split
    · refine h.beside rfl (h.formatted_update i _ (fun value hv => ?_))
      cases hc : calls i <;> rw [hc] at hv <;> cases hv
    · exact h.beside rfl (h.formatted_update i _ (fun value hv => by cases hv))
  · exact h

theorem Delivering.read (h : Delivering lib calls s) (i : ι) :
    Delivering lib calls (step lib calls s (.read i)) := by
  simp only [step, H2Sse.State.step]
  split
  · exact h.beside rfl (h.formatted_update i _ (fun value hv => by cases hv))
  · exact h

/-- Only an event with a text goes on. -/
theorem Delivering.check (h : Delivering lib calls s) (i : ι) :
    Delivering lib calls (step lib calls s (.check i)) := by
  simp only [step, H2SseDelivery.check]
  split
  · next value hi =>
      split
      · exact h.beside rfl (h.formatted_update i _ (fun _ hv => by cases hv))
      · next htext =>
          simp only [H2Sse.State.step, hi]
          split
          · exact h.beside rfl (h.formatted_update i _ (fun _ hv => by cases hv))
          · next hsome =>
              refine h.beside rfl (h.formatted_update i _ (fun value' hv => ?_))
              cases hv
              rw [Option.isSome_iff_ne_none]
              exact fun hnone => htext ⟨Bool.eq_false_iff.mpr hsome, hnone⟩
  · exact h

omit [DecidableEq ι] in
theorem mem_watchers (h : Delivering lib calls s) {c : Connection}
    (hc : c ∈ s.events.connections) (key : String) :
    c.id ∈ watchers s.events.connections key ↔ c.watches key = true := by
  simp only [watchers, List.mem_map, List.mem_filter]
  constructor
  · rintro ⟨c', ⟨hc', hwatch⟩, hid⟩
    rw [← KeyedList.eq_of_key_eq h.nodup hc' hc hid]
    exact hwatch
  · exact fun hwatch => ⟨c, ⟨hc, hwatch⟩, rfl⟩

/-- An event goes to the streams of the connections that watch its key. -/
theorem Delivering.write (h : Delivering lib calls s) (i : ι) :
    Delivering lib calls (step lib calls s (.write i)) := by
  simp only [step, H2SseDelivery.write]
  split
  · next value hi =>
      have htext := h.formatted i value hi
      simp only [H2Sse.State.step, hi]
      refine { nodup := ?_, formatted := ?_, textual := ?_, holds := ?_, awake := ?_ }
      · have hids : (s.events.connections.map (Connection.write (calls i).key value)).map
            Connection.id = s.events.connections.map Connection.id := by
          rw [List.map_map]
          refine List.map_congr_left (fun c _ => ?_)
          simp only [Function.comp, Connection.write]
          split <;> rfl
        show ((s.events.connections.map _).map Connection.id).Nodup
        rw [hids]
        exact h.nodup
      · exact h.formatted_update i _ (fun _ hv => by cases hv)
      · intro c' hc' e he
        obtain ⟨c, hc, rfl⟩ := List.mem_map.mp hc'
        rw [Connection.write] at he
        split at he
        · rcases List.mem_append.mp he with he | he
          · exact h.textual c hc e he
          · rw [List.mem_singleton.mp he]
            exact htext
        · exact h.textual c hc e he
      · intro c' hc'
        obtain ⟨c, hc, rfl⟩ := List.mem_map.mp hc'
        by_cases hwatch : c.watches (calls i).key = true
        · have hmem := (mem_watchers h hc (calls i).key).mpr hwatch
          rw [Connection.write, if_pos hwatch]
          simp only [hmem, if_true, eventsText_append]
          exact (h.holds c hc).append _
        · have hmem : c.id ∉ watchers s.events.connections (calls i).key :=
            fun hm => hwatch ((mem_watchers h hc (calls i).key).mp hm)
          rw [Connection.write, if_neg hwatch]
          simp only [hmem, if_false]
          exact h.holds c hc
      · intro c' hc'
        obtain ⟨c, hc, rfl⟩ := List.mem_map.mp hc'
        have hid : (c.write (calls i).key value).id = c.id := by
          rw [Connection.write]
          split <;> rfl
        rw [hid]
        by_cases hmem : c.id ∈ watchers s.events.connections (calls i).key
        · simp only [hmem, if_true]
          exact Stream.awake_append _ _
        · simp only [hmem, if_false]
          exact h.awake c hc
  · exact h

/-- A new connection begins with an empty stream, whatever identifier it gets. -/
theorem Delivering.connect (h : Delivering lib calls s) (rawQuery : String) :
    Delivering lib calls (step lib calls s (.connect rawQuery)) := by
  simp only [step, H2Sse.State.step]
  have hnodup := KeyedList.nodup_put
    (⟨s.events.nextId, watchedKeys rawQuery, [], s.events.stores⟩ : Connection) h.nodup
  have hcases : ∀ c ∈ KeyedList.put Connection.id
      ⟨s.events.nextId, watchedKeys rawQuery, [], s.events.stores⟩ s.events.connections,
      c.events = [] ∧ c.id = s.events.nextId
        ∨ c ∈ s.events.connections ∧ c.id ≠ s.events.nextId := by
    intro c hc
    by_cases hid : c.id = s.events.nextId
    · have hentry := KeyedList.entryOf_of_mem hnodup hc
      rw [KeyedList.entryOf_put, if_pos hid] at hentry
      cases hentry
      exact Or.inl ⟨rfl, rfl⟩
    · rcases KeyedList.mem_put hc with rfl | hold
      · exact absurd rfl hid
      · exact Or.inr ⟨hold, hid⟩
  refine { nodup := hnodup, formatted := h.formatted, textual := ?_, holds := ?_, awake := ?_ }
  · intro c hc e he
    rcases hcases c hc with ⟨hnone, _⟩ | ⟨hold, _⟩
    · rw [hnone] at he
      cases he
    · exact h.textual c hold e he
  · intro c hc
    rcases hcases c hc with ⟨hnone, hid⟩ | ⟨hold, hne⟩
    · show (Function.update s.stream s.events.nextId .fresh c.id).Holds _
      rw [hid, Function.update_self, hnone]
      rfl
    · show (Function.update s.stream s.events.nextId .fresh c.id).Holds _
      rw [Function.update_of_ne hne]
      exact h.holds c hold
  · intro c hc
    rcases hcases c hc with ⟨_, hid⟩ | ⟨hold, hne⟩
    · show (Function.update s.stream s.events.nextId .fresh c.id).Awake
      rw [hid, Function.update_self]
      exact fun hbuffer => absurd rfl hbuffer
    · show (Function.update s.stream s.events.nextId .fresh c.id).Awake
      rw [Function.update_of_ne hne]
      exact h.awake c hold

theorem Delivering.disconnect (h : Delivering lib calls s) (id : Nat) :
    Delivering lib calls (step lib calls s (.disconnect id)) where
  nodup := h.nodup.sublist (List.Sublist.map _ List.filter_sublist)
  formatted := h.formatted
  textual c hc := h.textual c (List.mem_of_mem_filter hc)
  holds c hc := h.holds c (List.mem_of_mem_filter hc)
  awake c hc := h.awake c (List.mem_of_mem_filter hc)

theorem Delivering.turn (h : Delivering lib calls s) (id : Nat) (t : Turn) :
    Delivering lib calls (step lib calls s (.turn id t)) := by
  refine { h with holds := ?_, awake := ?_ }
  · intro c hc
    show (Function.update s.stream id ((s.stream id).turn t) c.id).Holds _
    by_cases hid : c.id = id
    · rw [← hid, Function.update_self]
      exact (h.holds c hc).turn t
    · rw [Function.update_of_ne hid]
      exact h.holds c hc
  · intro c hc
    show (Function.update s.stream id ((s.stream id).turn t) c.id).Awake
    by_cases hid : c.id = id
    · rw [← hid, Function.update_self]
      exact (h.awake c hc).turn t
    · rw [Function.update_of_ne hid]
      exact h.awake c hc

/-- **STEP LEMMA**. -/
theorem Delivering.step (h : Delivering lib calls s) (a : Act ι) :
    Delivering lib calls (step lib calls s a) := by
  cases a with
  | store i => exact h.store i
  | read i => exact h.read i
  | check i => exact h.check i
  | write i => exact h.write i
  | connect rawQuery => exact h.connect rawQuery
  | disconnect id => exact h.disconnect id
  | turn id t => exact h.turn id t

end Runs

/-- The state at the end of a run. -/
def reached [DecidableEq ι] (lib : Lib) (calls : ι → Call) (vault : Vault)
    (acts : List (Act ι)) : State ι :=
  run (step lib calls) (start vault) acts

/-- Turns of one stream leave the calls and the connections alone. -/
theorem turns_run [DecidableEq ι] (lib : Lib) (calls : ι → Call) (id : Nat) (turns : List Turn)
    (s : State ι) :
    (run (step lib calls) s (turns.map (Act.turn id))).events = s.events
      ∧ (run (step lib calls) s (turns.map (Act.turn id))).stream id
        = run Stream.turn (s.stream id) turns := by
  induction turns generalizing s with
  | nil => exact ⟨rfl, rfl⟩
  | cons t turns ih =>
      obtain ⟨hevents, hstream⟩ := ih (step lib calls s (.turn id t))
      refine ⟨hevents, hstream.trans ?_⟩
      show run Stream.turn (Function.update s.stream id ((s.stream id).turn t) id) turns = _
      rw [Function.update_self]
      rfl

/-- **DELIVERY**: in every run of calls, connections, posted resumptions and generator
    calls of any lengths, in any order, what each connection's stream has handed over and
    still has in its buffer is the text of each of its events, in order, every one of
    which has a text; and at most three more turns of that stream hand all of it over. -/
theorem stream_delivery [DecidableEq ι] (lib : Lib) (calls : ι → Call) (vault : Vault)
    (acts : List (Act ι)) :
    ∀ c ∈ (reached lib calls vault acts).events.connections,
      ((reached lib calls vault acts).stream c.id).sent
          ++ ((reached lib calls vault acts).stream c.id).buffer = eventsText lib c.events
        ∧ (∀ e ∈ c.events, (eventText lib e.1 e.2).isSome = true)
        ∧ ∃ turns : List Turn, turns.length ≤ 3
          ∧ ((reached lib calls vault (acts ++ turns.map (Act.turn c.id))).stream c.id).sent
            = eventsText lib c.events
          ∧ c ∈ (reached lib calls vault
              (acts ++ turns.map (Act.turn c.id))).events.connections := by
  intro c hc
  have h : Delivering lib calls (reached lib calls vault acts) :=
    run_invariant (I := Delivering lib calls) (fun _ a hs => hs.step a) acts _
      (delivering_start lib calls vault)
  refine ⟨h.holds c hc, h.textual c hc, ?_⟩
  obtain ⟨turns, hlength, hsent, -⟩ := (h.awake c hc).drains (h.holds c hc)
  obtain ⟨hevents, hstream⟩ := turns_run lib calls c.id turns (reached lib calls vault acts)
  refine ⟨turns, hlength, ?_, ?_⟩
  · unfold reached at hstream hsent ⊢
    rw [run_append, hstream]
    exact hsent
  · unfold reached at hevents hc ⊢
    rw [run_append, hevents]
    exact hc

/-- A library that dumps everything as one text. -/
def textLib : Lib := { H2Transformation.idleLib with dump := fun _ => some "[]" }

/-- A connection that has seen one store. -/
def phaseWatcher : Connection := ⟨1, ["phase"], [("phase", .str "first")], 0⟩

/-- A connection, and the store of one value. -/
def oneStore : List (Act Bool) := [.connect "key=phase", .store true, .check true, .write true]

/-- The store reaches the connection. -/
theorem phase_delivered :
    ∃ turns : List Turn, turns.length ≤ 3
      ∧ ((reached textLib State.twoCalls ∅ (oneStore ++ turns.map (Act.turn 1))).stream 1).sent
        = eventsText textLib [("phase", .str "first")] := by
  obtain ⟨-, -, turns, hlength, hsent, -⟩ := stream_delivery textLib State.twoCalls ∅ oneStore
    phaseWatcher (List.mem_of_getElem? (show _[0]? = some phaseWatcher from rfl))
  exact ⟨turns, hlength, hsent⟩

end H2SseDelivery
