import H2agent.ProvisionStoreProofs

/-! # Lookups by joined keys — when the entry found is the one asked for

    Provisions are found by state, method and uri, server events by method and
    uri, client events by endpoint, method and uri; each time the parts are
    joined with `#` and the text is looked up.  The schemas keep the mark out of
    the states and methods that are configured.  Those a transformation or a
    request brings are not checked, and a part with a mark in it can spell the
    key of an entry with other parts.

    * `calculateStringKey_inj`: without marks in the first two parts the join is
      read back in one way;
    * `Keyed`: what a store holds under a key has that key;
    * `lookups_sound_iff`: over all runs of the three stores. -/

namespace H2Lookup

open H2Convert H2Key H2Load H2Provisions H2ServerProvision H2Store H2Traffic H2Transformation
open JsonValue StepRun

/-! ## Joined parts -/

/-- A text without the mark that joins the parts of a key. -/
def Plain (s : String) : Prop := '#' ∉ s.toList

instance (s : String) : Decidable (Plain s) := inferInstanceAs (Decidable (¬ _))

/-- What follows the first mark of a key. -/
def afterFirst (k2 k3 : String) : List Char :=
  if k3.isEmpty then k2.toList else k2.toList ++ '#' :: k3.toList

theorem calculateStringKey_toList (k1 k2 k3 : String) :
    (calculateStringKey k1 k2 k3).toList = k1.toList ++ '#' :: afterFirst k2 k3 := by
  unfold calculateStringKey afterFirst
  by_cases h : k3.isEmpty = true
  · rw [if_pos h, if_pos h]
    simp
  · rw [if_neg h, if_neg h]
    simp

theorem afterFirst_inj {k2 k3 k2' k3' : String} (h2 : Plain k2) (h2' : Plain k2')
    (h : afterFirst k2 k3 = afterFirst k2' k3') : k2 = k2' ∧ k3 = k3' := by
  unfold afterFirst at h
  by_cases he : k3.isEmpty = true
  · by_cases he' : k3'.isEmpty = true
    · rw [if_pos he, if_pos he'] at h
      rw [String.isEmpty_iff] at he he'
      exact ⟨String.toList_inj.mp h, he.trans he'.symm⟩
    · rw [if_pos he, if_neg he'] at h
      exact absurd (h ▸ List.mem_append_right _ List.mem_cons_self) h2
  · by_cases he' : k3'.isEmpty = true
    · rw [if_neg he, if_pos he'] at h
      exact absurd (h ▸ List.mem_append_right _ List.mem_cons_self) h2'
    · rw [if_neg he, if_neg he'] at h
      obtain ⟨hk2, hk3⟩ := cut_inj h2 h2' h
      exact ⟨String.toList_inj.mp hk2, String.toList_inj.mp hk3⟩

/-- **THE JOIN READ BACK**: without marks in the first two parts, on both sides,
    equal keys have equal parts. -/
theorem calculateStringKey_inj {k1 k2 k3 k1' k2' k3' : String} (h1 : Plain k1) (h2 : Plain k2)
    (h1' : Plain k1') (h2' : Plain k2')
    (h : calculateStringKey k1 k2 k3 = calculateStringKey k1' k2' k3') :
    k1 = k1' ∧ k2 = k2' ∧ k3 = k3' := by
  have hlist := congrArg String.toList h
  rw [calculateStringKey_toList, calculateStringKey_toList] at hlist
  obtain ⟨hk1, hrest⟩ := cut_inj h1 h1' hlist
  exact ⟨String.toList_inj.mp hk1, afterFirst_inj h2 h2' hrest⟩

/-- With two parts only the first has to be without marks. -/
theorem calculateStringKey_pair_inj {k1 k2 k1' k2' : String} (h1 : Plain k1) (h1' : Plain k1')
    (h : calculateStringKey k1 k2 "" = calculateStringKey k1' k2' "") :
    k1 = k1' ∧ k2 = k2' := by
  have hlist := congrArg String.toList h
  rw [calculateStringKey_toList, calculateStringKey_toList] at hlist
  obtain ⟨hk1, hrest⟩ := cut_inj h1 h1' hlist
  exact ⟨String.toList_inj.mp hk1, String.toList_inj.mp hrest⟩

/-! ## Provisions and their documents -/

/-- What the schema of a provision asks of the parts of its key: a state without
    marks, and one of five methods. -/
def keySchema (j : Json) : Bool :=
  (match find "inState" j with
    | some (.str s) => !s.toList.contains '#'
    | some _ => false
    | none => true)
  && (match find "requestMethod" j with
    | some (.str s) => ["POST", "GET", "PUT", "DELETE", "HEAD"].contains s
    | _ => false)

/-- A provision whose state and method are without marks. -/
def PlainProvision (p : Provisioned) : Prop :=
  Plain p.provision.inState ∧ Plain p.requestMethod

/-- The parts of the key a document is loaded with. -/
theorem loadProvision_key {lib : Lib} {compiles : String → Bool} {schemaOf : String → Option Json}
    {regexMatchingConfigured : Bool} {j : Json} {p : Provisioned}
    (h : loadProvision lib compiles schemaOf regexMatchingConfigured j = .ok (some p)) :
    find "requestMethod" j = some (.str p.requestMethod)
      ∧ p.provision.inState = stateMember "inState" j := by
  unfold loadProvision at h
  obtain ⟨requestMethod, hmethod, h⟩ := bind_ok h
  obtain ⟨responseCode, _, h⟩ := bind_ok h
  have hfind := deref_getString hmethod
  dsimp only at h
  split at h
  · cases h
  · obtain ⟨responseHeaders, _, h⟩ := bind_ok h
    obtain ⟨⟨responseBody, responseBodyAsString⟩, _, h⟩ := bind_ok h
    obtain ⟨responseDelayMs, _, h⟩ := bind_ok h
    obtain ⟨transformations, _, h⟩ := bind_ok h
    dsimp only at h
    split at h
    · split at h
      · obtain rfl := Option.some.inj (Except.ok.inj h)
        exact ⟨hfind, rfl⟩
      · cases h
    · obtain rfl := Option.some.inj (Except.ok.inj h)
      exact ⟨hfind, rfl⟩

/-- A document that meets the schema loads as a plain provision. -/
theorem plain_of_keySchema {j : Json} (h : keySchema j = true) {p : Provisioned}
    (hmethod : find "requestMethod" j = some (.str p.requestMethod))
    (hstate : p.provision.inState = stateMember "inState" j) : PlainProvision p := by
  obtain ⟨h1, h2⟩ := Bool.and_eq_true_iff.mp h
  refine ⟨?_, ?_⟩
  · have hinitial : Plain defaultState := by decide
    rw [hstate, stateMember, stringMember]
    cases hf : find "inState" j with
    | none => exact hinitial
    | some v =>
        rw [hf] at h1
        cases v with
        | str s =>
            dsimp only at h1 ⊢
            by_cases he : s.isEmpty = true
            · rw [if_pos he]
              exact hinitial
            · rw [if_neg he]
              simpa [Plain] using h1
        | _ => cases h1
  · rw [hmethod] at h2
    have hmem : p.requestMethod ∈ ["POST", "GET", "PUT", "DELETE", "HEAD"] :=
      List.contains_iff_mem.mp h2
    have hall : ∀ m ∈ ["POST", "GET", "PUT", "DELETE", "HEAD"], Plain m := by decide
    exact hall _ hmem

/-- What the map of provisions holds under a key has that key, and came from a
    document that met the schema. -/
def ProvisionsKeyed (d : AdminServerProvisionData) : Prop :=
  ∀ k p, d.map.lookup k = some p → p.getKey = k ∧ PlainProvision p

theorem ProvisionsKeyed.add {d : AdminServerProvisionData} (hd : ProvisionsKeyed d)
    {p : Provisioned} (hp : PlainProvision p) : ProvisionsKeyed (d.add p) :=
  forall_insert hd ⟨rfl, hp⟩

variable {l : Loader}

theorem ProvisionsKeyed.loadSingle (hl : ∀ j, l.validate j = true → keySchema j = true)
    {d : AdminServerProvisionData} (hd : ProvisionsKeyed d) (regexMatchingConfigured : Bool)
    (j : Json) : ProvisionsKeyed (H2Provisions.loadSingle l regexMatchingConfigured j d).2 := by
  unfold H2Provisions.loadSingle
  by_cases hv : l.validate j = true
  · rw [if_pos hv]
    cases hp : loadProvision l.lib l.compiles l.schemaOf regexMatchingConfigured j with
    | error e => exact hd
    | ok loaded =>
        cases loaded with
        | none => exact hd
        | some p =>
            obtain ⟨hmethod, hstate⟩ := loadProvision_key hp
            exact hd.add (plain_of_keySchema (hl j hv) hmethod hstate)
  · rw [if_neg hv]
    exact hd

theorem ProvisionsKeyed.loadArray (hl : ∀ j, l.validate j = true → keySchema j = true)
    (regexMatchingConfigured : Bool) (items : List Json) {d : AdminServerProvisionData}
    (hd : ProvisionsKeyed d) :
    ProvisionsKeyed (H2Provisions.loadArray l regexMatchingConfigured items d).2 := by
  induction items generalizing d with
  | nil => exact hd
  | cons j rest ih =>
      have hone := hd.loadSingle hl regexMatchingConfigured j
      unfold H2Provisions.loadArray
      split
      · rename_i heq
        rw [heq] at hone
        exact ih hone
      · exact hone

/-- **STEP LEMMA**: every operation keeps the map of provisions keyed. -/
theorem ProvisionsKeyed.step (hl : ∀ j, l.validate j = true → keySchema j = true)
    {d : AdminServerProvisionData} (hd : ProvisionsKeyed d) (act : StoreAct) :
    ProvisionsKeyed (storeStep l d act) := by
  cases act with
  | clear => intro k p h; cases h
  | load regexMatchingConfigured j =>
      show ProvisionsKeyed (loadDocument l regexMatchingConfigured j d).2
      unfold loadDocument
      split
      · exact hd.loadArray hl regexMatchingConfigured _
      · exact hd.loadSingle hl regexMatchingConfigured _

/-! ## Histories and their keys -/

section Data

variable {E : Type}

/-- What a store of events holds under a key has that key, and a data key the
    store was given. -/
def Keyed (C : DataKey → Prop) (m : MockData E) : Prop :=
  ∀ k h, m.lookup k = some h → h.dataKey.getKey = k ∧ C h.dataKey

variable {C : DataKey → Prop} {m : MockData E}

theorem Keyed.insert (hm : Keyed C m) {k : String} {h : MockEventsHistory E}
    (hk : h.dataKey.getKey = k ∧ C h.dataKey) : Keyed C (AList.insert k h m) :=
  forall_insert hm hk

theorem Keyed.erase (hm : Keyed C m) (k : String) : Keyed C (AList.erase k m) :=
  forall_erase hm k

theorem keyed_empty (C : DataKey → Prop) : Keyed C (∅ : MockData E) := forall_empty _

@[simp] theorem loadEvent_dataKey (h : MockEventsHistory E) (event : E) (historyEnabled : Bool) :
    (h.loadEvent event historyEnabled).dataKey = h.dataKey := by
  unfold MockEventsHistory.loadEvent
  split <;> rfl

@[simp] theorem removeEvent_dataKey (h : MockEventsHistory E) (n : Nat) (reverse : Bool) :
    (h.removeEvent n reverse).2.dataKey = h.dataKey := by
  unfold MockEventsHistory.removeEvent
  split
  · rfl
  · split <;> rfl

@[simp] theorem removeEventBySeq_dataKey [MockEventLike E] (h : MockEventsHistory E) (seq : Nat) :
    (h.removeEventBySeq seq).2.dataKey = h.dataKey := by
  unfold MockEventsHistory.removeEventBySeq
  split <;> rfl

theorem Keyed.loadEvent (hm : Keyed C m) {dataKey : DataKey} (hc : C dataKey) (event : E)
    (historyEnabled : Bool) : Keyed C (MockClientData.loadEvent m dataKey event historyEnabled) := by
  unfold MockClientData.loadEvent
  cases hlook : m.lookup dataKey.getKey with
  | none =>
      refine hm.insert ?_
      rw [loadEvent_dataKey]
      exact ⟨rfl, hc⟩
  | some h =>
      refine hm.insert ?_
      rw [loadEvent_dataKey]
      exact hm _ h hlook

theorem Keyed.clear (hm : Keyed C m) (ekey : EventKey) : Keyed C (m.clear ekey).2.2 := by
  unfold MockData.clear
  split
  · intro k h hlook
    cases hlook
  · split
    · exact hm
    · cases hlook : m.lookup ekey.getKey with
      | none => exact hm
      | some h =>
          dsimp only
          split
          · cases ekey.position with
            | none => exact hm
            | some place =>
                dsimp only
                split
                · exact hm.erase _
                · refine hm.insert ?_
                  rw [removeEvent_dataKey]
                  exact hm _ h hlook
          · exact hm.erase _

theorem Keyed.removeEventBySeq [MockEventLike E] (hm : Keyed C m) (dataKey : DataKey) (seq : Nat) :
    Keyed C (m.removeEventBySeq dataKey seq).2 := by
  unfold MockData.removeEventBySeq
  cases hlook : m.lookup dataKey.getKey with
  | none => exact hm
  | some h =>
      dsimp only
      split
      · exact hm.erase _
      · refine hm.insert ?_
        rw [removeEventBySeq_dataKey]
        exact hm _ h hlook

theorem Keyed.storeChainVariables (hm : Keyed C m) (dataKey : DataKey)
    (chainVariables : TextMap String) :
    Keyed C (m.storeChainVariables dataKey chainVariables) := by
  unfold MockData.storeChainVariables
  cases hlook : m.lookup dataKey.getKey with
  | none => exact hm
  | some h => exact hm.insert (hm _ h hlook)

/-- The data key an operation may create a history with. -/
def creates : StoreOp E → Option DataKey
  | .loadEvent dataKey _ _ => some dataKey
  | _ => none

/-- **STEP LEMMA**: every operation keeps a store of events keyed. -/
theorem Keyed.exec [MockEventLike E] (hm : Keyed C m) (op : StoreOp E)
    (hop : ∀ k ∈ creates op, C k) : Keyed C (clientExec m op).2 := by
  cases op with
  | loadEvent dataKey event historyEnabled => exact hm.loadEvent (hop _ rfl) event historyEnabled
  | clear ekey => exact hm.clear ekey
  | removeEventBySeq dataKey seq => exact hm.removeEventBySeq dataKey seq
  | storeChainVariables dataKey vars => exact hm.storeChainVariables dataKey vars
  | getEvent ekey => exact hm
  | findLastRegisteredRequestState dataKey => exact hm

/-! ## The three stores in one run -/

/-- An operation on a store whose data keys have so many parts. -/
structure KeyedOp (E : Type) (nkeys : Nat) where
  op : StoreOp E
  parts : ∀ k ∈ creates op, k.nkeys = nkeys

/-- The stores looked up by joined keys. -/
structure Stores (E : Type) where
  provisions : AdminServerProvisionData
  server : MockServerData E
  client : MockClientData E

/-- The operations of all of them, in any order. -/
inductive Act (E : Type) where
  | provision (act : StoreAct)
  | server (op : KeyedOp E 2)
  | client (op : KeyedOp E 3)

def Stores.fresh : Stores E := ⟨emptied, MockServerData.fresh, ∅⟩

/-- One operation. -/
def Stores.step [MockEventLike E] (l : Loader) (s : Stores E) : Act E → Stores E
  | .provision act => { s with provisions := storeStep l s.provisions act }
  | .server op => { s with server := (serverExec s.server op.op).2 }
  | .client op => { s with client := (clientExec s.client op.op).2 }

/-- A key whose joined text can be read back. -/
def PlainKey (k : DataKey) : Prop :=
  Plain k.method ∧ (k.nkeys = 3 → Plain k.clientEndpointId)

/-- The condition on a step: an event is stored under a method, and for a client
    an endpoint, without marks.  What the schema asks of provisions is enough. -/
def Act.Plain : Act E → Prop
  | .provision _ => True
  | .server op => ∀ k ∈ creates op.op, PlainKey k
  | .client op => ∀ k ∈ creates op.op, PlainKey k

/-- What is known of the keys of all three stores. -/
structure StoresKeyed (s : Stores E) : Prop where
  provisions : ProvisionsKeyed s.provisions
  server : Keyed (fun k => k.nkeys = 2 ∧ PlainKey k) s.server.map
  client : Keyed (fun k => k.nkeys = 3 ∧ PlainKey k) s.client

theorem storesKeyed_fresh : StoresKeyed (Stores.fresh : Stores E) := by
  refine ⟨?_, keyed_empty _, keyed_empty _⟩
  intro k p h
  cases h

theorem StoresKeyed.step [MockEventLike E]
    (hl : ∀ j, l.validate j = true → keySchema j = true) {s : Stores E} (hs : StoresKeyed s)
    {a : Act E} (ha : a.Plain) : StoresKeyed (s.step l a) := by
  cases a with
  | provision act => exact ⟨hs.provisions.step hl act, hs.server, hs.client⟩
  | server op =>
      refine ⟨hs.provisions, ?_, hs.client⟩
      show Keyed _ (serverExec s.server op.op).2.map
      rw [(serverExec_map s.server op.op).2]
      exact hs.server.exec op.op (fun k hk => ⟨op.parts k hk, ha k hk⟩)
  | client op =>
      refine ⟨hs.provisions, hs.server, ?_⟩
      exact hs.client.exec op.op (fun k hk => ⟨op.parts k hk, ha k hk⟩)

/-- **RUN LEMMA**: after plain steps all three stores are keyed. -/
theorem run_storesKeyed [MockEventLike E] (hl : ∀ j, l.validate j = true → keySchema j = true)
    (acts : List (Act E)) (hacts : ∀ a ∈ acts, a.Plain) {s : Stores E} (hs : StoresKeyed s) :
    StoresKeyed (run (Stores.step l) s acts) := by
  induction acts generalizing s with
  | nil => exact hs
  | cons a acts ih =>
      refine ih (fun b hb => hacts b (List.mem_cons_of_mem _ hb)) ?_
      exact hs.step hl (hacts a List.mem_cons_self)

/-! ## The lookups -/

/-- The history a data key is answered with. -/
def historyOf (m : MockData E) (k : DataKey) : Option (MockEventsHistory E) := m.lookup k.getKey

theorem getKey_of_two {k : DataKey} (h : k.nkeys = 2) :
    k.getKey = calculateStringKey k.method k.uri "" := by
  unfold DataKey.getKey
  rw [h]
  rfl

theorem getKey_of_three {k : DataKey} (h : k.nkeys = 3) :
    k.getKey = calculateStringKey k.clientEndpointId k.method k.uri := by
  unfold DataKey.getKey
  rw [h]
  rfl

theorem find_sound_iff {s : Stores E} (hs : StoresKeyed s) {inState method uri : String}
    {p : Provisioned} (h : s.provisions.find inState method uri = some p) :
    (p.provision.inState = inState ∧ p.requestMethod = method ∧ p.requestUri = uri)
      ↔ Plain inState ∧ Plain method := by
  obtain ⟨hkey, hstate, hmethod⟩ := hs.provisions _ p h
  constructor
  · rintro ⟨rfl, rfl, _⟩
    exact ⟨hstate, hmethod⟩
  · rintro ⟨hs', hm'⟩
    exact calculateStringKey_inj hstate hmethod hs' hm' hkey

theorem server_history_sound_iff {s : Stores E} (hs : StoresKeyed s) {method uri : String}
    {h : MockEventsHistory E} (hlook : historyOf s.server.map (.ofServer method uri) = some h) :
    (h.dataKey.method = method ∧ h.dataKey.uri = uri) ↔ Plain method := by
  obtain ⟨hkey, htwo, hmethod, _⟩ := hs.server _ h hlook
  rw [getKey_of_two htwo] at hkey
  constructor
  · rintro ⟨rfl, _⟩
    exact hmethod
  · intro hm'
    exact calculateStringKey_pair_inj hmethod hm' hkey

theorem client_history_sound_iff {s : Stores E} (hs : StoresKeyed s)
    {clientEndpointId method uri : String} {h : MockEventsHistory E}
    (hlook : historyOf s.client (.ofClient clientEndpointId method uri) = some h) :
    (h.dataKey.clientEndpointId = clientEndpointId ∧ h.dataKey.method = method
        ∧ h.dataKey.uri = uri)
      ↔ Plain clientEndpointId ∧ Plain method := by
  obtain ⟨hkey, hthree, hmethod, hendpoint⟩ := hs.client _ h hlook
  rw [getKey_of_three hthree] at hkey
  constructor
  · rintro ⟨rfl, rfl, _⟩
    exact ⟨hendpoint hthree, hmethod⟩
  · rintro ⟨he', hm'⟩
    exact calculateStringKey_inj (hendpoint hthree) hmethod he' hm' hkey

/-- **LOOKUP SOUNDNESS, EXACTLY**: after any run whose events are stored under plain
    methods and endpoints, an entry that a lookup returns has the parts asked for
    exactly when the state and the method asked for (the method; the endpoint and
    the method) are without marks. -/
theorem lookups_sound_iff [MockEventLike E] (l : Loader)
    (hl : ∀ j, l.validate j = true → keySchema j = true) (acts : List (Act E))
    (hacts : ∀ a ∈ acts, a.Plain) :
    (∀ inState method uri p,
        (run (Stores.step l) .fresh acts).provisions.find inState method uri = some p →
        ((p.provision.inState = inState ∧ p.requestMethod = method ∧ p.requestUri = uri)
          ↔ Plain inState ∧ Plain method))
      ∧ (∀ method uri h,
        historyOf (run (Stores.step l) .fresh acts).server.map (.ofServer method uri) = some h →
        ((h.dataKey.method = method ∧ h.dataKey.uri = uri) ↔ Plain method))
      ∧ (∀ clientEndpointId method uri h,
        historyOf (run (Stores.step l) .fresh acts).client
          (.ofClient clientEndpointId method uri) = some h →
        ((h.dataKey.clientEndpointId = clientEndpointId ∧ h.dataKey.method = method
            ∧ h.dataKey.uri = uri)
          ↔ Plain clientEndpointId ∧ Plain method)) := by
  have hs := run_storesKeyed hl acts hacts storesKeyed_fresh
  refine ⟨?_, ?_, ?_⟩
  · intro inState method uri p h
    exact find_sound_iff hs h
  · intro method uri h hlook
    exact server_history_sound_iff hs hlook
  · intro clientEndpointId method uri h hlook
    exact client_history_sound_iff hs hlook

end Data

/-! ## A state that spells another key -/

/-- Documents are checked for their keys only. -/
def keyLoader : Loader := ⟨idleLib, fun _ => true, fun _ => none, keySchema⟩

/-- A provision document with nothing but its key. -/
def keyDocument (inState uri : String) : Json :=
  .obj [("inState", .str inState), ("requestMethod", .str "GET"), ("requestUri", .str uri),
    ("responseCode", .uint 200)]

/-- An event of the server in a state. -/
def serverEvent (method uri state : String) : Act MockEvent :=
  .server ⟨.loadEvent (.ofServer method uri) ⟨state, 1, .null⟩ true, fun k hk => by
    obtain rfl := Option.some.inj hk
    rfl⟩

/-- An event of the client. -/
def clientEvent (endpoint method uri : String) : Act MockEvent :=
  .client ⟨.loadEvent (.ofClient endpoint method uri) ⟨"b", 1, .null⟩ true, fun k hk => by
    obtain rfl := Option.some.inj hk
    rfl⟩

/-- A provision in state `a` for `z#GET#/y`, a request `/y` that was left in the
    state `a#GET#z`, and an event of the client. -/
def markedRun (method : String) : List (Act MockEvent) :=
  [.provision (.load false (keyDocument "a" "z#GET#/y")), serverEvent "GET" "/y" "a#GET#z",
    clientEvent "e" method "/b"]

theorem markedRun_plain : ∀ a ∈ markedRun "GET", a.Plain := by
  intro a ha
  rcases List.mem_cons.mp ha with rfl | ha
  · exact True.intro
  · rcases List.mem_cons.mp ha with rfl | ha
    · intro k hk
      obtain rfl := Option.some.inj hk
      exact ⟨by decide, nofun⟩
    · obtain rfl := List.mem_singleton.mp ha
      intro k hk
      obtain rfl := Option.some.inj hk
      exact ⟨by decide, fun _ => by decide⟩

/-- The provision is found by its own parts, and they are plain. -/
theorem own_parts_found :
    ∃ p, (run (Stores.step keyLoader) .fresh (markedRun "GET")).provisions.find "a" "GET" "z#GET#/y"
        = some p
      ∧ p.provision.inState = "a" ∧ p.requestMethod = "GET" ∧ p.requestUri = "z#GET#/y" := by
  refine ⟨_, rfl, ?_⟩
  have h := (lookups_sound_iff keyLoader (fun j hj => hj) (markedRun "GET") markedRun_plain).1
    "a" "GET" "z#GET#/y" _ rfl
  exact h.mpr ⟨by decide, by decide⟩

/-- The state that `/y` was left in, joined with the method and the uri, is the key
    of the provision for `z#GET#/y`: it is found, with another state and another
    uri.  An event stored under the method `GET#/a` is found for `/a#/b`. -/
theorem marked_state_finds_other :
    ((run (Stores.step keyLoader) .fresh (markedRun "GET#/a")).server.map
        |>.findLastRegisteredRequestState (.ofServer "GET" "/y")) = some (true, "a#GET#z", ∅)
      ∧ (∃ p, (run (Stores.step keyLoader) .fresh (markedRun "GET#/a")).provisions.find
          "a#GET#z" "GET" "/y" = some p
        ∧ p.provision.inState = "a" ∧ p.requestUri = "z#GET#/y"
        ∧ ¬ (p.provision.inState = "a#GET#z" ∧ p.requestMethod = "GET" ∧ p.requestUri = "/y"))
      ∧ ∃ h, historyOf (run (Stores.step keyLoader) .fresh (markedRun "GET#/a")).client
          (.ofClient "e" "GET" "/a#/b") = some h
        ∧ ¬ (h.dataKey.clientEndpointId = "e" ∧ h.dataKey.method = "GET"
          ∧ h.dataKey.uri = "/a#/b") := by
  refine ⟨rfl, ⟨_, rfl, rfl, rfl, ?_⟩, ⟨_, rfl, ?_⟩⟩
  · rintro ⟨hstate, _⟩
    exact absurd hstate (by decide)
  · rintro ⟨_, hmethod, _⟩
    exact absurd hmethod (by decide)

end H2Lookup
