import H2agent.MockStoreProofs
import H2agent.NumberFilterProofs

/-! # The sequence of the stored events

    `getSequence` of the two stores walks over all keys and histories and pushes one or two
    entries for each event: its reception and its sending, the second one only when it has
    taken place.  The entries are sorted by their timestamp with `std::sort`, which leaves
    the order of equal timestamps open.

    * `sequence_exact`: the list is sorted, and a permutation of the entries of the events
      that pass the filters, for both stores;
    * `sequence_answered_iff`: exactly when the requests for these lists are answered, and a
      malformed timestamp or expression with 400. -/

namespace H2Sequence

open CppText H2Convert H2Key H2Store JsonValue

/-! ## Entries -/

/-- An entry; those of the server have no provision. -/
structure Entry where
  timestampUs : Nat
  direction : String
  method : String
  uri : String
  clientProvisionId : String := ""

/-- The object of an entry, its members in key order. -/
def Entry.toJson (e : Entry) : Json :=
  .obj ((if e.clientProvisionId.isEmpty then [] else
      [("clientProvisionId", .str e.clientProvisionId)])
    ++ [("direction", .str e.direction), ("method", .str e.method),
      ("timestampUs", .uint e.timestampUs), ("uri", .str e.uri)])

/-- What `getSequence` reads of a server event; it has not been sent yet at timestamp 0. -/
class ServerEventTimes (E : Type) where
  receptionTimestampUs : E → Nat
  getSendingTimestampUs : E → Nat

/-- What `getSequence` reads of a client event; it has not been answered yet at timestamp 0. -/
class ClientEventTimes (E : Type) where
  sendingTimestampUs : E → Nat
  receptionTimestampUs : E → Nat
  clientProvisionId : E → String

/-- The entries of a server event. -/
def serverEntries {E : Type} [ServerEventTimes E] (key : DataKey) (event : E) : List Entry :=
  let recTs := ServerEventTimes.receptionTimestampUs event
  let sendTs := ServerEventTimes.getSendingTimestampUs event
  ⟨recTs, "recv", key.method, key.uri, ""⟩
    :: if sendTs = 0 then [] else [⟨sendTs, "send", key.method, key.uri, ""⟩]

/-- The entries of a client event. -/
def clientEntries {E : Type} [ClientEventTimes E] (key : DataKey) (event : E) : List Entry :=
  let sendTs := ClientEventTimes.sendingTimestampUs event
  let recvTs := ClientEventTimes.receptionTimestampUs event
  let provId := ClientEventTimes.clientProvisionId event
  ⟨sendTs, "send", key.method, key.uri, provId⟩
    :: if recvTs = 0 then [] else [⟨recvTs, "recv", key.method, key.uri, provId⟩]

/-! ## The walk -/

/-- What is asked for: two timestamps, of which 0 is no bound, a method, of which the empty
    one is any, and an expression that is searched in the uri. -/
structure Selection where
  fromTimestampUs : Nat
  toTimestampUs : Nat
  requestMethod : String
  uriRegex : Option (String → Bool)

namespace Selection

variable (q : Selection)

/-- The bounds of a timestamp. -/
def inRange (timestampUs : Nat) : Bool :=
  (q.fromTimestampUs == 0 || decide (timestampUs ≥ q.fromTimestampUs))
    && (q.toTimestampUs == 0 || decide (timestampUs ≤ q.toTimestampUs))

/-- The early returns for a history, on its method and its uri. -/
def skips (method uri : String) : Bool :=
  if !q.requestMethod.isEmpty && method != q.requestMethod then true
  else match q.uriRegex with
    | some search => !search uri
    | none => false

variable {E : Type} (entriesOf : DataKey → E → List Entry)

/-- The entries of an event, pushed as far as they are in the range. -/
def pushEvent (key : DataKey) (entries : List Entry) (event : E) : List Entry :=
  (entriesOf key event).foldl
    (fun entries e => if q.inRange e.timestampUs then entries ++ [e] else entries) entries

/-- The loop over the events of a history. -/
def pushHistory (entries : List Entry) (history : MockEventsHistory E) : List Entry :=
  let key := history.dataKey
  if q.skips key.method key.uri then entries
  else history.events.foldl (q.pushEvent entriesOf key) entries

/-- `forEach` over the store. -/
def collect (m : MockData E) : List Entry :=
  m.entries.foldl (fun entries kv => q.pushHistory entriesOf entries kv.2) []

end Selection

/-- `std::sort` by a number: a permutation in order.  The order of elements with equal numbers
    is not specified. -/
structure StdSort (ε : Type) (number : ε → Nat) where
  sort : List ε → List ε
  perm : ∀ l, (sort l).Perm l
  ordered : ∀ l, (sort l).Pairwise fun a b => number a ≤ number b

/-- A sort that is stable is one. -/
def StdSort.merge (ε : Type) (number : ε → Nat) : StdSort ε number where
  sort l := l.mergeSort fun a b => decide (number a ≤ number b)
  perm l := List.mergeSort_perm l _
  ordered l := by
    have hsorted := @List.pairwise_mergeSort ε (fun a b => decide (number a ≤ number b))
      (fun a b c h h' => decide_eq_true ((of_decide_eq_true h).trans (of_decide_eq_true h')))
      (fun a b => by simpa using Nat.le_total (number a) (number b)) l
    exact hsorted.imp fun h => of_decide_eq_true h

variable {E F : Type} [ServerEventTimes E] [ClientEventTimes F]

/-- The entries of the document. -/
def sequenceOf (sort : StdSort Entry Entry.timestampUs) (entriesOf : DataKey → E → List Entry)
    (q : Selection) (m : MockData E) : List Entry := sort.sort (q.collect entriesOf m)

/-- The text of the document; the library refuses to dump a text that is not UTF-8. -/
def dumpSequence (lib : Lib) (l : List Entry) : Option String :=
  lib.dump (.arr (l.map Entry.toJson))

/-- `MockServerData::getSequence`. -/
def MockServerData.getSequence (lib : Lib) (sort : StdSort Entry Entry.timestampUs)
    (q : Selection) (d : MockServerData E) : Option String :=
  dumpSequence lib (sequenceOf sort serverEntries q d.map)

/-- `MockClientData::getSequence`. -/
def MockClientData.getSequence (lib : Lib) (sort : StdSort Entry Entry.timestampUs)
    (q : Selection) (d : MockClientData F) : Option String :=
  dumpSequence lib (sequenceOf sort clientEntries q d)

/-! ## What is selected -/

/-- All entries of a store. -/
def allEntries {E : Type} (entriesOf : DataKey → E → List Entry) (m : MockData E) : List Entry :=
  m.entries.flatMap fun kv => kv.2.events.flatMap (entriesOf kv.2.dataKey)

namespace Selection

/-- The entry has the method and the uri asked for, and its own timestamp is within the
    bounds. -/
def Selects (q : Selection) (e : Entry) : Prop :=
  (q.requestMethod = "" ∨ e.method = q.requestMethod)
    ∧ (∀ search, q.uriRegex = some search → search e.uri = true)
    ∧ (q.fromTimestampUs = 0 ∨ q.fromTimestampUs ≤ e.timestampUs)
    ∧ (q.toTimestampUs = 0 ∨ e.timestampUs ≤ q.toTimestampUs)

/-- As the source decides it. -/
def selects (q : Selection) (e : Entry) : Bool := !q.skips e.method e.uri && q.inRange e.timestampUs

theorem not_skips_iff (q : Selection) (method uri : String) :
    q.skips method uri = false ↔ (q.requestMethod = "" ∨ method = q.requestMethod)
      ∧ ∀ search, q.uriRegex = some search → search uri = true := by
  have hmethod : (!q.requestMethod.isEmpty && method != q.requestMethod) = false
      ↔ q.requestMethod = "" ∨ method = q.requestMethod := by
    simp only [Bool.and_eq_false_iff, Bool.not_eq_false', String.isEmpty_iff, bne_eq_false_iff_eq]
  rw [← hmethod, skips]
  cases (!q.requestMethod.isEmpty && method != q.requestMethod) with
  | true => exact ⟨fun h => (by cases h), fun h => (by cases h.1)⟩
  | false =>
      cases q.uriRegex with
      | none => exact ⟨fun _ => ⟨rfl, fun _ h => (by cases h)⟩, fun _ => rfl⟩
      | some search =>
          simp only [Bool.false_eq_true, if_false, Bool.not_eq_false', true_and, Option.some.injEq,
            forall_eq']

theorem selects_iff (q : Selection) (e : Entry) : q.selects e = true ↔ q.Selects e := by
  simp only [selects, Selects, inRange, Bool.and_eq_true, Bool.not_eq_true', Bool.or_eq_true,
    beq_iff_eq, decide_eq_true_eq, not_skips_iff, and_assoc, ge_iff_le]

instance (q : Selection) (e : Entry) : Decidable (q.Selects e) :=
  decidable_of_iff _ (q.selects_iff e)

/-! ## The walk collects what is selected -/

/-- A loop that appends something for every element. -/
theorem foldl_appends {α : Type} {f : List Entry → α → List Entry} {g : α → List Entry}
    (h : ∀ acc x, f acc x = acc ++ g x) (l : List α) (acc : List Entry) :
    l.foldl f acc = acc ++ l.flatMap g := by
  induction l generalizing acc with
  | nil => exact (List.append_nil acc).symm
  | cons x l ih => rw [List.foldl_cons, h, ih, List.flatMap_cons, List.append_assoc]

/-- A loop that pushes what passes a test. -/
theorem foldl_pushes (p : Entry → Bool) (l acc : List Entry) :
    l.foldl (fun acc e => if p e then acc ++ [e] else acc) acc = acc ++ l.filter p := by
  induction l generalizing acc with
  | nil => exact (List.append_nil acc).symm
  | cons e l ih =>
      rw [List.foldl_cons, ih]
      by_cases h : p e = true
      · rw [if_pos h, List.filter_cons_of_pos h, List.append_assoc, List.singleton_append]
      · rw [if_neg h, List.filter_cons_of_neg h]

variable {E : Type} {entriesOf : DataKey → E → List Entry} (q : Selection)

theorem pushEvent_eq (key : DataKey) (entries : List Entry) (event : E) :
    q.pushEvent entriesOf key entries event
      = entries ++ (entriesOf key event).filter fun e => q.inRange e.timestampUs :=
  foldl_pushes (fun e => q.inRange e.timestampUs) (entriesOf key event) entries

variable (hkey : ∀ key event, ∀ e ∈ entriesOf key event, e.method = key.method ∧ e.uri = key.uri)

include hkey

theorem pushHistory_eq (entries : List Entry) (history : MockEventsHistory E) :
    q.pushHistory entriesOf entries history
      = entries ++ (history.events.flatMap (entriesOf history.dataKey)).filter q.selects := by
  have hselects : ∀ event, ∀ e ∈ entriesOf history.dataKey event, q.selects e
      = (!q.skips history.dataKey.method history.dataKey.uri && q.inRange e.timestampUs) := by
    intro event e he
    obtain ⟨hmethod, huri⟩ := hkey history.dataKey event e he
    rw [selects, hmethod, huri]
  rw [List.filter_flatMap]
  simp only [pushHistory]
  cases hskips : q.skips history.dataKey.method history.dataKey.uri with
  | true =>
      -- nothing of the history is selected
      have hnone : ∀ event, (entriesOf history.dataKey event).filter q.selects = [] := by
        intro event
        refine List.filter_eq_nil_iff.mpr fun e he => ?_
        rw [hselects event e he, hskips]
        exact Bool.false_ne_true
      rw [if_pos rfl, List.flatMap_congr fun event _ => hnone event]
      simp
  | false =>
      rw [if_neg Bool.false_ne_true, foldl_appends (q.pushEvent_eq history.dataKey)]
      congr 1
      refine List.flatMap_congr fun event _ => List.filter_congr fun e he => ?_
      rw [hselects event e he, hskips]
      rfl

/-- **THE WALK**: the entries that are selected, each as often as it is there. -/
theorem collect_eq (m : MockData E) :
    q.collect entriesOf m = (allEntries entriesOf m).filter q.selects := by
  rw [collect, foldl_appends fun entries kv => q.pushHistory_eq hkey entries kv.2, allEntries,
    List.nil_append, List.filter_flatMap]

end Selection

/-! ## The list -/

/-- What holds of one or two entries. -/
theorem forall_mem_oneOrTwo {P : Entry → Prop} {a b : Entry} {single : Prop} [Decidable single]
    (ha : P a) (hb : P b) : ∀ e ∈ a :: (if single then [] else [b]), P e := by
  intro e he
  rcases List.mem_cons.mp he with rfl | he
  · exact ha
  · split at he
    · cases he
    · rw [List.mem_singleton.mp he]
      exact hb

theorem serverEntries_key (key : DataKey) (event : E) :
    ∀ e ∈ serverEntries key event, e.method = key.method ∧ e.uri = key.uri :=
  forall_mem_oneOrTwo ⟨rfl, rfl⟩ ⟨rfl, rfl⟩

theorem clientEntries_key (key : DataKey) (event : F) :
    ∀ e ∈ clientEntries key event, e.method = key.method ∧ e.uri = key.uri :=
  forall_mem_oneOrTwo ⟨rfl, rfl⟩ ⟨rfl, rfl⟩

/-- A list in the order of the timestamps that has exactly the selected entries, each as often
    as it is there. -/
structure ExactSequence (q : Selection) (entries l : List Entry) : Prop where
  sorted : l.Pairwise fun a b => a.timestampUs ≤ b.timestampUs
  exact : l.Perm (entries.filter fun e => decide (q.Selects e))

theorem sequenceOf_exact {G : Type} (sort : StdSort Entry Entry.timestampUs)
    {entriesOf : DataKey → G → List Entry} (q : Selection) (m : MockData G)
    (hkey : ∀ key event, ∀ e ∈ entriesOf key event, e.method = key.method ∧ e.uri = key.uri) :
    ExactSequence q (allEntries entriesOf m) (sequenceOf sort entriesOf q m) := by
  refine ⟨sort.ordered _, (sort.perm _).trans ?_⟩
  rw [q.collect_eq hkey]
  refine .of_eq (List.filter_congr fun e _ => ?_)
  rw [Bool.eq_iff_iff, q.selects_iff, decide_eq_true_iff]

/-- **SEQUENCES**: both stores dump the selected entries of their events in the order of the
    timestamps, each as often as it is there; an event that was not sent, or not answered, has
    one entry, any other event two. -/
theorem sequence_exact (lib : Lib) (sort : StdSort Entry Entry.timestampUs) (q : Selection)
    (d : MockServerData E) (c : MockClientData F) :
    (∃ l, MockServerData.getSequence lib sort q d = dumpSequence lib l
      ∧ ExactSequence q (allEntries serverEntries d.map) l)
    ∧ (∃ l, MockClientData.getSequence lib sort q c = dumpSequence lib l
      ∧ ExactSequence q (allEntries clientEntries c) l)
    ∧ (∀ key (event : E), (serverEntries key event).length
      = if ServerEventTimes.getSendingTimestampUs event = 0 then 1 else 2)
    ∧ ∀ key (event : F), (clientEntries key event).length
      = if ClientEventTimes.receptionTimestampUs event = 0 then 1 else 2 := by
  refine ⟨⟨_, rfl, sequenceOf_exact sort q d.map serverEntries_key⟩,
    ⟨_, rfl, sequenceOf_exact sort q c clientEntries_key⟩, fun key event => ?_, fun key event => ?_⟩
  · simp only [serverEntries, List.length_cons]
    split <;> rfl
  · simp only [clientEntries, List.length_cons]
    split <;> rfl

/-! ## The requests -/

/-- The timestamps of a request. -/
def timestampNames : List String := ["fromTimestampUs", "toTimestampUs"]

/-- A timestamp of the request; `std::stoull` is called outside of the guarded region. -/
def timestampOf (qmap : TextMap String) (name : String) : Except Fault Nat :=
  match qmap.lookup name with
  | none => .ok 0
  | some text =>
      match stoull text with
      | none => .error .outOfRange
      | some n => .ok n

/-- The text of a request, empty without one. -/
def textOf (qmap : TextMap String) (name : String) : String := (qmap.lookup name).getD ""

/-- The status of a document; of what `getSequence` throws only `std::regex_error` is caught. -/
def respond : Option String → Except Fault (Nat × String)
  | none => .error .json
  | some responseBody => .ok (if responseBody == "[]" then 204 else 200, responseBody)

/-- `receiveGET` for the sequences. -/
def receiveSequence (lib : Lib) (compile : String → Option (String → Bool))
    (getSequence : Selection → Option String) (queryParams : String) :
    Except Fault (Nat × String) := do
  let qmap := (extractQueryParameters lib.urlDecode queryParams '&').1
  let fromTimestampUs ← timestampOf qmap "fromTimestampUs"
  let toTimestampUs ← timestampOf qmap "toTimestampUs"
  let requestMethod := textOf qmap "requestMethod"
  let uriRegexStr := textOf qmap "uriRegex"
  if uriRegexStr.isEmpty then
    respond (getSequence ⟨fromTimestampUs, toTimestampUs, requestMethod, none⟩)
  else
    match compile uriRegexStr with
    | none => return (400, "")
    | some uriRegex =>
        respond (getSequence ⟨fromTimestampUs, toTimestampUs, requestMethod, some uriRegex⟩)

/-- `GET server-data/sequence`. -/
def receiveServerSequence (lib : Lib) (compile : String → Option (String → Bool))
    (sort : StdSort Entry Entry.timestampUs) (d : MockServerData E) (queryParams : String) :
    Except Fault (Nat × String) :=
  receiveSequence lib compile (fun q => MockServerData.getSequence lib sort q d) queryParams

/-- `GET client-data/sequence`. -/
def receiveClientSequence (lib : Lib) (compile : String → Option (String → Bool))
    (sort : StdSort Entry Entry.timestampUs) (c : MockClientData F) (queryParams : String) :
    Except Fault (Nat × String) :=
  receiveSequence lib compile (fun q => MockClientData.getSequence lib sort q c) queryParams

/-! ### What is well formed -/

/-- A decimal numeral of 64 bits. -/
def IsTimestamp (text : String) : Prop :=
  text.toList ≠ [] ∧ (∀ c ∈ text.toList, H2Load.isDigit c = true)
    ∧ H2Number.decimalValue text.toList < 18446744073709551616

/-- The expression of the request does not compile. -/
def BadRegex (compile : String → Option (String → Bool)) (qmap : TextMap String) : Prop :=
  textOf qmap "uriRegex" ≠ "" ∧ compile (textOf qmap "uriRegex") = none

/-- All timestamps of the request have a property. -/
def Timestamps (P : String → Prop) (qmap : TextMap String) : Prop :=
  ∀ name ∈ timestampNames, ∀ text, qmap.lookup name = some text → P text

/-- The request is answered, and with 400 when a timestamp or the expression is malformed. -/
def AnsweredWell (compile : String → Option (String → Bool)) (qmap : TextMap String)
    (answer : Except Fault (Nat × String)) : Prop :=
  ∃ code body, answer = .ok (code, body) ∧ (code = 200 ∨ code = 204 ∨ code = 400)
    ∧ (¬ Timestamps IsTimestamp qmap ∨ BadRegex compile qmap → code = 400)

/-- The selection a request asks for. -/
def selectionOf (compile : String → Option (String → Bool)) (qmap : TextMap String) :
    Selection where
  fromTimestampUs := ((qmap.lookup "fromTimestampUs").bind stoull).getD 0
  toTimestampUs := ((qmap.lookup "toTimestampUs").bind stoull).getD 0
  requestMethod := textOf qmap "requestMethod"
  uriRegex := if textOf qmap "uriRegex" = "" then none else compile (textOf qmap "uriRegex")

/-- The library dumps entries whose texts are UTF-8, and no others. -/
def DumpsText (lib : Lib) (utf8 : String → Bool) : Prop :=
  ∀ l, (dumpSequence lib l).isSome = true ↔
    ∀ e ∈ l, utf8 e.method = true ∧ utf8 e.uri = true ∧ utf8 e.clientProvisionId = true

/-- `std::stoull` reads the timestamps of the request; and its expression does not compile, or
    the timestamps are numerals of 64 bits and the texts of the selected entries UTF-8. -/
def Answerable (compile : String → Option (String → Bool)) (utf8 : String → Bool)
    (qmap : TextMap String) (entries : List Entry) : Prop :=
  Timestamps (fun text => (stoull text).isSome = true) qmap
    ∧ (BadRegex compile qmap
      ∨ (Timestamps IsTimestamp qmap ∧ ∀ e ∈ entries, (selectionOf compile qmap).Selects e →
          utf8 e.method = true ∧ utf8 e.uri = true ∧ utf8 e.clientProvisionId = true))

/-! ### The answers -/

/-- A numeral is read. -/
theorem stoull_of_isTimestamp {text : String} (h : IsTimestamp text) :
    (stoull text).isSome = true := by
  obtain ⟨hne, hdigits, hsmall⟩ := h
  have hread := H2Number.signedDigits_decimal none hne hdigits
  rw [H2Number.signText, List.nil_append, String.ofList_toList] at hread
  rw [stoull, stoullBase, hread]
  simp only [if_pos hsmall, Option.isSome_some]

theorem timestampOf_cases (qmap : TextMap String) (name : String) :
    (timestampOf qmap name = .error .outOfRange
        ∧ ∃ text, qmap.lookup name = some text ∧ ¬ (stoull text).isSome = true)
      ∨ (timestampOf qmap name = .ok (((qmap.lookup name).bind stoull).getD 0)
        ∧ ∀ text, qmap.lookup name = some text → (stoull text).isSome = true) := by
  rw [timestampOf]
  cases qmap.lookup name with
  | none => exact .inr ⟨rfl, fun text h => (by cases h)⟩
  | some text =>
      rw [Option.bind_some]
      cases hread : stoull text with
      | none =>
          refine .inl ⟨by simp only [hread], text, rfl, ?_⟩
          rw [hread]
          exact Bool.false_ne_true
      | some n =>
          refine .inr ⟨by simp only [hread, Option.getD_some], fun text' h => ?_⟩
          injection h with h
          rw [← h, hread]
          rfl

theorem timestamps_iff (P : String → Prop) (qmap : TextMap String) :
    Timestamps P qmap ↔ (∀ text, qmap.lookup "fromTimestampUs" = some text → P text)
      ∧ ∀ text, qmap.lookup "toTimestampUs" = some text → P text := by
  simp only [Timestamps, timestampNames, List.forall_mem_cons, List.not_mem_nil, false_implies,
    implies_true, and_true]

/-- What the request comes to. -/
theorem receiveSequence_eq (lib : Lib) (compile : String → Option (String → Bool))
    (getSequence : Selection → Option String) {queryParams : String} {qmap : TextMap String}
    (hqmap : (extractQueryParameters lib.urlDecode queryParams '&').1 = qmap) :
    (¬ Timestamps (fun text => (stoull text).isSome = true) qmap
        ∧ receiveSequence lib compile getSequence queryParams = .error .outOfRange)
      ∨ (Timestamps (fun text => (stoull text).isSome = true) qmap
        ∧ ((BadRegex compile qmap
            ∧ receiveSequence lib compile getSequence queryParams = .ok (400, ""))
          ∨ (¬ BadRegex compile qmap
            ∧ receiveSequence lib compile getSequence queryParams
              = respond (getSequence (selectionOf compile qmap))))) := by
  simp only [receiveSequence, hqmap]
  rw [timestamps_iff]
  rcases timestampOf_cases qmap "fromTimestampUs" with ⟨hfrom, text, htext, hno⟩ | ⟨hfrom, hreads⟩
  · refine .inl ⟨fun h => hno (h.1 text htext), ?_⟩
    rw [hfrom]
    rfl
  · rcases timestampOf_cases qmap "toTimestampUs" with ⟨hto, text, htext, hno⟩ | ⟨hto, hreads'⟩
    · refine .inl ⟨fun h => hno (h.2 text htext), ?_⟩
      rw [hfrom, hto]
      rfl
    · refine .inr ⟨⟨hreads, hreads'⟩, ?_⟩
      rw [hfrom, hto, BadRegex, selectionOf]
      by_cases hempty : textOf qmap "uriRegex" = ""
      · refine .inr ⟨fun h => h.1 hempty, ?_⟩
        simp only [hempty, if_true]
        rfl
      · have hsome : (textOf qmap "uriRegex").isEmpty = false := by
          rw [← Bool.not_eq_true, String.isEmpty_iff]
          exact hempty
        cases hcompile : compile (textOf qmap "uriRegex") with
        | none =>
            refine .inl ⟨⟨hempty, rfl⟩, ?_⟩
            show (if (textOf qmap "uriRegex").isEmpty then _ else _) = _
            rw [hsome, if_neg Bool.false_ne_true]
            rfl
        | some search =>
            refine .inr ⟨fun h => (by cases h.2), ?_⟩
            show (if (textOf qmap "uriRegex").isEmpty then _ else _) = _
            rw [hsome, if_neg Bool.false_ne_true, if_neg hempty]

/-- A document that can be dumped is answered 200 or 204. -/
theorem respond_cases {document : Option String} {code : Nat} {body : String}
    (h : respond document = .ok (code, body)) :
    document.isSome = true ∧ (code = 200 ∨ code = 204) := by
  cases document with
  | none => cases h
  | some responseBody =>
      injection h with h
      injection h with hcode
      rw [← hcode]
      refine ⟨rfl, ?_⟩
      split
      · exact .inr rfl
      · exact .inl rfl

/-- The request for a document that dumps when some of the entries selected have UTF-8 texts. -/
theorem receiveSequence_answered_iff (lib : Lib) (compile : String → Option (String → Bool))
    (utf8 : String → Bool) {getSequence : Selection → Option String} {entries : List Entry}
    (hdump : ∀ q, (getSequence q).isSome = true ↔ ∀ e ∈ entries, q.Selects e →
      utf8 e.method = true ∧ utf8 e.uri = true ∧ utf8 e.clientProvisionId = true)
    {queryParams : String} {qmap : TextMap String}
    (hqmap : (extractQueryParameters lib.urlDecode queryParams '&').1 = qmap) :
    AnsweredWell compile qmap (receiveSequence lib compile getSequence queryParams)
      ↔ Answerable compile utf8 qmap entries := by
  have hnumerals : Timestamps IsTimestamp qmap →
      Timestamps (fun text => (stoull text).isSome = true) qmap :=
    fun h name hname text htext => stoull_of_isTimestamp (h name hname text htext)
  rw [Answerable, ← hdump]
  rcases receiveSequence_eq lib compile getSequence hqmap with
    ⟨hno, hthrows⟩ | ⟨hreads, ⟨hbad, hanswer⟩ | ⟨hgood, hanswer⟩⟩
  · rw [hthrows]
    constructor
    · rintro ⟨code, body, h, -⟩
      cases h
    · exact fun h => absurd h.1 hno
  · rw [hanswer]
    exact ⟨fun _ => ⟨hreads, .inl hbad⟩, fun _ => ⟨400, "", rfl, .inr (.inr rfl), fun _ => rfl⟩⟩
  · rw [hanswer]
    constructor
    · rintro ⟨code, body, h, -, hmalformed⟩
      obtain ⟨hsome, hcode⟩ := respond_cases h
      refine ⟨hreads, .inr ⟨?_, hsome⟩⟩
      by_contra hno
      have h400 := hmalformed (.inl hno)
      omega
    · rintro ⟨-, hbad | ⟨hwell, hsome⟩⟩
      · exact absurd hbad hgood
      · obtain ⟨responseBody, hbody⟩ := Option.isSome_iff_exists.mp hsome
        refine ⟨if responseBody == "[]" then 204 else 200, responseBody, by rw [hbody]; rfl, ?_, ?_⟩
        · split
          · exact .inr (.inl rfl)
          · exact .inl rfl
        · rintro (hno | hbad)
          · exact absurd hwell hno
          · exact absurd hbad hgood

/-- What is selected can be dumped when its texts are UTF-8. -/
theorem dumps_iff {G : Type} {lib : Lib} {utf8 : String → Bool} (hdump : DumpsText lib utf8)
    (sort : StdSort Entry Entry.timestampUs) {entriesOf : DataKey → G → List Entry}
    (hkey : ∀ key event, ∀ e ∈ entriesOf key event, e.method = key.method ∧ e.uri = key.uri)
    (m : MockData G) (q : Selection) :
    (dumpSequence lib (sequenceOf sort entriesOf q m)).isSome = true
      ↔ ∀ e ∈ allEntries entriesOf m, q.Selects e →
          utf8 e.method = true ∧ utf8 e.uri = true ∧ utf8 e.clientProvisionId = true := by
  have hexact := (sequenceOf_exact sort q m hkey).exact
  have hmem := fun e => (hexact.mem_iff (a := e)).trans List.mem_filter
  rw [hdump]
  constructor
  · intro h e he hselects
    exact h e ((hmem e).mpr ⟨he, decide_eq_true hselects⟩)
  · intro h e he
    obtain ⟨hall, hselects⟩ := (hmem e).mp he
    exact h e hall (of_decide_eq_true hselects)

/-- **ANSWERS**: a request for the sequence of a store is answered with 200, 204 or 400, and a
    malformed timestamp or expression with 400, exactly when `std::stoull` reads its timestamps,
    and its expression does not compile or the timestamps are numerals of 64 bits and the texts
    of the entries it selects are UTF-8. -/
theorem sequence_answered_iff (lib : Lib) (utf8 : String → Bool) (hdump : DumpsText lib utf8)
    (compile : String → Option (String → Bool)) (sort : StdSort Entry Entry.timestampUs)
    (d : MockServerData E) (c : MockClientData F) (queryParams : String) (qmap : TextMap String)
    (hqmap : (extractQueryParameters lib.urlDecode queryParams '&').1 = qmap) :
    (AnsweredWell compile qmap (receiveServerSequence lib compile sort d queryParams)
      ↔ Answerable compile utf8 qmap (allEntries serverEntries d.map))
    ∧ (AnsweredWell compile qmap (receiveClientSequence lib compile sort c queryParams)
      ↔ Answerable compile utf8 qmap (allEntries clientEntries c)) :=
  ⟨receiveSequence_answered_iff lib compile utf8
      (fun q => dumps_iff hdump sort serverEntries_key d.map q) hqmap,
    receiveSequence_answered_iff lib compile utf8
      (fun q => dumps_iff hdump sort clientEntries_key c q) hqmap⟩

/-- Libraries that dump the empty array, the one document of an empty store. -/
def emptyLib : Lib := { H2Transformation.idleLib with dump := fun _ => some "[]" }

/-- Both stores empty: a request with a numeral is answered. -/
theorem sequence_answered_empty :
    AnsweredWell (fun _ => none) ((∅ : TextMap String).insert "fromTimestampUs" "12")
        (@receiveServerSequence Nat ⟨id, id⟩ emptyLib (fun _ => none)
          (StdSort.merge Entry Entry.timestampUs) ⟨∅, none⟩ "fromTimestampUs=12")
      ∧ AnsweredWell (fun _ => none) ((∅ : TextMap String).insert "fromTimestampUs" "12")
        (@receiveClientSequence Nat ⟨id, id, fun _ => ""⟩ emptyLib (fun _ => none)
          (StdSort.merge Entry Entry.timestampUs) ∅ "fromTimestampUs=12") := by
  have hdump : DumpsText emptyLib fun _ => true :=
    fun l => ⟨fun _ _ _ => ⟨rfl, rfl, rfl⟩, fun _ => rfl⟩
  have hlookup : ∀ name text, ((∅ : TextMap String).insert "fromTimestampUs" "12").lookup name
      = some text → text = "12" := by
    intro name text h
    by_cases hname : name = "fromTimestampUs"
    · rw [hname, AList.lookup_insert] at h
      exact (Option.some.inj h).symm
    · rw [AList.lookup_insert_ne hname, AList.lookup_empty] at h
      cases h
  have hgood : IsTimestamp "12" := by
    have hvalue : H2Number.decimalValue "12".toList = 12 := rfl
    refine ⟨List.cons_ne_nil '1' ['2'], List.all_eq_true.mp rfl, ?_⟩
    rw [hvalue]
    norm_num
  have hanswerable : ∀ entries, Answerable (fun _ => none) (fun _ => true)
      ((∅ : TextMap String).insert "fromTimestampUs" "12") entries := by
    refine fun entries => ⟨fun name _ text h => ?_, .inr ⟨fun name _ text h => ?_, ?_⟩⟩
    · rw [hlookup name text h]
      exact stoull_of_isTimestamp hgood
    · rw [hlookup name text h]
      exact hgood
    · exact fun _ _ _ => ⟨rfl, rfl, rfl⟩
  have hiff := @sequence_answered_iff Nat Nat ⟨id, id⟩ ⟨id, id, fun _ => ""⟩ emptyLib _ hdump
    (fun _ => none) (StdSort.merge Entry Entry.timestampUs) ⟨∅, none⟩ ∅ "fromTimestampUs=12" _ rfl
  exact ⟨hiff.1.mpr (hanswerable _), hiff.2.mpr (hanswerable _)⟩

/-- Of an empty store, a timestamp that is no numeral leaves `receiveGET` as an exception, and one
    with a numeral in front is taken for it. -/
theorem malformed_timestamp_not_refused :
    @receiveServerSequence Nat ⟨id, id⟩ emptyLib (fun _ => none)
        (StdSort.merge Entry Entry.timestampUs) ⟨∅, none⟩ "fromTimestampUs=abc" = .error .outOfRange
      ∧ ¬ AnsweredWell (fun _ => none) ((∅ : TextMap String).insert "fromTimestampUs" "12abc")
        (@receiveServerSequence Nat ⟨id, id⟩ emptyLib (fun _ => none)
          (StdSort.merge Entry Entry.timestampUs) ⟨∅, none⟩ "fromTimestampUs=12abc")
      ∧ @receiveClientSequence Nat ⟨id, id, fun _ => ""⟩ emptyLib (fun _ => none)
        (StdSort.merge Entry Entry.timestampUs) ∅ "fromTimestampUs=abc" = .error .outOfRange
      ∧ ¬ AnsweredWell (fun _ => none) ((∅ : TextMap String).insert "fromTimestampUs" "12abc")
        (@receiveClientSequence Nat ⟨id, id, fun _ => ""⟩ emptyLib (fun _ => none)
          (StdSort.merge Entry Entry.timestampUs) ∅ "fromTimestampUs=12abc") := by
  have hmalformed : ¬ Timestamps IsTimestamp
      ((∅ : TextMap String).insert "fromTimestampUs" "12abc") := by
    intro h
    have hdigits := List.all_eq_true.mpr (h _ (List.mem_cons_self ..) "12abc" rfl).2.1
    cases hdigits
  have hno : ∀ answer : Except Fault (Nat × String), answer = .ok (204, "[]") →
      ¬ AnsweredWell (fun _ => none) ((∅ : TextMap String).insert "fromTimestampUs" "12abc")
        answer := by
    rintro answer rfl ⟨code, body, h, -, h400⟩
    injection h with h
    injection h with hcode
    have hbad := h400 (.inl hmalformed)
    omega
  exact ⟨rfl, hno _ rfl, rfl, hno _ rfl⟩

end H2Sequence
