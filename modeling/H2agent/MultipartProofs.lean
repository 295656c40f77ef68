import Mathlib.Data.List.Induction
import H2agent.JsonAssignProofs
import H2agent.TransformationProofs

/-! # Decoding multipart bodies

    `DataPart::decode` hands a multipart content to a consumer, which is told the
    headers and the data of each part and writes them into the JSON of the data part,
    under `multipart.1`, `multipart.2` and so on.  The consumer remembers the content
    type it was last told, from one part to the next; and a part that is multipart
    again is decoded by a second consumer that writes into the same document, from
    `multipart.1` on.

    * `decodeContent`, `receiveHeader`, `receiveData`, `decode`: the code, with the
      exceptions of assignments to what is no object;
    * `effects`: decoding as a list of assignments, and `decodeContent_eq` that it is;
    * `document`: what the parts are to become;
    * `multipart_decoded_iff`: when they do. -/

namespace H2Multipart

open CppText JsonValue H2Key H2Convert H2Transformation

/-! ## The code -/

/-- A part: its headers and its data. -/
structure Part where
  headers : List (String × String)
  data : String
  deriving DecidableEq, Repr

/-- The multipart library: the parts of a content between its boundaries. -/
structure Consumer where
  parts : String → String → List Part
  shorter : ∀ boundary content part, part ∈ parts boundary content →
    part.data.length < content.length

/-- What decoding leaves: the data part, what was assigned to the representation that was
    passed, and whether no exception was thrown. -/
structure Decoding where
  part : DataPart
  value : Option Json
  ok : Bool

/-- `MyMultipartConsumer`, with the data part it writes into. -/
structure MyMultipartConsumer where
  part : DataPart
  contentType : String
  dataCount : Nat
  ok : Bool

/-- `multipart.<n>`. -/
def label (n : Nat) : String := "multipart." ++ toString n

/-- The name, in lower case, is `content-type`. -/
def isContentType (name : String) : Bool := name.toList.map Char.toLower == "content-type".toList

namespace MyMultipartConsumer

/-- `json_["multipart.<n>"]`.. `= value`. -/
def write (c : MyMultipartConsumer) (path : List String) (value : Json) : MyMultipartConsumer :=
  match Json.assign (label c.dataCount :: path) value c.part.json with
  | some j => { c with part := { c.part with json := j } }
  | none => { c with ok := false }

/-- `receiveHeader`; nothing is received after an exception. -/
def receiveHeader (c : MyMultipartConsumer) (header : String × String) : MyMultipartConsumer :=
  if !c.ok then c
  else
    let contentType :=
      if isContentType header.1 then header.2 else c.contentType
    { c with contentType := contentType }.write ["headers", header.1] (.str header.2)

/-- `receiveData`, behind the decoding of the data. -/
def receiveData (c : MyMultipartConsumer) (d : Decoding) : MyMultipartConsumer :=
  if !d.ok then { c with part := d.part, ok := false }
  else
    let c := { c with part := d.part }.write ["content"] (d.value.getD .null)
    { c with dataCount := c.dataCount + 1 }

/-- `decode` of the library: the calls for each part. -/
def receive : (parts : List Part) →
    (decodePart : ∀ part ∈ parts, String → DataPart → Decoding) →
    MyMultipartConsumer → MyMultipartConsumer
  | [], _, c => c
  | part :: rest, decodePart, c =>
      let c := part.headers.foldl receiveHeader c
      if !c.ok then c
      else
        let c := c.receiveData (decodePart part List.mem_cons_self c.contentType c.part)
        if !c.ok then c
        else receive rest (fun p hp => decodePart p (List.mem_cons_of_mem part hp)) c

end MyMultipartConsumer

/-- A content that is not multipart. -/
def plainValue (lib : Lib) (content contentType : String) : Json :=
  if contentType == "application/json" then
    (lib.parse content).getD (.str (lib.parseError content))
  else if "text/".toList.isPrefixOf contentType.toList then .str content
  else .str (if (asHexString content).1 then content else (asHexString content).2)

def isMultipart (contentType : String) : Bool :=
  contentType != "application/json" && !"text/".toList.isPrefixOf contentType.toList
    && "multipart/".toList.isPrefixOf contentType.toList

/-- The text behind `boundary=`. -/
def boundary (contentType : String) : String := String.ofList (boundaryOf contentType.toList)

/-- `DataPart::decodeContent`. -/
def decodeContent (lib : Lib) (consumer : Consumer) (content contentType : String)
    (part : DataPart) : Decoding :=
  if contentType == "application/json" then
    ⟨{ part with isJson := true },
      some ((lib.parse content).getD (.str (lib.parseError content))), true⟩
  else if "text/".toList.isPrefixOf contentType.toList then ⟨part, some (.str content), true⟩
  else if "multipart/".toList.isPrefixOf contentType.toList then
    if (boundary contentType).isEmpty then ⟨part, none, true⟩
    else
      let c := MyMultipartConsumer.receive (consumer.parts (boundary contentType) content)
        (fun p hp contentType part =>
          have := consumer.shorter _ _ p hp
          decodeContent lib consumer p.data contentType part)
        ⟨{ part with isJson := true }, "", 1, true⟩
      ⟨c.part, none, c.ok⟩
  else
    let (printable, hex) := asHexString content
    ⟨part, some (.str (if printable then content else hex)), true⟩
termination_by content.length

/-- `DataPart::decode`; the flag is `false` when it throws. -/
def decode (lib : Lib) (consumer : Consumer) (headers : HeaderMap) (part : DataPart) :
    DataPart × Bool :=
  if part.decoded then (part, true)
  else if part.str.isEmpty then ({ part with decoded := true, isJson := false }, true)
  else
    let d := decodeContent lib consumer part.str ((headers.find "content-type").getD "") part
    if d.ok then ({ d.part with json := d.value.getD d.part.json, decoded := true }, true)
    else (d.part, false)

/-! ## Decoding as assignments -/

/-- What decoding a content does: the assignments to the document, the value of the
    representation, and whether the data part becomes a JSON one. -/
structure Effects where
  writes : List Json.Write
  value : Option Json
  isJson : Bool

def Effects.apply (e : Effects) (part : DataPart) : Decoding where
  part := { part with
    json := (Json.assignThrough e.writes part.json).1, isJson := part.isJson || e.isJson }
  value := e.value
  ok := (Json.assignThrough e.writes part.json).2

def headerWrites (n : Nat) (headers : List (String × String)) : List Json.Write :=
  headers.map fun header => ([label n, "headers", header.1], .str header.2)

/-- The content type a consumer remembers after headers. -/
def told (headers : List (String × String)) (contentType : String) : String :=
  headers.foldl (fun contentType header =>
    if isContentType header.1 then header.2 else contentType) contentType

/-- The assignments for parts, from the content type and the number of the consumer on. -/
def partWrites : (parts : List Part) → (∀ part ∈ parts, String → Effects) →
    String → Nat → List Json.Write
  | [], _, _, _ => []
  | part :: rest, effects, contentType, n =>
      let e := effects part List.mem_cons_self (told part.headers contentType)
      headerWrites n part.headers ++ (e.writes ++
        (([label n, "content"], e.value.getD .null) ::
          partWrites rest (fun p hp => effects p (List.mem_cons_of_mem part hp))
            (told part.headers contentType) (n + 1)))

def effects (lib : Lib) (consumer : Consumer) (content contentType : String) : Effects :=
  if contentType == "application/json" then ⟨[], some (plainValue lib content contentType), true⟩
  else if isMultipart contentType then
    if (boundary contentType).isEmpty then ⟨[], none, false⟩
    else
      ⟨partWrites (consumer.parts (boundary contentType) content)
        (fun p hp contentType =>
          have := consumer.shorter _ _ p hp
          effects lib consumer p.data contentType) "" 1, none, true⟩
  else ⟨[], some (plainValue lib content contentType), false⟩
termination_by content.length

section Refinement

theorem foldl_receiveHeader_stopped {c : MyMultipartConsumer} (h : c.ok = false)
    (headers : List (String × String)) : headers.foldl MyMultipartConsumer.receiveHeader c = c := by
  induction headers with
  | nil => rfl
  | cons header headers ih =>
      have hstop : c.receiveHeader header = c := by
        rw [MyMultipartConsumer.receiveHeader, h]
        rfl
      rw [List.foldl_cons, hstop, ih]

/-- The headers of a part. -/
theorem foldl_receiveHeader (headers : List (String × String)) {c : MyMultipartConsumer}
    (h : c.ok = true) :
    (headers.foldl MyMultipartConsumer.receiveHeader c).part
        = { c.part with json := (Json.assignThrough (headerWrites c.dataCount headers) c.part.json).1 } ∧
      (headers.foldl MyMultipartConsumer.receiveHeader c).ok
        = (Json.assignThrough (headerWrites c.dataCount headers) c.part.json).2 ∧
      (headers.foldl MyMultipartConsumer.receiveHeader c).dataCount = c.dataCount ∧
      ((headers.foldl MyMultipartConsumer.receiveHeader c).ok = true →
        (headers.foldl MyMultipartConsumer.receiveHeader c).contentType = told headers c.contentType) := by
  induction headers generalizing c with
  | nil => exact ⟨rfl, h, rfl, fun _ => rfl⟩
  | cons header headers ih =>
      rw [List.foldl_cons, headerWrites, List.map_cons, Json.assignThrough]
      cases hassign : Json.assign [label c.dataCount, "headers", header.1] (.str header.2) c.part.json with
      | none =>
          have hstop : (c.receiveHeader header).ok = false := by
            simp [MyMultipartConsumer.receiveHeader, MyMultipartConsumer.write, h, hassign]
          rw [foldl_receiveHeader_stopped hstop]
          simp [MyMultipartConsumer.receiveHeader, MyMultipartConsumer.write, h, hassign]
      | some j =>
          have hgo : c.receiveHeader header
              = { c with
                  contentType := told [header] c.contentType, part := { c.part with json := j } } := by
            simp [MyMultipartConsumer.receiveHeader, MyMultipartConsumer.write, h, hassign, told]
          rw [hgo]
          exact ih h

/-- The data of a part. -/
theorem receiveData_eq {c : MyMultipartConsumer} (hok : c.ok = true) (hjson : c.part.isJson = true)
    (e : Effects) {t : Json × Bool}
    (ht : Json.assignThrough (e.writes ++ [([label c.dataCount, "content"], e.value.getD .null)])
      c.part.json = t) :
    (c.receiveData (e.apply c.part)).part = { c.part with json := t.1 } ∧
      (c.receiveData (e.apply c.part)).ok = t.2 ∧
      (t.2 = true → c.receiveData (e.apply c.part)
        = ⟨{ c.part with json := t.1 }, c.contentType, c.dataCount + 1, true⟩) := by
  subst ht
  rw [Json.assignThrough_append]
  by_cases hwrites : (Json.assignThrough e.writes c.part.json).2 = true
  · rw [if_pos hwrites, Json.assignThrough]
    cases hassign : Json.assign [label c.dataCount, "content"] (e.value.getD .null)
        (Json.assignThrough e.writes c.part.json).1 with
    | none =>
        simp [MyMultipartConsumer.receiveData, MyMultipartConsumer.write, Effects.apply, hwrites, hassign,
          hjson]
    | some j =>
        simp [MyMultipartConsumer.receiveData, MyMultipartConsumer.write, Effects.apply, hwrites, hassign,
          hjson, hok, Json.assignThrough]
  · simp [MyMultipartConsumer.receiveData, Effects.apply, hwrites, hjson]

/-- The calls for parts are the assignments for them. -/
theorem receive_eq {parts : List Part} {decodePart : Part → String → DataPart → Decoding}
    {effects : Part → String → Effects}
    (hparts : ∀ p ∈ parts, ∀ contentType part,
      decodePart p contentType part = (effects p contentType).apply part)
    {c : MyMultipartConsumer} (hok : c.ok = true) (hjson : c.part.isJson = true) :
    (MyMultipartConsumer.receive parts (fun p _ => decodePart p) c).part
        = { c.part with json := (Json.assignThrough
              (partWrites parts (fun p _ => effects p) c.contentType c.dataCount) c.part.json).1 } ∧
      (MyMultipartConsumer.receive parts (fun p _ => decodePart p) c).ok
        = (Json.assignThrough
              (partWrites parts (fun p _ => effects p) c.contentType c.dataCount) c.part.json).2 := by
  induction parts generalizing c with
  | nil => exact ⟨rfl, hok⟩
  | cons p rest ih =>
      -- the headers, then the data, then the rest; an exception ends all of them
      obtain ⟨hpart, hheaders, hcount, htold⟩ := foldl_receiveHeader p.headers hok
      rw [MyMultipartConsumer.receive, partWrites, Json.assignThrough_append]
      generalize p.headers.foldl MyMultipartConsumer.receiveHeader c = c1 at hpart hheaders hcount htold ⊢
      generalize Json.assignThrough (headerWrites c.dataCount p.headers) c.part.json = t1 at hpart hheaders ⊢
      by_cases h1 : t1.2 = true
      · have hc1 : c1.ok = true := hheaders.trans h1
        have hc1json : c1.part.isJson = true := by rw [hpart, hjson]
        have hdecoded := hparts p List.mem_cons_self (told p.headers c.contentType) c1.part
        simp only [hc1, h1, htold hc1, hdecoded, if_true, Bool.not_true, Bool.false_eq_true, if_false]
        rw [List.append_cons, Json.assignThrough_append]
        generalize ht2 : Json.assignThrough ((effects p (told p.headers c.contentType)).writes ++
          [([label c.dataCount, "content"], (effects p (told p.headers c.contentType)).value.getD .null)]) t1.1
            = t2
        have hfrom : Json.assignThrough ((effects p (told p.headers c.contentType)).writes ++
            [([label c1.dataCount, "content"],
              (effects p (told p.headers c.contentType)).value.getD .null)]) c1.part.json = t2 := by
          rw [hcount, hpart]
          exact ht2
        obtain ⟨hdata, hdataOk, hdataEq⟩ := receiveData_eq hc1 hc1json _ hfrom
        by_cases h2 : t2.2 = true
        · rw [hdataEq h2, htold hc1, hcount, hpart, if_pos h2]
          exact ih (fun q hq => hparts q (List.mem_cons_of_mem p hq)) rfl hjson
        · rw [hdataOk, Bool.not_eq_true _ |>.mp h2, if_neg Bool.false_ne_true]
          exact ⟨hdata.trans (by rw [hpart]), hdataOk⟩
      · have hc1 : c1.ok = false := by simpa [h1] using hheaders
        simp [hc1, h1, hpart]

/-- Decoding is its assignments. -/
theorem decodeContent_eq (lib : Lib) (consumer : Consumer) (content contentType : String)
    (part : DataPart) :
    decodeContent lib consumer content contentType part
      = (effects lib consumer content contentType).apply part := by
  induction hn : content.length using Nat.strongRecOn generalizing content contentType part with
  | ind n ih =>
      rw [decodeContent, effects]
      by_cases hjson : (contentType == "application/json") = true
      · simp [hjson, plainValue, Effects.apply, Json.assignThrough]
      · rw [if_neg hjson, if_neg hjson]
        by_cases htext : "text/".toList.isPrefixOf contentType.toList = true
        · have hmultipart : isMultipart contentType = false := by
            rw [isMultipart, htext]
            simp
          rw [if_pos htext, hmultipart, if_neg Bool.false_ne_true, plainValue, if_neg hjson, if_pos htext]
          simp [Effects.apply, Json.assignThrough]
        · rw [if_neg htext]
          by_cases hmulti : "multipart/".toList.isPrefixOf contentType.toList = true
          · have hmultipart : isMultipart contentType = true := by
              simp only [isMultipart, bne, hjson, htext, hmulti]
              rfl
            rw [if_pos hmulti, if_pos hmultipart]
            by_cases hboundary : (boundary contentType).isEmpty = true
            · rw [if_pos hboundary, if_pos hboundary]
              simp [Effects.apply, Json.assignThrough]
            · rw [if_neg hboundary, if_neg hboundary]
              have hparts : ∀ p ∈ consumer.parts (boundary contentType) content, ∀ contentType part,
                  decodeContent lib consumer p.data contentType part
                    = (effects lib consumer p.data contentType).apply part := by
                intro p hp contentType part
                exact ih p.data.length (hn ▸ consumer.shorter _ _ p hp) p.data contentType part rfl
              obtain ⟨hpart, hok⟩ := receive_eq hparts
                (c := ⟨{ part with isJson := true }, "", 1, true⟩) rfl rfl
              simp only [hpart, hok, Effects.apply, Bool.or_true]
          · have hmultipart : isMultipart contentType = false := by
              simp only [isMultipart, hmulti, Bool.and_false]
            rw [if_neg hmulti, hmultipart, if_neg Bool.false_ne_true, plainValue, if_neg hjson, if_neg htext]
            simp [Effects.apply, Json.assignThrough]

end Refinement

/-! ## What the parts are to become -/

/-- The content type among the headers of a part, the last one when there are several. -/
def ownContentType (headers : List (String × String)) : Option String :=
  (headers.reverse.find? fun header => isContentType header.1).map Prod.snd

def headersObject (headers : List (String × String)) (fields : List (String × Json)) :
    List (String × Json) :=
  headers.foldl (fun fields header => Json.setField header.1 (.str header.2) fields) fields

/-- A part: its own headers, and its own content. -/
def partObject (headers : List (String × String)) (content : Json) : Json :=
  .obj (("content", content) ::
    if headers = [] then [] else [("headers", .obj (headersObject headers []))])

/-- The members `multipart.<n>` and on. -/
def labelled : List Json → Nat → List (String × Json) → List (String × Json)
  | [], _, fields => fields
  | j :: js, n, fields => labelled js (n + 1) (Json.setField (label n) j fields)

/-- The members `multipart.1` to `multipart.<n>`. -/
def document (parts : List Json) : Json :=
  if parts = [] then .null else .obj (labelled parts 1 [])

/-- A content by a content type: a multipart one is the document of its parts, each by
    its own content type, and by the generic procedure when it has none. -/
def represent (lib : Lib) (consumer : Consumer) (content contentType : String) : Json :=
  if isMultipart contentType then
    if (boundary contentType).isEmpty then .null
    else
      document ((consumer.parts (boundary contentType) content).attach.map fun p =>
        have := consumer.shorter _ _ p.1 p.2
        partObject p.1.headers
          (represent lib consumer p.1.data ((ownContentType p.1.headers).getD "")))
  else plainValue lib content contentType
termination_by content.length

/-- A part as it is to be represented. -/
def representPart (lib : Lib) (consumer : Consumer) (p : Part) : Json :=
  partObject p.headers (represent lib consumer p.data ((ownContentType p.headers).getD ""))

/-- The generic procedure. -/
def generic (content : String) : String :=
  if (asHexString content).1 then content else (asHexString content).2

/-- Data that is represented by a content type as the generic procedure does. -/
def GenericBy (lib : Lib) (data contentType : String) : Prop :=
  if contentType = "application/json" then
    lib.parse data = some (.str (generic data)) ∨
      (lib.parse data = none ∧ lib.parseError data = generic data)
  else if "text/".toList.isPrefixOf contentType.toList then data.toList.all isPrint = true
  else isMultipart contentType = false

/-- A part is told apart from the others: one with a content type is not made of parts, and
    one without is not affected by the content type of the parts before it. -/
def Apart (lib : Lib) (consumer : Consumer) (before : String) (p : Part) : Prop :=
  match ownContentType p.headers with
  | some own => isMultipart own = true → boundary own ≠ "" → consumer.parts (boundary own) p.data = []
  | none => GenericBy lib p.data before

def AllApart (lib : Lib) (consumer : Consumer) : String → List Part → Prop
  | _, [] => True
  | before, p :: rest =>
      Apart lib consumer before p ∧
        AllApart lib consumer ((ownContentType p.headers).getD before) rest

section Specification

variable (lib : Lib) (consumer : Consumer)

theorem told_eq (headers : List (String × String)) (contentType : String) :
    told headers contentType = (ownContentType headers).getD contentType := by
  induction headers using List.reverseRecOn with
  | nil => rfl
  | append_singleton headers header ih =>
      rw [told, List.foldl_append, ownContentType, List.reverse_append, List.reverse_singleton,
        List.singleton_append, List.foldl_cons, List.foldl_nil]
      by_cases hname : isContentType header.1 = true
      · rw [if_pos hname, List.find?_cons]
        simp only [hname]
        rfl
      · rw [if_neg hname, List.find?_cons]
        simp only [hname]
        exact ih

theorem represent_parts {content contentType : String} (hmultipart : isMultipart contentType = true)
    (hboundary : (boundary contentType).isEmpty = false) :
    represent lib consumer content contentType
      = document ((consumer.parts (boundary contentType) content).map (representPart lib consumer)) := by
  rw [represent, if_pos hmultipart, hboundary, if_neg Bool.false_ne_true]
  exact congrArg document (@List.attach_map_val _ _ _ (representPart lib consumer))

theorem label_inj {m n : Nat} (h : label m = label n) : m = n := by
  have htext : (toString m).toList = (toString n).toList := by
    have hlist := congrArg String.toList h
    rw [label, label, String.toList_append, String.toList_append] at hlist
    exact List.append_cancel_left hlist
  have hdigits : Nat.toDigits 10 m = Nat.toDigits 10 n := by
    simpa [Nat.repr] using htext
  rw [← Nat.ofDigitChars_ten_toDigits (n := m), hdigits, Nat.ofDigitChars_ten_toDigits]

/-- A member is kept by what is labelled after it. -/
theorem field_labelled (js : List Json) {m n : Nat} (h : m < n) (fields : List (String × Json)) :
    Json.field (label m) (labelled js n fields) = Json.field (label m) fields := by
  induction js generalizing n fields with
  | nil => rfl
  | cons j js ih =>
      rw [labelled, ih (Nat.lt_succ_of_lt h), Json.field_setField, if_neg]
      intro heq
      exact absurd (label_inj heq) (Nat.ne_of_lt h)

theorem effects_plain {content contentType : String} (h : isMultipart contentType = false) :
    effects lib consumer content contentType
      = ⟨[], some (plainValue lib content contentType), contentType == "application/json"⟩ := by
  rw [effects, h, if_neg Bool.false_ne_true]
  split
  · next hjson => rw [hjson]
  · next hjson => rw [Bool.not_eq_true _ |>.mp hjson]

theorem ne_json_of_isMultipart {contentType : String} (h : isMultipart contentType = true) :
    ¬ (contentType == "application/json") = true := by
  intro hjson
  simp [isMultipart, bne, hjson] at h

theorem effects_without_boundary {content contentType : String} (h : isMultipart contentType = true)
    (hboundary : (boundary contentType).isEmpty = true) :
    effects lib consumer content contentType = ⟨[], none, false⟩ := by
  rw [effects, if_neg (ne_json_of_isMultipart h), if_pos h, if_pos hboundary]

theorem effects_parts {content contentType : String} (h : isMultipart contentType = true)
    (hboundary : (boundary contentType).isEmpty = false) :
    effects lib consumer content contentType
      = ⟨partWrites (consumer.parts (boundary contentType) content)
          (fun p _ => effects lib consumer p.data) "" 1, none, true⟩ := by
  rw [effects, if_neg (ne_json_of_isMultipart h), if_pos h, hboundary, if_neg Bool.false_ne_true]

theorem document_eq_null {js : List Json} : document js = .null ↔ js = [] := by
  rw [document]
  split
  · next hnil => exact iff_of_true rfl hnil
  · next hcons => exact iff_of_false (fun h => by cases h) hcons

theorem plainValue_generic (content : String) : plainValue lib content "" = .str (generic content) := rfl

/-- The bytes of a text are more than the text. -/
theorem generic_eq_self {content : String} :
    generic content = content ↔ content.toList.all isPrint = true := by
  show (if content.toList.all isPrint = true then content else _) = content ↔ _
  by_cases hprint : content.toList.all isPrint = true
  · rw [if_pos hprint]
    exact iff_of_true rfl hprint
  · rw [if_neg hprint]
    refine iff_of_false (fun heq => ?_) hprint
    have hlength := congrArg (fun s : String => s.toList.length) heq
    simp [asHexString, List.length_flatMap] at hlength
    omega

theorem genericBy_iff {data contentType : String} :
    GenericBy lib data contentType ↔
      isMultipart contentType = false ∧ plainValue lib data contentType = .str (generic data) := by
  rw [GenericBy, plainValue]
  by_cases hjson : contentType = "application/json"
  · subst hjson
    have hmultipart : isMultipart "application/json" = false := rfl
    rw [if_pos rfl, if_pos (beq_self_eq_true _), and_iff_right hmultipart]
    cases lib.parse data with
    | none => simp
    | some j => simp
  · have hbeq : ¬ (contentType == "application/json") = true := by simpa using hjson
    rw [if_neg hjson, if_neg hbeq]
    by_cases htext : "text/".toList.isPrefixOf contentType.toList = true
    · have hmultipart : isMultipart contentType = false := by
        rw [isMultipart, htext]
        simp
      rw [if_pos htext, if_pos htext, and_iff_right hmultipart, Json.str.injEq, @eq_comm _ data,
        generic_eq_self]
    · rw [if_neg htext, if_neg htext]
      exact (and_iff_left rfl).symm

/-- What the representation of a part is to the code: no assignment beside its content, and
    the content of its own. -/
theorem apart_iff {before : String} {p : Part} :
    Apart lib consumer before p ↔
      (effects lib consumer p.data (told p.headers before)).value.getD .null
        = represent lib consumer p.data ((ownContentType p.headers).getD "") := by
  rw [Apart, told_eq]
  cases ownContentType p.headers with
  | none =>
      rw [Option.getD_none, Option.getD_none, genericBy_iff]
      have hown : represent lib consumer p.data "" = .str (generic p.data) := by
        rw [represent, if_neg (by decide), plainValue_generic]
      rw [hown]
      cases hmultipart : isMultipart before with
      | false =>
          rw [effects_plain lib consumer hmultipart, Option.getD_some]
          exact and_iff_right rfl
      | true =>
          refine iff_of_false (fun h => Bool.false_ne_true h.1.symm) fun h => ?_
          cases hboundary : (boundary before).isEmpty with
          | true =>
              rw [effects_without_boundary lib consumer hmultipart hboundary] at h
              cases h
          | false =>
              rw [effects_parts lib consumer hmultipart hboundary] at h
              cases h
  | some own =>
      rw [Option.getD_some, Option.getD_some]
      cases hmultipart : isMultipart own with
      | false =>
          rw [effects_plain lib consumer hmultipart, represent, hmultipart, if_neg Bool.false_ne_true]
          refine iff_of_true (fun h => ?_) rfl
          rw [hmultipart] at h
          cases h
      | true =>
          cases hboundary : (boundary own).isEmpty with
          | true =>
              rw [effects_without_boundary lib consumer hmultipart hboundary, represent, if_pos hmultipart,
                if_pos hboundary]
              refine iff_of_true (fun _ hne => ?_) rfl
              exact absurd (String.isEmpty_iff.mp hboundary) hne
          | false =>
              rw [effects_parts lib consumer hmultipart hboundary,
                represent_parts lib consumer hmultipart hboundary, Option.getD_none, eq_comm,
                document_eq_null, List.map_eq_nil_iff]
              refine ⟨fun h => h hmultipart ?_, fun h _ _ => h⟩
              intro hempty
              rw [hempty] at hboundary
              cases hboundary

theorem Apart.writes {before : String} {p : Part} (h : Apart lib consumer before p) :
    (effects lib consumer p.data (told p.headers before)).writes = [] := by
  rw [told_eq]
  rw [Apart] at h
  cases hown : ownContentType p.headers with
  | none =>
      rw [hown] at h
      rw [Option.getD_none, effects_plain lib consumer ((genericBy_iff lib).mp h).1]
  | some own =>
      rw [hown] at h
      rw [Option.getD_some]
      cases hmultipart : isMultipart own with
      | false => rw [effects_plain lib consumer hmultipart]
      | true =>
          cases hboundary : (boundary own).isEmpty with
          | true => rw [effects_without_boundary lib consumer hmultipart hboundary]
          | false =>
              rw [effects_parts lib consumer hmultipart hboundary, h hmultipart]
              · rfl
              · intro hempty
                rw [hempty] at hboundary
                cases hboundary

end Specification

/-! ## When the parts become that -/

/-- Where decoding assigns: to the content or to a header of a part. -/
def Shaped (w : Json.Write) : Prop :=
  ∃ m, w.1 = [label m, "content"] ∨ ∃ name, w.1 = [label m, "headers", name]

theorem prefixFree_of_shaped {ws : List Json.Write} (h : ∀ w ∈ ws, Shaped w) : Json.PrefixFree ws := by
  intro w hw u hu hstarts
  obtain ⟨m, hm | ⟨name, hm⟩⟩ := h w hw
  · obtain ⟨n, hn | ⟨other, hn⟩⟩ := h u hu
    · rw [hm, hn] at hstarts ⊢
      exact hstarts.eq_of_length rfl
    · rw [hm, hn] at hstarts
      simp at hstarts
  · obtain ⟨n, hn | ⟨other, hn⟩⟩ := h u hu
    · rw [hm, hn] at hstarts
      simp at hstarts
    · rw [hm, hn] at hstarts ⊢
      exact hstarts.eq_of_length rfl

theorem deep_of_shaped {ws : List Json.Write} (h : ∀ w ∈ ws, Shaped w) : Json.Deep ws := by
  intro w hw hnil
  obtain ⟨m, hm | ⟨name, hm⟩⟩ := h w hw
  · cases hm.symm.trans hnil
  · cases hm.symm.trans hnil

/-- What is so of the assignments to headers and contents is so of all assignments for parts. -/
theorem partWrites_forall {P : Json.Write → Prop} {parts : List Part} {effects : Part → String → Effects}
    (hheaders : ∀ n name value, P ([label n, "headers", name], .str value))
    (hcontent : ∀ p ∈ parts, ∀ contentType n,
      P ([label n, "content"], (effects p contentType).value.getD .null))
    (h : ∀ p ∈ parts, ∀ contentType, ∀ w ∈ (effects p contentType).writes, P w)
    (contentType : String) (n : Nat) :
    ∀ w ∈ partWrites parts (fun p _ => effects p) contentType n, P w := by
  induction parts generalizing contentType n with
  | nil =>
      intro w hw
      cases hw
  | cons p rest ih =>
      intro w hw
      rw [partWrites, List.mem_append, List.mem_append, List.mem_cons] at hw
      rcases hw with hw | hw | rfl | hw
      · obtain ⟨header, -, rfl⟩ := List.mem_map.mp hw
        exact hheaders n header.1 header.2
      · exact h p List.mem_cons_self _ w hw
      · exact hcontent p List.mem_cons_self _ n
      · exact ih (fun q hq => hcontent q (List.mem_cons_of_mem p hq))
          (fun q hq => h q (List.mem_cons_of_mem p hq)) _ _ w hw

section Decoding

variable (lib : Lib) (consumer : Consumer)

theorem effects_forall {P : Json.Write → Prop}
    (hheaders : ∀ n name value, P ([label n, "headers", name], .str value))
    (hcontent : ∀ content contentType n,
      P ([label n, "content"], (effects lib consumer content contentType).value.getD .null))
    (content contentType : String) : ∀ w ∈ (effects lib consumer content contentType).writes, P w := by
  induction hn : content.length using Nat.strongRecOn generalizing content contentType with
  | ind n ih =>
      cases hmultipart : isMultipart contentType with
      | false =>
          rw [effects_plain lib consumer hmultipart]
          intro w hw
          cases hw
      | true =>
          cases hboundary : (boundary contentType).isEmpty with
          | true =>
              rw [effects_without_boundary lib consumer hmultipart hboundary]
              intro w hw
              cases hw
          | false =>
              rw [effects_parts lib consumer hmultipart hboundary]
              refine partWrites_forall hheaders (fun p _ => hcontent p.data) (fun p hp contentType => ?_) "" 1
              exact ih p.data.length (hn ▸ consumer.shorter _ _ p hp) p.data contentType rfl

theorem effects_shaped (content contentType : String) :
    ∀ w ∈ (effects lib consumer content contentType).writes, Shaped w :=
  effects_forall lib consumer (fun n name _ => ⟨n, Or.inr ⟨name, rfl⟩⟩)
    (fun _ _ n => ⟨n, Or.inl rfl⟩) content contentType

/-- The assignments for parts of a content. -/
def writesOf (parts : List Part) (contentType : String) (n : Nat) : List Json.Write :=
  partWrites parts (fun p _ => effects lib consumer p.data) contentType n

theorem writesOf_cons (p : Part) (rest : List Part) (contentType : String) (n : Nat) :
    writesOf lib consumer (p :: rest) contentType n
      = headerWrites n p.headers ++
        ((effects lib consumer p.data (told p.headers contentType)).writes ++
          (([label n, "content"],
              (effects lib consumer p.data (told p.headers contentType)).value.getD .null) ::
            writesOf lib consumer rest (told p.headers contentType) (n + 1))) := rfl

theorem writesOf_shaped (parts : List Part) (contentType : String) (n : Nat) :
    ∀ w ∈ writesOf lib consumer parts contentType n, Shaped w :=
  partWrites_forall (fun n name _ => ⟨n, Or.inr ⟨name, rfl⟩⟩) (fun _ _ _ n => ⟨n, Or.inl rfl⟩)
    (fun p _ contentType => effects_shaped lib consumer p.data contentType) contentType n

/-- Parts that are told apart leave the members of those before them. -/
theorem AllApart.under {before : String} {parts : List Part}
    (h : AllApart lib consumer before parts) {m n : Nat} (hlt : m < n) :
    Json.under (label m) (writesOf lib consumer parts before n) = [] := by
  induction parts generalizing before n with
  | nil => rfl
  | cons p rest ih =>
      obtain ⟨hp, hrest⟩ := h
      have hlabel : label n ≠ label m := fun heq => absurd (label_inj heq) (Nat.ne_of_gt hlt)
      have hheaders : Json.under (label m) (headerWrites n p.headers) = [] := by
        rw [List.eq_nil_iff_forall_not_mem]
        rintro ⟨path, v⟩ hw
        obtain ⟨header, -, heq⟩ := List.mem_map.mp (Json.mem_under.mp hw)
        exact hlabel (List.cons.inj (Prod.mk.inj heq).1).1
      rw [writesOf_cons, hp.writes, List.nil_append, Json.under_append, hheaders, List.nil_append,
        Json.under, if_neg hlabel, told_eq]
      exact ih hrest (Nat.lt_succ_of_lt hlt)

theorem assignAll_headers {headers : List (String × String)} (hne : headers ≠ []) {j : Json}
    {fields : List (String × Json)} (hf : Json.objectFields j = some fields) :
    Json.assignAll (headers.map fun header => ([header.1], .str header.2)) j
      = some (.obj (headersObject headers fields)) := by
  induction headers generalizing j fields with
  | nil => exact absurd rfl hne
  | cons header headers ih =>
      rw [List.map_cons, Json.assignAll, Json.assign, hf, Option.bind_some, Json.assign,
        Option.map_some, Option.bind_some]
      cases headers with
      | nil => rfl
      | cons next headers => exact ih (List.cons_ne_nil _ _) rfl

/-- The headers and the content of a part, in its own member. -/
theorem assignAll_partObject (headers : List (String × String)) (content : Json) :
    Json.assignAll (Json.writesBelow "headers" (headers.map fun header => ([header.1], .str header.2)) ++
        [(["content"], content)]) .null
      = some (partObject headers content) := by
  by_cases hnil : headers = []
  · subst hnil
    rfl
  · have hwrites : headers.map (fun header => (([header.1], .str header.2) : Json.Write)) ≠ [] :=
      fun h => hnil (List.map_eq_nil_iff.mp h)
    have hnull : Json.objectFields .null = some [] := rfl
    rw [Json.assignAll_append, Json.assignAll_below "headers" hwrites hnull, Json.field,
      Option.getD_none, assignAll_headers hnil hnull, partObject, if_neg hnil]
    rfl

theorem assignAll_part {p : Part} {content : Json} {n : Nat} {j : Json}
    {fields : List (String × Json)} (hf : Json.objectFields j = some fields)
    (hnew : Json.field (label n) fields = none) :
    Json.assignAll (headerWrites n p.headers ++ [([label n, "content"], content)]) j
      = some (.obj (Json.setField (label n) (partObject p.headers content) fields)) := by
  have hbelow : headerWrites n p.headers ++ [([label n, "content"], content)]
      = Json.writesBelow (label n)
          (Json.writesBelow "headers" (p.headers.map fun header => ([header.1], .str header.2)) ++
            [(["content"], content)]) := by
    simp [headerWrites, Json.writesBelow]
  rw [hbelow, Json.assignAll_below _ (List.append_ne_nil_of_right_ne_nil _ (List.cons_ne_nil _ _)) hf,
    hnew, Option.getD_none, assignAll_partObject]
  rfl

/-- The first of parts that are told apart. -/
theorem AllApart.assignAll_cons {before : String} {p : Part} {rest : List Part}
    (h : AllApart lib consumer before (p :: rest)) {n : Nat} {j : Json}
    {fields : List (String × Json)} (hf : Json.objectFields j = some fields)
    (hnew : Json.field (label n) fields = none) :
    Json.assignAll (writesOf lib consumer (p :: rest) before n) j
      = Json.assignAll (writesOf lib consumer rest ((ownContentType p.headers).getD before) (n + 1))
          (.obj (Json.setField (label n) (representPart lib consumer p) fields)) := by
  have happend : ∀ (ws us : List Json.Write) (w : Json.Write), ws ++ w :: us = (ws ++ [w]) ++ us := by
    intro ws us w
    rw [List.append_assoc, List.singleton_append]
  rw [writesOf_cons, h.1.writes, List.nil_append, happend, Json.assignAll_append,
    (apart_iff lib consumer).mp h.1, assignAll_part hf hnew, told_eq]
  rfl

/-- Parts that are told apart become the members they are to become. -/
theorem AllApart.assignAll {before : String} {parts : List Part}
    (h : AllApart lib consumer before parts) {n : Nat} {fields : List (String × Json)}
    (hnew : ∀ m, n ≤ m → Json.field (label m) fields = none) :
    Json.assignAll (writesOf lib consumer parts before n) (.obj fields)
      = some (.obj (labelled (parts.map (representPart lib consumer)) n fields)) := by
  induction parts generalizing before n fields with
  | nil => rfl
  | cons p rest ih =>
      rw [h.assignAll_cons lib consumer rfl (hnew n (Nat.le_refl n))]
      refine ih h.2 fun m hm => ?_
      rw [Json.field_setField, if_neg, hnew m (Nat.le_of_succ_le hm)]
      intro heq
      exact absurd (label_inj heq) (Nat.ne_of_gt hm)

/-- Only those do: the content that a part is given last is its own. -/
theorem allApart_of_assignAll {before : String} {parts : List Part} {n : Nat} {j : Json}
    {fields : List (String × Json)}
    (h : Json.assignAll (writesOf lib consumer parts before n) j
      = some (.obj (labelled (parts.map (representPart lib consumer)) n fields))) :
    AllApart lib consumer before parts := by
  induction parts generalizing before n j fields with
  | nil => trivial
  | cons p rest ih =>
      rw [writesOf_cons, Json.assignAll_append] at h
      obtain ⟨j1, -, h⟩ := Option.bind_eq_some_iff.mp h
      rw [Json.assignAll_append] at h
      obtain ⟨j2, -, h⟩ := Option.bind_eq_some_iff.mp h
      obtain ⟨j3, hcontent, hrest⟩ := Option.bind_eq_some_iff.mp h
      rw [told_eq] at hrest
      have hapart := ih hrest
      refine ⟨(apart_iff lib consumer).mpr ?_, hapart⟩
      have hkept := @Json.assignAll_valueAt (label n) ["content"] _
        (deep_of_shaped (writesOf_shaped lib consumer rest _ _))
        (hapart.under lib consumer (Nat.lt_succ_self n)) _ _ hrest
      rw [Json.assign_valueAt hcontent, List.map_cons, labelled, Json.valueAt, Json.objectFields,
        Option.bind_some, field_labelled _ (Nat.lt_succ_self n), Json.field_setField, if_pos rfl] at hkept
      exact (Option.some.inj hkept).symm

theorem assignAll_document (parts : List Part) :
    Json.assignAll (writesOf lib consumer parts "" 1) .null
        = some (document (parts.map (representPart lib consumer))) ↔
      AllApart lib consumer "" parts := by
  cases parts with
  | nil => exact iff_of_true rfl trivial
  | cons p rest =>
      rw [document, if_neg (by simp)]
      refine ⟨allApart_of_assignAll lib consumer, fun h => ?_⟩
      rw [h.assignAll_cons lib consumer (show Json.objectFields .null = some [] from rfl) rfl]
      refine h.2.assignAll lib consumer fun m hm => ?_
      rw [Json.field_setField, if_neg]
      · rfl
      · intro heq
        exact absurd (label_inj heq) (Nat.ne_of_gt hm)

theorem parts_empty (boundary : String) : consumer.parts boundary "" = [] := by
  rw [List.eq_nil_iff_forall_not_mem]
  intro p hp
  exact Nat.not_lt_zero _ (consumer.shorter boundary "" p hp)

/-- A new data part is decoded by its assignments, and nothing is thrown. -/
theorem decode_fresh (headers : HeaderMap) (s : String) {contentType : String}
    (hheaders : headers.find "content-type" = some contentType)
    (hmultipart : isMultipart contentType = true) (hboundary : (boundary contentType).isEmpty = false) :
    (decode lib consumer headers { str := s }).2 = true ∧
      Json.assignAll (writesOf lib consumer (consumer.parts (boundary contentType) s) "" 1) .null
        = some (decode lib consumer headers { str := s }).1.json := by
  by_cases hs : s = ""
  · subst hs
    rw [parts_empty]
    exact ⟨rfl, rfl⟩
  · have hempty : ¬ s.isEmpty = true := fun h => hs (String.isEmpty_iff.mp h)
    have hshaped := writesOf_shaped lib consumer (consumer.parts (boundary contentType) s) "" 1
    obtain ⟨j, hj⟩ := Option.isSome_iff_exists.mp (Json.assignAll_null (prefixFree_of_shaped hshaped))
    have hthrough := Json.assignThrough_eq_some.mpr hj
    have hdecode : decode lib consumer headers { str := s } = (⟨s, true, true, j⟩, true) := by
      rw [decode, if_neg Bool.false_ne_true, if_neg hempty, hheaders, Option.getD_some, decodeContent_eq,
        effects_parts lib consumer hmultipart hboundary, Effects.apply]
      simp only [writesOf] at hthrough
      simp [hthrough]
    rw [hdecode]
    exact ⟨rfl, hj⟩

/-- The parts of a multipart content become the document they are to become, each with its own
    headers and its own content, exactly when they are all told apart. -/
theorem multipart_decoded_iff (headers : HeaderMap) (s : String) {contentType : String}
    (hheaders : headers.find "content-type" = some contentType)
    (hmultipart : isMultipart contentType = true) (hboundary : (boundary contentType).isEmpty = false) :
    ((decode lib consumer headers { str := s }).2 = true ∧
      (decode lib consumer headers { str := s }).1.json
        = document ((consumer.parts (boundary contentType) s).map (representPart lib consumer))) ↔
      AllApart lib consumer "" (consumer.parts (boundary contentType) s) := by
  obtain ⟨hok, hjson⟩ := decode_fresh lib consumer headers s hheaders hmultipart hboundary
  rw [← assignAll_document, hjson, Option.some.injEq]
  exact and_iff_right hok

end Decoding

/-- A text part, and a byte with its content type. -/
def typedBody : String :=
  "--b\r\n" ++ "content-type: text/html\r\n\r\na\r\n"
    ++ "--b\r\ncontent-type: application/octet-stream\r\n\r\n\x01\r\n--b--\r\n"

/-- The same byte without a content type. -/
def untypedBody : String :=
  "--b\r\n" ++ "content-type: text/html\r\n\r\na\r\n" ++ "--b\r\n\r\n\x01\r\n--b--\r\n"

def innerBody : String := "--c\r\n\r\na\r\n--c--"

/-- A part that is made of a part. -/
def nestedBody : String :=
  "--b\r\n" ++ "content-type: multipart/mixed; boundary=c\r\n\r\n" ++ innerBody ++ "\r\n--b--\r\n"

def sampleParts (boundary content : String) : List Part :=
  if boundary = "b" ∧ content = typedBody then
    [⟨[("content-type", "text/html")], "a"⟩, ⟨[("content-type", "application/octet-stream")], "\x01"⟩]
  else if boundary = "b" ∧ content = untypedBody then
    [⟨[("content-type", "text/html")], "a"⟩, ⟨[], "\x01"⟩]
  else if boundary = "b" ∧ content = nestedBody then
    [⟨[("content-type", "multipart/mixed; boundary=c")], innerBody⟩]
  else if boundary = "c" ∧ content = innerBody then [⟨[], "a"⟩]
  else []

theorem one_lt_bodies : 1 < typedBody.length ∧ 1 < untypedBody.length ∧ 1 < innerBody.length := by
  have hopened : 1 < "--b\r\n".length := by decide
  refine ⟨?_, ?_, by decide⟩
  · rw [typedBody, String.length_append, String.length_append]
    omega
  · rw [untypedBody, String.length_append, String.length_append]
    omega

theorem innerBody_shorter : innerBody.length < nestedBody.length := by
  have hopened : 1 < "--b\r\n".length := by decide
  rw [nestedBody, String.length_append, String.length_append, String.length_append]
  omega

theorem sampleParts_shorter (boundary content : String) (part : Part)
    (h : part ∈ sampleParts boundary content) : part.data.length < content.length := by
  rw [sampleParts] at h
  split at h
  · next hbody =>
    rw [hbody.2]
    simp only [List.mem_cons, List.not_mem_nil, or_false] at h
    rcases h with rfl | rfl <;> exact one_lt_bodies.1
  · split at h
    · next hbody =>
      rw [hbody.2]
      simp only [List.mem_cons, List.not_mem_nil, or_false] at h
      rcases h with rfl | rfl <;> exact one_lt_bodies.2.1
    · split at h
      · next hbody =>
        rw [hbody.2, List.mem_singleton.mp h]
        exact innerBody_shorter
      · split at h
        · next hbody =>
          rw [hbody.2, List.mem_singleton.mp h]
          exact one_lt_bodies.2.2
        · cases h

def sampleConsumer : Consumer := ⟨sampleParts, sampleParts_shorter⟩

def mixedHeaders : HeaderMap := [("content-type", "multipart/mixed; boundary=b")]

theorem typed_parts_decoded :
    (decode idleLib sampleConsumer mixedHeaders { str := typedBody }).1.json
      = document ((sampleParts "b" typedBody).map (representPart idleLib sampleConsumer)) :=
  ((multipart_decoded_iff idleLib sampleConsumer mixedHeaders typedBody rfl rfl rfl).mpr
    ⟨show isMultipart "text/html" = true → _ from fun h => absurd h (by decide),
      show isMultipart "application/octet-stream" = true → _ from fun h => absurd h (by decide),
      trivial⟩).2

/-- A byte after a text part is taken for text, and a part of a part is lost. -/
theorem untyped_part_inherits :
    (decode idleLib sampleConsumer mixedHeaders { str := untypedBody }).1.json
        ≠ document ((sampleParts "b" untypedBody).map (representPart idleLib sampleConsumer)) ∧
      (decode idleLib sampleConsumer mixedHeaders { str := nestedBody }).1.json
        ≠ document ((sampleParts "b" nestedBody).map (representPart idleLib sampleConsumer)) := by
  constructor
  · intro heq
    obtain ⟨-, hjson⟩ := decode_fresh idleLib sampleConsumer mixedHeaders untypedBody rfl rfl rfl
    rw [heq] at hjson
    have hapart := (assignAll_document idleLib sampleConsumer _).mp hjson
    have hprint : "\x01".toList.all isPrint = true := hapart.2.1
    cases hprint
  · intro heq
    obtain ⟨-, hjson⟩ := decode_fresh idleLib sampleConsumer mixedHeaders nestedBody rfl rfl rfl
    rw [heq] at hjson
    have hapart := (assignAll_document idleLib sampleConsumer _).mp hjson
    have hparts : isMultipart "multipart/mixed; boundary=c" = true → "c" ≠ "" →
        sampleParts "c" innerBody = [] := hapart.1
    cases hparts rfl (by decide)

end H2Multipart
