import H2agent.ClientProvisionProofs

/-! # Sources on a body

    Sources on bodies, events and vault entries hand a document and a path to
    `TypeConverter::setObject`.  `setObject_exact_iff` says when what it extracts
    is what the path names.

    The source `request.body` of a client has a second way: unless some item builds
    the body as JSON, the provisioned text is taken whatever the path.
    `request_body_source_iff` compares what one item extracts in two lists. -/

namespace H2BodySource

open H2ClientProvision H2Convert H2Key H2Source H2Store H2Target H2Transformation JsonValue

/-! ## Extraction -/

/-- The value a path names in a document. -/
def resolved (source : Json) (path : String) : Option Json :=
  (Json.parsePointer path).bind (fun tokens => source.getAt tokens)

/-- The holder has the native type of the value, and the getter of that type
    returns it. -/
def Holds (lib : Lib) (v : TypeConverter) : Json → Prop
  | .obj fields => v.native = .object ∧ v.getObject = (true, .obj fields)
  | .arr l => v.native = .object ∧ v.getObject = (true, .arr l)
  | .str s => v.native = .string s ∧ v.getString lib = .ok s
  | .uint u => v.native = .unsigned u ∧ v.getUnsigned lib = some u
  | .int i => v.native = .integer i ∧ v.getInteger lib = some i
  | .float f => v.native = .float f ∧ v.getFloat lib = some f
  | .bool b => v.native = .boolean b ∧ v.getBoolean = some b
  | .null => False

/-- `setObject` succeeds just on the paths that name something, and then holds what
    they name. -/
structure ExactExtraction (lib : Lib) (v : TypeConverter) (source : Json) (path : String) :
    Prop where
  success : (v.setObject source path).1 = true ↔ ∃ j, resolved source path = some j ∧ j ≠ .null
  value : ∀ j, resolved source path = some j → j ≠ .null → Holds lib (v.setObject source path).2 j

/-- Every value but null is held under the type `setObject` gives it. -/
theorem holds_nativeOf (lib : Lib) {j : Json} (hj : j ≠ .null) :
    Holds lib ⟨TypeConverter.nativeOf j, j⟩ j := by
  cases j with
  | null => exact (hj rfl).elim
  | obj fields => exact ⟨rfl, rfl⟩
  | arr l => exact ⟨rfl, rfl⟩
  | str s => exact ⟨rfl, rfl⟩
  | uint u => exact ⟨rfl, rfl⟩
  | int i => exact ⟨rfl, rfl⟩
  | float f => exact ⟨rfl, rfl⟩
  | bool b => exact ⟨rfl, rfl⟩

/-- The values `empty()` holds of. -/
theorem empty_iff (j : Json) : j.empty = true ↔ j = .null ∨ j = .obj [] ∨ j = .arr [] := by
  cases j with
  | null => exact ⟨fun _ => .inl rfl, fun _ => rfl⟩
  | obj fields => simp [Json.empty]
  | arr l => simp [Json.empty]
  | str s => simp [Json.empty]
  | uint u => simp [Json.empty]
  | int i => simp [Json.empty]
  | float f => simp [Json.empty]
  | bool b => simp [Json.empty]

/-- `setObject` on a path that is not empty. -/
theorem setObject_path (v : TypeConverter) (source : Json) {path : String} (hpath : path ≠ "") :
    (resolved source path = none ∧ v.setObject source path = (false, v.clear))
      ∨ ∃ j, resolved source path = some j
        ∧ v.setObject source path
          = if j.empty then (false, ⟨.string "", j⟩) else (true, ⟨TypeConverter.nativeOf j, j⟩) := by
  have hne : ¬ path.isEmpty = true := fun h => hpath (String.isEmpty_iff.mp h)
  simp only [TypeConverter.setObject, if_neg hne, resolved]
  cases (Json.parsePointer path).bind (fun tokens => source.getAt tokens) with
  | none => exact .inl ⟨rfl, rfl⟩
  | some j => exact .inr ⟨j, rfl, rfl⟩

/-- **EXACT EXTRACTION**: for every document and every path that is not empty,
    `setObject` is exact if and only if the path does not name an empty object or an
    empty array. -/
theorem setObject_exact_iff (lib : Lib) (v : TypeConverter) (source : Json) (path : String)
    (hpath : path ≠ "") :
    ExactExtraction lib v source path
      ↔ ∀ j, resolved source path = some j → j ≠ .obj [] ∧ j ≠ .arr [] := by
  rcases setObject_path v source hpath with ⟨hnone, hset⟩ | ⟨j, hj, hset⟩
  · constructor
    · intro _ j hj
      rw [hnone] at hj
      cases hj
    · intro _
      refine ⟨?_, ?_⟩
      · rw [hset, hnone]
        constructor
        · intro h
          cases h
        · rintro ⟨j, hj, _⟩
          cases hj
      · intro j hj
        rw [hnone] at hj
        cases hj
  · have hsuccess : (v.setObject source path).1 = true ↔ ¬ j.empty = true := by
      rw [hset]
      by_cases he : j.empty = true
      · simp [he]
      · simp [he]
    constructor
    · intro h k hk
      rw [hj] at hk
      cases hk
      -- an empty container is a value, so success is due
      have hfull : j ≠ .null → ¬ j.empty = true :=
        fun hne => hsuccess.mp (h.success.mpr ⟨j, hj, hne⟩)
      constructor
      · rintro rfl
        exact hfull (by simp) rfl
      · rintro rfl
        exact hfull (by simp) rfl
    · intro h
      obtain ⟨hobj, harr⟩ := h j hj
      have hnull : j.empty = true ↔ j = .null := by
        rw [empty_iff]
        constructor
        · rintro (h | h | h)
          · exact h
          · exact (hobj h).elim
          · exact (harr h).elim
        · exact .inl
      refine ⟨?_, ?_⟩
      · rw [hsuccess, hnull, hj]
        constructor
        · intro hne
          exact ⟨j, rfl, hne⟩
        · rintro ⟨k, hk, hne⟩
          cases hk
          exact hne
      · intro k hk hne
        rw [hj] at hk
        cases hk
        rw [hset, if_neg (fun he => hne (hnull.mp he))]
        exact holds_nativeOf lib hne

/-- A member that is a number is extracted as it is. -/
theorem number_extracted :
    ExactExtraction idleLib TypeConverter.fresh (.obj [("a", .uint 1)]) "/a" := by
  refine (setObject_exact_iff idleLib TypeConverter.fresh _ "/a" (by decide)).mpr ?_
  intro j hj
  have hone : resolved (.obj [("a", .uint 1)]) "/a" = some (.uint 1) := rfl
  rw [hone] at hj
  cases hj
  exact ⟨by simp, by simp⟩

/-- The path `/a` names an empty object, and `setObject` fails. -/
theorem empty_object_not_extracted :
    resolved (.obj [("a", .obj [])]) "/a" = some (.obj [])
      ∧ (TypeConverter.fresh.setObject (.obj [("a", .obj [])]) "/a").1 = false
      ∧ ¬ ExactExtraction idleLib TypeConverter.fresh (.obj [("a", .obj [])]) "/a" := by
  refine ⟨rfl, rfl, fun h => ?_⟩
  have hsuccess := h.success.mpr ⟨.obj [], rfl, by simp⟩
  cases hsuccess

/-! ## The request body of a client -/

section RequestBody

variable (env : Env) (requestUri : String) (requestHeaders : HeaderMap) (t : Transformation)
  (w : World) (v : TypeConverter)

/-- What the source of an item extracts from a request body: its success, and what
    the holder then shows. -/
def extracted (req : ClientRequest) (b : Body) : Except Fault (Bool × View) :=
  (H2Source.AdminClientProvision.sourceValue env req requestUri requestHeaders b.json t w).map
    (fun found => ((found.value.assign v).1, (found.value.assign v).2.view))

/-- The provision with another list of items. -/
def withItems (p : AdminClientProvision) (items : Transformations) : AdminClientProvision :=
  { p with transformations := items }

/-- The document shows the text at the path. -/
def ShowsText (j : Json) (path text : String) : Prop :=
  if path = "" then j = .str text ∨ (j = .null ∧ text = "") else resolved j path = some (.str text)

/-- The values with the native value of a text: the text, and null as the empty
    one. -/
theorem nativeOf_string_iff (j : Json) (text : String) :
    TypeConverter.nativeOf j = .string text ↔ j = .str text ∨ (j = .null ∧ text = "") := by
  cases j with
  | null => simp [TypeConverter.nativeOf, eq_comm]
  | obj fields => simp [TypeConverter.nativeOf]
  | arr l => simp [TypeConverter.nativeOf]
  | str s => simp [TypeConverter.nativeOf]
  | uint u => simp [TypeConverter.nativeOf]
  | int i => simp [TypeConverter.nativeOf]
  | float f => simp [TypeConverter.nativeOf]
  | bool b => simp [TypeConverter.nativeOf]

/-- A holder shows a text just when that is its native value. -/
theorem view_string_iff (h : TypeConverter) (text : String) :
    h.view = (v.setString text).view ↔ h.native = .string text := by
  constructor
  · intro heq
    exact SameView.native_eq (w := v.setString text) heq
  · intro hn
    have hshown : h.view = ⟨.string text, none⟩ := by
      rw [TypeConverter.view, hn]
    rw [hshown]
    rfl

/-- Extraction by path ends like the text itself exactly when the document shows the
    text at the path. -/
theorem setObject_text_iff (j : Json) (path text : String) :
    ((v.setObject j path).1, (v.setObject j path).2.view) = (true, (v.setString text).view)
      ↔ ShowsText j path text := by
  rw [Prod.mk.injEq, view_string_iff, ShowsText]
  by_cases hpath : path = ""
  · rw [if_pos hpath, hpath, ← nativeOf_string_iff]
    exact ⟨fun h => h.2, fun h => ⟨rfl, h⟩⟩
  · rw [if_neg hpath]
    rcases setObject_path v j hpath with ⟨hnone, hset⟩ | ⟨k, hk, hset⟩
    · rw [hset, hnone]
      constructor
      · rintro ⟨h, _⟩
        cases h
      · intro h
        cases h
    · rw [hset, hk, Option.some.injEq]
      by_cases he : k.empty = true
      · rw [if_pos he]
        constructor
        · rintro ⟨h, _⟩
          cases h
        · rintro rfl
          cases he
      · rw [if_neg he]
        constructor
        · rintro ⟨_, h⟩
          rcases (nativeOf_string_iff k text).mp h with h | ⟨h, _⟩
          · exact h
          · rw [h] at he
            exact (he rfl).elim
        · rintro rfl
          exact ⟨rfl, rfl⟩

/-- What the source extracts where the body is built as JSON. -/
theorem extracted_json {req : ClientRequest} {b : Body} {path : String}
    (ht : t.sourceType = .RequestBody)
    (hpath : expand env w t.source t.sourcePatterns = .ok path) (huses : req.usesJson = true) :
    extracted env requestUri requestHeaders t w v req b
      = .ok ((v.setObject b.json path).1, (v.setObject b.json path).2.view) := by
  simp only [extracted, H2Source.AdminClientProvision.sourceValue, ht, hpath]
  show Except.map _ (if req.usesJson = true then _ else _) = _
  rw [if_pos huses]
  rfl

/-- What it extracts elsewhere: the provisioned text, whatever the path. -/
theorem extracted_text {req : ClientRequest} {b : Body} {path : String}
    (ht : t.sourceType = .RequestBody)
    (hpath : expand env w t.source t.sourcePatterns = .ok path) (huses : req.usesJson = false) :
    extracted env requestUri requestHeaders t w v req b
      = .ok (true, (v.setString req.requestBodyAsString).view) := by
  simp only [extracted, H2Source.AdminClientProvision.sourceValue, ht, hpath]
  show Except.map _ (if req.usesJson = true then _ else _) = _
  rw [huses]
  rfl

/-- **WHAT A REQUEST BODY SOURCE DEPENDS ON**: for every client provision, every path
    and every body built so far, as it stands under two lists of items, the source
    extracts the same in both if and only if the lists agree on whether an outermost
    item builds the body as JSON, or the body that is built as JSON shows the
    provisioned text at the path.  On a response the lists do not matter. -/
theorem request_body_source_iff (p : AdminClientProvision) (items : Transformations)
    (b b' : Body) (path : String) (ht : t.sourceType = .RequestBody)
    (hpath : expand env w t.source t.sourcePatterns = .ok path)
    (hsame : p.usesJson = true → (withItems p items).usesJson = true → b.json = b'.json) :
    (extracted env requestUri requestHeaders t w v p.request b
        = extracted env requestUri requestHeaders t w v (withItems p items).request b'
      ↔ p.usesJson = (withItems p items).usesJson
        ∨ ShowsText (if p.usesJson then b.json else b'.json) path p.requestBodyAsString)
    ∧ ∀ (received : ReceivedResponse) (sendSeq : Nat) (onResponse : Transformations),
      extracted env requestUri requestHeaders t w v (p.responseRequest received sendSeq) b
        = extracted env requestUri requestHeaders t w v
            (({ withItems p items with onResponseTransformations := onResponse } :
              AdminClientProvision).responseRequest received sendSeq) b := by
  refine ⟨?_, fun received sendSeq onResponse => rfl⟩
  have htext : (withItems p items).request.requestBodyAsString = p.requestBodyAsString := rfl
  cases hp : p.usesJson with
  | false =>
      rw [extracted_text env requestUri requestHeaders t w v ht hpath hp, if_neg Bool.false_ne_true]
      cases hq : (withItems p items).usesJson with
      | false =>
          rw [extracted_text env requestUri requestHeaders t w v ht hpath hq, htext]
          exact ⟨fun _ => .inl rfl, fun _ => rfl⟩
      | true =>
          rw [extracted_json env requestUri requestHeaders t w v ht hpath hq, Except.ok.injEq,
            eq_comm]
          refine (setObject_text_iff v b'.json path p.requestBodyAsString).trans ?_
          exact ⟨.inr, fun h => h.resolve_left Bool.false_ne_true⟩
  | true =>
      rw [extracted_json env requestUri requestHeaders t w v ht hpath hp, if_pos rfl]
      cases hq : (withItems p items).usesJson with
      | true =>
          rw [extracted_json env requestUri requestHeaders t w v ht hpath hq, hsame hp hq]
          exact ⟨fun _ => .inl rfl, fun _ => rfl⟩
      | false =>
          rw [extracted_text env requestUri requestHeaders t w v ht hpath hq, Except.ok.injEq,
            htext]
          refine (setObject_text_iff v b.json path p.requestBodyAsString).trans ?_
          exact ⟨.inr, fun h => h.resolve_left Bool.false_ne_true.symm⟩

end RequestBody

/-- An item that reads a node of the request body. -/
def readsId : Transformation :=
  { sourceType := .RequestBody, source := "/id", targetType := .TVar, target := "x" }

/-- An item that writes another node of it. -/
def writesOther : Transformation :=
  { sourceType := .Value, source := "1", targetType := .RequestBodyJson_String, target := "/n" }

/-- An item on a header. -/
def writesHeader : Transformation :=
  { sourceType := .Value, source := "1", targetType := .RequestHeader_t, target := "x-n" }

/-- A provision with a request body and the item that reads from it. -/
def idProvision : AdminClientProvision :=
  { outState := defaultState, requestMethod := "POST", requestUri := "/a",
    requestBody := .obj [("id", .uint 7)], requestBodyAsString := "\x7b\"id\":7\x7d",
    transformations := .cons readsId .nil .nil }

/-- The body as it stands before the first item. -/
def startBody (p : AdminClientProvision) : Body := (p.start 0 World.blank).state.requestBody

/-- What the first item extracts there. -/
def firstExtracted (p : AdminClientProvision) : Except Fault (Bool × View) :=
  extracted idleEnv "/a" [] readsId World.blank TypeConverter.fresh p.request (startBody p)

/-- An item on a header does not change what is read. -/
theorem header_item_unseen :
    firstExtracted idProvision
      = firstExtracted (withItems idProvision (.cons readsId .nil (.cons writesHeader .nil .nil))) :=
  (request_body_source_iff idleEnv "/a" [] readsId World.blank TypeConverter.fresh idProvision
    (.cons readsId .nil (.cons writesHeader .nil .nil)) _ _ "/id" rfl rfl (fun _ _ => rfl)).1.mpr
    (.inl rfl)

/-- With an item behind it that writes another node, the node `/id` is read as the
    number 7; without that item the whole text of the body is. -/
theorem json_item_seen :
    firstExtracted idProvision = .ok (true, ⟨.string "\x7b\"id\":7\x7d", none⟩)
      ∧ firstExtracted (withItems idProvision (.cons readsId .nil (.cons writesOther .nil .nil)))
        = .ok (true, ⟨.unsigned 7, none⟩)
      ∧ firstExtracted idProvision
        ≠ firstExtracted
          (withItems idProvision (.cons readsId .nil (.cons writesOther .nil .nil))) := by
  refine ⟨rfl, rfl, fun h => ?_⟩
  have hview : (Except.ok (true, ⟨.string "\x7b\"id\":7\x7d", none⟩) : Except Fault (Bool × View))
      = .ok (true, ⟨.unsigned 7, none⟩) := h
  simp at hview

end H2BodySource
