import H2agent.MultipartProofs
import H2agent.HexStringProofs

/-! # The history of a data part

    A `DataPart` is assigned a content, or the bytes of a hexadecimal text, and decoded
    by the content type of headers.  `assign` resets the flags and keeps the JSON, and
    `assignFromHex` keeps one of the flags too; `decode` writes over what was kept in
    some of its branches only.

    * `Op`, `after`: a history of assignments and decodings;
    * `NothingKept`: what a data part may keep for a content that is decoded next;
    * `forgets_iff`: the content is decoded as in a new data part exactly then;
    * `after_ordered`: the documents of every history are maps in order. -/

namespace H2DataPart

open CppText JsonValue H2Key H2Convert H2Transformation H2Multipart

/-! ## The code -/

/-- `assign`. -/
def assign (s : String) (part : DataPart) : DataPart :=
  { part with str := s, decoded := false, isJson := false }

/-- `assignFromHex`, with its result. -/
def assignFromHex (hex : String) (part : DataPart) : DataPart × Bool :=
  ({ part with decoded := false, str := (fromHexString hex part.str).2 },
    (fromHexString hex part.str).1)

inductive Op where
  | assign (s : String)
  | assignFromHex (hex : String)
  | decode (headers : HeaderMap)

def Op.apply (lib : Lib) (consumer : Consumer) : Op → DataPart → DataPart
  | .assign s, part => H2DataPart.assign s part
  | .assignFromHex hex, part => (H2DataPart.assignFromHex hex part).1
  | .decode headers, part => (H2Multipart.decode lib consumer headers part).1

/-- A data part after a history. -/
def after (lib : Lib) (consumer : Consumer) (ops : List Op) (part : DataPart) : DataPart :=
  ops.foldl (fun part op => op.apply lib consumer part) part

/-- An operation that brings a content, and does not fail. -/
def Op.Brings : Op → DataPart → String → Prop
  | .assign t, _, s => t = s
  | .assignFromHex hex, part, s => fromHexString hex part.str = (true, s)
  | .decode _, _, _ => False

/-- The flag that an operation leaves. -/
def Op.flag : Op → DataPart → Bool
  | .assignFromHex _, part => part.isJson
  | _, _ => false

/-! ## The encoding of a content -/

theorem hexDigit_mem_digits {n : Nat} (h : n < 16) : hexDigit n ∈ H2Hex.digits := by
  revert n
  decide +kernel

theorem appended_hexDigits {n : Nat} (h : n < 256) :
    H2Hex.appended (hexDigit (n / 16 % 16), hexDigit (n % 16)) = Char.ofNat n := by
  revert n
  decide +kernel

/-- The digits of the bytes of a text. -/
def hexDigits (cs : List Char) : List Char :=
  cs.flatMap fun c => [hexDigit (c.toNat / 16 % 16), hexDigit (c.toNat % 16)]

theorem length_hexDigits (cs : List Char) : (hexDigits cs).length = 2 * cs.length := by
  simp [hexDigits, List.length_flatMap, Nat.mul_comm]

theorem spells_hexDigits (cs : List Char) :
    H2Hex.Spells ('0' :: 'x' :: hexDigits cs) (hexDigits cs) := by
  refine ⟨Or.inr rfl, ?_, fun c hc => ?_⟩
  · rw [length_hexDigits]
    omega
  · obtain ⟨b, -, hc⟩ := List.mem_flatMap.mp hc
    simp only [List.mem_cons, List.not_mem_nil, or_false] at hc
    rcases hc with rfl | rfl
    · exact hexDigit_mem_digits (Nat.mod_lt _ (by decide))
    · exact hexDigit_mem_digits (Nat.mod_lt _ (by decide))

theorem appended_pairs_hexDigits {cs : List Char} (h : ∀ c ∈ cs, c.toNat < 256) :
    (H2Hex.pairsOf (hexDigits cs)).map H2Hex.appended = cs := by
  induction cs with
  | nil => rfl
  | cons c cs ih =>
      have hc := appended_hexDigits (h c List.mem_cons_self)
      rw [Char.ofNat_toNat] at hc
      show H2Hex.appended (_, _) :: (H2Hex.pairsOf (hexDigits cs)).map H2Hex.appended = c :: cs
      rw [hc, ih fun d hd => h d (List.mem_cons_of_mem c hd)]

theorem asHexString_spells (s : String) :
    H2Hex.Spells (asHexString s).2.toList (hexDigits s.toList) := by
  rw [asHexString, String.toList_ofList]
  exact spells_hexDigits s.toList

theorem length_asHexString (s : String) : (asHexString s).2.length = 2 * s.length + 2 := by
  have h := length_hexDigits s.toList
  rw [String.length_toList] at h
  rw [asHexString, String.length_ofList, List.length_cons, List.length_cons]
  exact congrArg (· + 2) h

/-- The encoding of fewer than `2^30 - 1` bytes brings them. -/
theorem encoding_brings {s : String} (h : ∀ c ∈ s.toList, c.toNat < 256)
    (hshort : s.length < 1073741823) (part : DataPart) :
    (Op.assignFromHex (asHexString s).2).Brings part s := by
  have hlength := length_asHexString s
  rw [Op.Brings, H2Hex.fromHexString_of_spells part.str (asHexString_spells s) (by omega),
    appended_pairs_hexDigits h, String.ofList_toList]

/-! ## What is decoded as in a new data part -/

/-- What a data part may keep, of its flag and of its JSON, for a content to be decoded. -/
def NothingKept (lib : Lib) (consumer : Consumer) (headers : HeaderMap) (s : String) (flag : Bool)
    (json : Json) : Prop :=
  let contentType := (headers.find "content-type").getD ""
  if s = "" then json = .null
  else if contentType = "application/json" then True
  else if isMultipart contentType then
    if (boundary contentType).isEmpty then flag = false ∧ json = .null
    else Json.Covered (effects lib consumer s contentType).writes json
  else flag = false

/-- The next decoding is that of a new data part. -/
def Forgets (lib : Lib) (consumer : Consumer) (headers : HeaderMap) (part : DataPart) (s : String) :
    Prop :=
  (decode lib consumer headers part).1.isJson = (decode lib consumer headers { str := s }).1.isJson ∧
    (decode lib consumer headers part).1.json = (decode lib consumer headers { str := s }).1.json

section History

variable (lib : Lib) (consumer : Consumer)

theorem effects_value_or_writes (content contentType : String) :
    (effects lib consumer content contentType).value = none ∨
      (effects lib consumer content contentType).writes = [] := by
  cases hmultipart : isMultipart contentType with
  | false =>
      rw [effects_plain lib consumer hmultipart]
      exact Or.inr rfl
  | true =>
      cases hboundary : (boundary contentType).isEmpty with
      | true =>
          rw [effects_without_boundary lib consumer hmultipart hboundary]
          exact Or.inl rfl
      | false =>
          rw [effects_parts lib consumer hmultipart hboundary]
          exact Or.inl rfl

theorem decode_empty (headers : HeaderMap) {part : DataPart} (hdecoded : part.decoded = false)
    (hs : part.str = "") :
    decode lib consumer headers part = ({ part with decoded := true, isJson := false }, true) := by
  rw [decode, hdecoded, if_neg Bool.false_ne_true, hs, if_pos (by rfl)]

/-- What a decoding leaves, whether it throws or not. -/
theorem decode_content (headers : HeaderMap) {part : DataPart} (hdecoded : part.decoded = false)
    (hs : part.str ≠ "") :
    (decode lib consumer headers part).1.isJson
        = (part.isJson || (effects lib consumer part.str ((headers.find "content-type").getD "")).isJson) ∧
      (decode lib consumer headers part).1.json
        = (effects lib consumer part.str ((headers.find "content-type").getD "")).value.getD
            (Json.assignThrough
              (effects lib consumer part.str ((headers.find "content-type").getD "")).writes part.json).1 := by
  have hempty : ¬ part.str.isEmpty = true := fun h => hs (String.isEmpty_iff.mp h)
  rw [decode, hdecoded, if_neg Bool.false_ne_true, if_neg hempty, decodeContent_eq]
  have hcases := effects_value_or_writes lib consumer part.str ((headers.find "content-type").getD "")
  generalize effects lib consumer part.str ((headers.find "content-type").getD "") = e at hcases ⊢
  by_cases hok : (e.apply part).ok = true
  · simp only [hok, if_true]
    exact ⟨rfl, rfl⟩
  · rcases hcases with hvalue | hwrites
    · simp only [hok, hvalue]
      exact ⟨rfl, rfl⟩
    · rw [Effects.apply, hwrites] at hok
      exact absurd rfl hok

/-- A content is decoded as in a new data part exactly when nothing was kept. -/
theorem forgets_iff (headers : HeaderMap) {part : DataPart} (hordered : Json.Ordered part.json)
    (hdecoded : part.decoded = false) :
    Forgets lib consumer headers part part.str ↔
      NothingKept lib consumer headers part.str part.isJson part.json := by
  rw [Forgets, NothingKept]
  by_cases hs : part.str = ""
  · rw [if_pos hs, decode_empty lib consumer headers hdecoded hs,
      @decode_empty lib consumer headers { str := part.str } rfl hs]
    exact and_iff_right rfl
  · obtain ⟨hflag, hjson⟩ := decode_content lib consumer headers hdecoded hs
    obtain ⟨hfreshFlag, hfreshJson⟩ :=
      @decode_content lib consumer headers { str := part.str } rfl hs
    rw [if_neg hs, hflag, hjson, hfreshFlag, hfreshJson]
    generalize (headers.find "content-type").getD "" = contentType
    cases hmultipart : isMultipart contentType with
    | false =>
        rw [effects_plain lib consumer hmultipart, if_neg Bool.false_ne_true]
        by_cases htype : contentType = "application/json"
        · rw [if_pos htype, htype, beq_self_eq_true, Bool.or_true, Bool.or_true]
          exact iff_of_true ⟨rfl, rfl⟩ trivial
        · have hbeq : (contentType == "application/json") = false := by simpa using htype
          rw [if_neg htype, hbeq, Bool.or_false, Bool.or_false]
          exact and_iff_left rfl
    | true =>
        have htype : contentType ≠ "application/json" := by
          rintro rfl
          cases hmultipart
        rw [if_neg htype, if_pos rfl]
        cases hboundary : (boundary contentType).isEmpty with
        | true =>
            rw [effects_without_boundary lib consumer hmultipart hboundary, if_pos rfl, Bool.or_false,
              Bool.or_false]
            exact Iff.rfl
        | false =>
            have hshaped := effects_shaped lib consumer part.str contentType
            rw [effects_parts lib consumer hmultipart hboundary] at hshaped ⊢
            rw [if_neg Bool.false_ne_true, Bool.or_true, Bool.or_true, and_iff_right rfl]
            exact Json.assignThrough_fst_eq_iff (prefixFree_of_shaped hshaped) hordered

/-! ## Histories -/

theorem ordered_null : Json.Ordered .null := fun _ hin => by cases hin

theorem ordered_str (s : String) : Json.Ordered (.str s) := fun _ hin => by cases hin

theorem plainValue_ordered {lib : Lib} (hlib : ∀ text j, lib.parse text = some j → Json.Ordered j)
    (content contentType : String) : Json.Ordered (plainValue lib content contentType) := by
  rw [plainValue]
  split
  · cases hparse : lib.parse content with
    | none => exact ordered_str _
    | some j => exact hlib content j hparse
  · split <;> exact ordered_str _

theorem effects_value_ordered (hlib : ∀ text j, lib.parse text = some j → Json.Ordered j)
    (content contentType : String) {v : Json}
    (h : (effects lib consumer content contentType).value = some v) : Json.Ordered v := by
  cases hmultipart : isMultipart contentType with
  | false =>
      rw [effects_plain lib consumer hmultipart] at h
      exact Option.some.inj h ▸ plainValue_ordered hlib content contentType
  | true =>
      cases hboundary : (boundary contentType).isEmpty with
      | true =>
          rw [effects_without_boundary lib consumer hmultipart hboundary] at h
          cases h
      | false =>
          rw [effects_parts lib consumer hmultipart hboundary] at h
          cases h

theorem effects_writes_ordered (hlib : ∀ text j, lib.parse text = some j → Json.Ordered j)
    (content contentType : String) :
    ∀ w ∈ (effects lib consumer content contentType).writes, Json.Ordered w.2 := by
  refine effects_forall lib consumer (fun _ _ value => ordered_str value) (fun content contentType _ => ?_)
    content contentType
  cases hvalue : (effects lib consumer content contentType).value with
  | none => exact ordered_null
  | some v => exact effects_value_ordered lib consumer hlib content contentType hvalue

theorem decode_ordered (hlib : ∀ text j, lib.parse text = some j → Json.Ordered j)
    (headers : HeaderMap) {part : DataPart} (h : Json.Ordered part.json) :
    Json.Ordered (decode lib consumer headers part).1.json := by
  by_cases hdecoded : part.decoded = true
  · rw [decode, if_pos hdecoded]
    exact h
  · rw [Bool.not_eq_true] at hdecoded
    by_cases hs : part.str = ""
    · rw [decode_empty lib consumer headers hdecoded hs]
      exact h
    · rw [(decode_content lib consumer headers hdecoded hs).2]
      cases hvalue : (effects lib consumer part.str ((headers.find "content-type").getD "")).value with
      | none => exact h.assignThrough (effects_writes_ordered lib consumer hlib _ _)
      | some v => exact effects_value_ordered lib consumer hlib _ _ hvalue

theorem Op.apply_ordered (hlib : ∀ text j, lib.parse text = some j → Json.Ordered j) (op : Op)
    {part : DataPart} (h : Json.Ordered part.json) : Json.Ordered (op.apply lib consumer part).json := by
  cases op with
  | assign s => exact h
  | assignFromHex hex => exact h
  | decode headers => exact decode_ordered lib consumer hlib headers h

/-- In every history the objects are maps in order. -/
theorem after_ordered (hlib : ∀ text j, lib.parse text = some j → Json.Ordered j) (ops : List Op)
    {part : DataPart} (h : Json.Ordered part.json) : Json.Ordered (after lib consumer ops part).json := by
  induction ops generalizing part with
  | nil => exact h
  | cons op ops ih => exact ih (op.apply_ordered lib consumer hlib h)

/-- What an operation that brings a content leaves. -/
theorem Op.Brings.apply {op : Op} {part : DataPart} {s : String} (h : op.Brings part s) :
    op.apply lib consumer part = ⟨s, false, op.flag part, part.json⟩ := by
  cases op with
  | assign t =>
      obtain rfl : t = s := h
      rfl
  | assignFromHex hex =>
      have hhex : fromHexString hex part.str = (true, s) := h
      rw [Op.apply, H2DataPart.assignFromHex, hhex]
      rfl
  | decode headers => exact h.elim

/-- After every history, a content that is brought is decoded as in a new data part exactly
    when nothing that the decoding does not write over was kept. -/
theorem decode_forgets_iff (hlib : ∀ text j, lib.parse text = some j → Json.Ordered j)
    (start : String) (ops : List Op) (op : Op) (s : String) (headers : HeaderMap)
    (hbrings : op.Brings (after lib consumer ops { str := start }) s) :
    Forgets lib consumer headers (op.apply lib consumer (after lib consumer ops { str := start })) s ↔
      NothingKept lib consumer headers s (op.flag (after lib consumer ops { str := start }))
        (after lib consumer ops { str := start }).json := by
  have hordered := @after_ordered lib consumer hlib ops { str := start } ordered_null
  rw [hbrings.apply lib consumer]
  exact @forgets_iff lib consumer headers ⟨s, false, _, _⟩ hordered rfl

end History

/-- No content is made of parts. -/
def noParts : Consumer := ⟨fun _ _ => [], fun _ _ _ h => absurd h List.not_mem_nil⟩

def textHeaders : HeaderMap := [("content-type", "text/plain")]

def jsonHeaders : HeaderMap := [("content-type", "application/json")]

/-- A parser that knows one document. -/
def oneLib : Lib := { idleLib with parse := fun text => if text = "1" then some (.uint 1) else none }

theorem oneLib_ordered (text : String) (j : Json) (h : oneLib.parse text = some j) : Json.Ordered j := by
  have hparse : (if text = "1" then some (Json.uint 1) else none) = some j := h
  split at hparse
  · cases hparse
    exact fun _ hin => by cases hin
  · cases hparse

/-- A text after a document. -/
theorem text_after_json_forgotten :
    Forgets oneLib noParts textHeaders
      ((Op.assign "a").apply oneLib noParts (after oneLib noParts [.decode jsonHeaders] { str := "1" })) "a" :=
  (decode_forgets_iff oneLib noParts oneLib_ordered "1" [.decode jsonHeaders] (.assign "a") "a" textHeaders
    rfl).mpr rfl

/-- Nothing after a document shows the document, and a text in hexadecimal after it is taken
    for a document. -/
theorem json_remembered :
    (¬ Forgets oneLib noParts textHeaders
      ((Op.assign "").apply oneLib noParts (after oneLib noParts [.decode jsonHeaders] { str := "1" })) "") ∧
    ¬ Forgets oneLib noParts textHeaders
      ((Op.assignFromHex "0x61").apply oneLib noParts
        (after oneLib noParts [.decode jsonHeaders] { str := "1" })) "a" := by
  have hafter : after oneLib noParts [.decode jsonHeaders] { str := "1" } = ⟨"1", true, true, .uint 1⟩ := by
    rw [after, List.foldl_cons, List.foldl_nil, Op.apply, decode, decodeContent_eq,
      effects_plain oneLib noParts (by rfl)]
    rfl
  rw [hafter]
  constructor
  · rintro ⟨-, hjson⟩
    cases hjson
  · rintro ⟨hflag, -⟩
    have hold := (@decode_content oneLib noParts textHeaders ⟨"a", false, true, .uint 1⟩ rfl (by decide)).1
    have hnew := (@decode_content oneLib noParts textHeaders { str := "a" } rfl (by decide)).1
    rw [effects_plain oneLib noParts (by rfl)] at hnew
    cases hold.symm.trans (hflag.trans hnew)

end H2DataPart
