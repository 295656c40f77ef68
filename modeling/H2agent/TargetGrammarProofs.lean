import H2agent.TransformationGrammarProofs

/-! # Targets — the patterns of the schemas and the cascade of `load`

    The twin of the grammar of sources.  `TargetForm` sums up what the target
    patterns let in; `loadTarget_iff` says which of it the cascade takes.

    What is let in and not taken: line terminators after a prefix whose pattern is
    open, vault texts that are no entry with an optional path, and client
    provisions without an identifier and a state. -/

namespace H2Grammar

open H2Convert H2Key H2Load H2Transformation JsonValue Regex

/-! ## What the patterns let in -/

/-- The kinds of values put in JSON documents. -/
def jsonKinds : List String :=
  ["object", "jsonstring", "string", "integer", "unsigned", "float", "boolean"]

/-- Targets in the JSON bodies of responses and requests. -/
def jsonBodies : List String :=
  ["response.body.json.string", "response.body.json.integer", "response.body.json.unsigned",
   "response.body.json.float", "response.body.json.boolean", "response.body.json.object",
   "response.body.json.jsonstring", "request.body.json.string", "request.body.json.integer",
   "request.body.json.unsigned", "request.body.json.float", "request.body.json.boolean",
   "request.body.json.object", "request.body.json.jsonstring"]

/-- Other targets that are a text of their own. -/
def plainTargets : List String :=
  ["response.body.string", "response.body.hexstring", "request.body.string",
   "request.body.hexstring", "response.statusCode", "response.delayMs", "request.delayMs",
   "request.timeoutMs", "request.uri", "request.method", "outState", "break"]

/-- Targets whose pattern goes to the end of the text. -/
def closedTargets : List String := ["response.header.", "request.header."]

/-- Targets, but for nodes of JSON bodies, whose pattern says nothing of the rest of
    the text. -/
def openTargets : List String :=
  ["var.", "serverEvent.", "clientEvent.", "txtFile.", "binFile.", "udpSocket."]

/-- The methods of `outState`. -/
def methods : List String := ["POST", "GET", "PUT", "DELETE", "HEAD"]

/-- What the target patterns let in. -/
inductive TargetForm : List Char → Prop
  | plain (t : String) (ht : t ∈ plainTargets) : TargetForm t.toList
  | json (t : String) (ht : t ∈ jsonBodies) : TargetForm t.toList
  | node (t : String) (ht : t ∈ jsonBodies) (rest : List Char) :
      TargetForm ((t ++ ".").toList ++ rest)
  | closed (start : String) (hs : start ∈ closedTargets) (rest : List Char) (hr : Line rest) :
      TargetForm (start.toList ++ rest)
  | opened (start : String) (hs : start ∈ openTargets) (rest : List Char) :
      TargetForm (start.toList ++ rest)
  | outState (method : String) (hm : method ∈ methods) (rest : List Char)
      (hr : rest = [] ∨ ∃ line, line ≠ [] ∧ Line line ∧ rest = '.' :: line) :
      TargetForm ("outState.".toList ++ (method.toList ++ rest))
  | vault (rest : List Char) : TargetForm ("vault.".toList ++ rest)
  | clientProvision (rest : List Char) : TargetForm ("clientProvision.".toList ++ rest)

section Targets

variable {r : Re} {cs : List Char}

theorem plainTarget_form {t : String} (ht : t ∈ plainTargets)
    (h : (whole (Re.lit t.toList)).found cs = true) : TargetForm cs := by
  obtain ⟨_, h⟩ := found_whole.mp h
  obtain ⟨_, rfl⟩ := (Re.takes_lit _).mp h
  rw [List.append_nil]
  exact .plain t ht

theorem openedTarget_form {start : String} (hs : start ∈ openTargets)
    (h : (thenSome start).found cs = true) : TargetForm cs := by
  obtain ⟨tail, rfl⟩ := found_thenSome h
  exact .opened start hs tail

/-- A kind alone, or a kind with a path. -/
theorem takes_kindPart {kind : String} {g : List (List Char)} {rest : List Char}
    (h : Re.Takes (kindPart kind) cs g rest) :
    cs = kind.toList ∨ ∃ tail, cs = (kind ++ ".").toList ++ tail := by
  rcases Re.takes_alt.mp h with ⟨_, h1, _⟩ | ⟨_, h1, _⟩
  · obtain ⟨_, h2⟩ := Re.takes_seq_atEnd.mp h1
    obtain ⟨_, rfl⟩ := (Re.takes_lit _).mp h2
    exact .inl (List.append_nil _)
  · obtain ⟨_, rfl, h3⟩ := Re.takes_lit_seq.mp h1
    obtain ⟨tail, rfl⟩ := takes_thenSome h3
    exact .inr ⟨tail, by rw [String.toList_append, List.append_assoc]⟩

theorem json_form {message : String}
    (hm : ∀ kind ∈ jsonKinds, message ++ ".body.json." ++ kind ∈ jsonBodies)
    (h : (jsonTarget message).found cs = true) : TargetForm cs := by
  obtain ⟨_, _, h⟩ := Re.found_iff.mp h
  obtain ⟨_, rfl, h2⟩ := Re.takes_lit_seq.mp h
  obtain ⟨mid, rfl, h4⟩ := Re.takes_lit_seq.mp h2
  have hkind : ∃ kind ∈ jsonKinds,
      mid = kind.toList ∨ ∃ tail, mid = (kind ++ ".").toList ++ tail := by
    rcases Re.takes_alt.mp h4 with ⟨_, h, _⟩ | ⟨_, h, _⟩
    · exact ⟨"object", by decide, takes_kindPart h⟩
    rcases Re.takes_alt.mp h with ⟨_, h, _⟩ | ⟨_, h, _⟩
    · exact ⟨"jsonstring", by decide, takes_kindPart h⟩
    rcases Re.takes_alt.mp h with ⟨_, h, _⟩ | ⟨_, h, _⟩
    · exact ⟨"string", by decide, takes_kindPart h⟩
    rcases Re.takes_alt.mp h with ⟨_, h, _⟩ | ⟨_, h, _⟩
    · exact ⟨"integer", by decide, takes_kindPart h⟩
    rcases Re.takes_alt.mp h with ⟨_, h, _⟩ | ⟨_, h, _⟩
    · exact ⟨"unsigned", by decide, takes_kindPart h⟩
    rcases Re.takes_alt.mp h with ⟨_, h, _⟩ | ⟨_, h, _⟩
    · exact ⟨"float", by decide, takes_kindPart h⟩
    · exact ⟨"boolean", by decide, takes_kindPart h⟩
  obtain ⟨kind, hk, rfl | ⟨tail, rfl⟩⟩ := hkind
  · have hform := TargetForm.json _ (hm kind hk)
    rwa [String.toList_append, String.toList_append, List.append_assoc] at hform
  · have hform := TargetForm.node _ (hm kind hk) tail
    simp only [String.toList_append, List.append_assoc] at hform ⊢
    exact hform

/-- The texts after `response.body.` or `request.body.`. -/
theorem text_form {message : String}
    (hs : message ++ ".body." ++ "string" ∈ plainTargets)
    (hx : message ++ ".body." ++ "hexstring" ∈ plainTargets)
    (h : (textTarget message).found cs = true) : TargetForm cs := by
  obtain ⟨_, _, h⟩ := Re.found_iff.mp h
  obtain ⟨_, rfl, h2⟩ := Re.takes_lit_seq.mp h
  obtain ⟨_, rfl, h4⟩ := Re.takes_lit_seq.mp h2
  rcases Re.takes_alt.mp h4 with ⟨_, h5, _⟩ | ⟨_, h5, _⟩
  · obtain ⟨_, h6⟩ := Re.takes_seq_atEnd.mp h5
    obtain ⟨_, rfl⟩ := (Re.takes_lit _).mp h6
    have hform := TargetForm.plain _ hs
    rw [String.toList_append, String.toList_append, List.append_assoc] at hform
    rw [List.append_nil]
    exact hform
  · obtain ⟨_, h6⟩ := Re.takes_seq_atEnd.mp h5
    obtain ⟨_, rfl⟩ := (Re.takes_lit _).mp h6
    have hform := TargetForm.plain _ hx
    rw [String.toList_append, String.toList_append, List.append_assoc] at hform
    rw [List.append_nil]
    exact hform

/-- A header, or one of some words, to the end of the text. -/
theorem message_form {message : String} {ts : List String} (hne : ts ≠ [])
    (hheader : message ++ "header." ∈ closedTargets) (hts : ∀ t ∈ ts, message ++ t ∈ plainTargets)
    (h : (whole (.seq (Re.lit message.toList) (.alt (thenSome "header.") (texts ts)))).found cs
      = true) : TargetForm cs := by
  obtain ⟨_, h⟩ := found_whole.mp h
  obtain ⟨_, rfl, h2⟩ := Re.takes_lit_seq.mp h
  rcases Re.takes_alt.mp h2 with ⟨_, h3, _⟩ | ⟨_, h3, _⟩
  · obtain ⟨line, rfl, hline⟩ := takes_thenSome_end h3
    have hform := TargetForm.closed _ hheader line hline
    rwa [String.toList_append, List.append_assoc] at hform
  · obtain ⟨t, ht, rfl⟩ := takes_texts hne h3
    have hform := TargetForm.plain _ (hts t ht)
    rw [String.toList_append] at hform
    rwa [List.append_nil]

theorem outState_form (h : outStateText.found cs = true) : TargetForm cs := by
  obtain ⟨_, h⟩ := found_whole.mp h
  obtain ⟨_, rfl, h2⟩ := Re.takes_lit_seq.mp h
  rcases takes_opt h2 with ⟨_, h3⟩ | rfl
  · obtain ⟨_, rfl, h5⟩ := Re.takes_lit_seq.mp h3
    obtain ⟨_, _, _, h6, h7, _⟩ := Re.takes_seq.mp h5
    obtain ⟨method, hm, rfl⟩ := takes_texts (List.cons_ne_nil _ _) h6
    have hdot : "outState" ++ "." = "outState." := by decide
    rw [← List.append_assoc, ← String.toList_append, hdot]
    refine .outState method hm _ ?_
    rcases takes_opt h7 with ⟨_, h8⟩ | rfl
    · obtain ⟨_, rfl, h9⟩ := Re.takes_lit_seq.mp h8
      obtain ⟨_, line, hne, rfl, hline⟩ := Re.takes_some.mp h9
      exact .inr ⟨line, hne, hline, by rw [List.append_nil]; rfl⟩
    · exact .inl rfl
  · rw [List.append_nil]
    exact .plain "outState" (by decide)

theorem sharedTarget_form (hr : r ∈ sharedTargets) (h : r.found cs = true) : TargetForm cs := by
  simp only [sharedTargets, List.mem_cons, List.not_mem_nil, or_false] at hr
  rcases hr with rfl | rfl | rfl
  · exact openedTarget_form (by decide) h
  · exact openedTarget_form (by decide) h
  · exact openedTarget_form (by decide) h

/-- A variable, an entry of the vault or an event. -/
theorem named_form {event : String} (hevent : event ++ "." ∈ openTargets)
    (h : Re.found (.seq (texts ["var", "vault", event]) (thenSome ".")) cs = true) :
    TargetForm cs := by
  obtain ⟨t, ht, tail, rfl⟩ := found_texts_dot (List.cons_ne_nil _ _) h
  simp only [List.mem_cons, List.not_mem_nil, or_false] at ht
  rcases ht with rfl | rfl | rfl
  · exact .opened "var." (by decide) tail
  · exact .vault tail
  · exact .opened _ hevent tail

/-- **TARGETS LET IN**: what the target pattern of a list accepts has one of the
    forms. -/
theorem targetForm_of_accepts (l : ItemList) {text : String}
    (h : accepts l.targets text = true) : TargetForm text.toList := by
  obtain ⟨r, hr, hf⟩ := List.any_eq_true.mp h
  cases l with
  | serverTransform =>
      rcases List.mem_append.mp hr with hr | hr
      · simp only [List.mem_cons, List.not_mem_nil, or_false] at hr
        rcases hr with rfl | rfl | rfl | rfl | rfl | rfl | rfl
        · exact text_form (by decide) (by decide) hf
        · exact json_form (by decide) hf
        · exact message_form (List.cons_ne_nil _ _) (by decide) (by decide) hf
        · exact named_form (by decide) hf
        · exact outState_form hf
        · obtain ⟨tail, heq⟩ := found_thenSome hf
          rw [heq]
          exact .clientProvision tail
        · exact plainTarget_form (by decide) hf
      · exact sharedTarget_form hr hf
  | clientTransform =>
      rcases List.mem_append.mp hr with hr | hr
      · simp only [List.mem_cons, List.not_mem_nil, or_false] at hr
        rcases hr with rfl | rfl | rfl | rfl | rfl
        · exact text_form (by decide) (by decide) hf
        · exact json_form (by decide) hf
        · exact message_form (List.cons_ne_nil _ _) (by decide) (by decide) hf
        · exact named_form (by decide) hf
        · exact plainTarget_form (by decide) hf
      · exact sharedTarget_form hr hf
  | clientOnResponseTransform =>
      rcases List.mem_append.mp hr with hr | hr
      · simp only [List.mem_cons, List.not_mem_nil, or_false] at hr
        rcases hr with rfl | rfl | rfl
        · exact named_form (by decide) hf
        · exact plainTarget_form (by decide) hf
        · exact plainTarget_form (by decide) hf
      · exact sharedTarget_form hr hf

end Targets

/-! ## What the cascade takes -/

/-- The beginnings of targets with expressions of their own. -/
def specialTargets : List (List Char) :=
  [['v', 'a', 'u', 'l', 't', '.'],
   ['c', 'l', 'i', 'e', 'n', 't', 'P', 'r', 'o', 'v', 'i', 's', 'i', 'o', 'n', '.']]

/-- What may stand between an entry of the vault and a path. -/
def vaultMiddles : List String := [".json.object", ".json.jsonstring", ""]

theorem bodyTarget_ordinary {l : List Char} {rule : Rule Fault TargetPart}
    {starts : List (List Char)} {targetType : TargetType}
    (h : rule ∈ bodyTarget (String.ofList l) targetType) (hline : Line (l ++ ['.']))
    (htext : starts.all (Re.clash l) = true)
    (hnode : starts.all (Re.dottedClash (l ++ ['.'])) = true) : Ordinary starts rule := by
  simp only [bodyTarget, List.mem_cons, List.not_mem_nil, or_false] at h
  rcases h with rfl | rfl
  · exact isText_ordinary (fun c hc => hline c (List.mem_append_left _ hc)) htext _
  · refine freeText_ordinary (l := l ++ ['.']) ?_ (fun g => ⟨_, rfl⟩) hline hnode
    rw [String.ofList_append]
    rfl

theorem outStateMethodUri_ordinary : Ordinary specialTargets outStateMethodUri := by
  refine ⟨?_, ?_, fun g => ⟨_, rfl⟩⟩
  · intro cs g h
    obtain ⟨_, _, _, h1, h2, _⟩ := Re.takes_seq.mp h
    obtain ⟨_, _, _, h3, h4, _⟩ := Re.takes_seq.mp h2
    obtain ⟨_, _, h5, _, _⟩ := Re.takes_group.mp h3
    have hmethods : ∀ m ∈ methods, Line m.toList := by decide
    have hne : methods ≠ [] := List.cons_ne_nil _ _
    obtain ⟨method, hm, rfl⟩ := takes_texts hne h5
    obtain ⟨pre, rfl, hpre⟩ := line_dotted (by decide) h1
    refine line_append hpre (line_append (hmethods method hm) ?_)
    rcases takes_opt h4 with ⟨_, h6⟩ | rfl
    · obtain ⟨_, _, h7, _, _⟩ := Re.takes_group.mp h6
      obtain ⟨_, _, _, h8, h9, _⟩ := Re.takes_seq.mp h7
      obtain ⟨_, line, _, rfl, hline⟩ := Re.takes_some.mp h9
      obtain ⟨_, rfl⟩ := (Re.takes_lit _).mp h8
      rw [List.append_nil]
      exact line_append (by decide) hline
    · decide
  · intro start hs cs g h
    obtain ⟨_, _, _, h1, _, _⟩ := Re.takes_seq.mp h
    have hclash : ∀ s ∈ specialTargets, Re.dottedClash "outState.".toList s = true := by decide
    exact Re.not_takes_dotted (hclash start hs) h1

/-- **RULES OF TARGETS**: all are ordinary but those of the vault and of client
    provisions, the only one that can fail. -/
theorem target_rule {lib : Lib} {rule : Rule Fault TargetPart} (h : rule ∈ targetRules lib) :
    Ordinary specialTargets rule
      ∨ (∃ middle ∈ vaultMiddles, ∃ targetType, rule = vaultTarget middle targetType)
      ∨ rule = clientProvision := by
  -- the lists of the cascade in their order, a JSON body at a time
  delta targetRules at h
  simp only [List.mem_append, or_assoc] at h
  rcases h with h | h | h | h | h | h | h | h | h | h | h | h | h | h | h | h | h
  · simp only [List.mem_cons, List.not_mem_nil, or_false] at h
    rcases h with rfl | rfl
    · exact .inl (isText_ordinary (by decide) (by decide) _)
    · exact .inl (isText_ordinary (by decide) (by decide) _)
  · exact .inl (bodyTarget_ordinary h (by decide) (by decide) (by decide))
  · exact .inl (bodyTarget_ordinary h (by decide) (by decide) (by decide))
  · exact .inl (bodyTarget_ordinary h (by decide) (by decide) (by decide))
  · exact .inl (bodyTarget_ordinary h (by decide) (by decide) (by decide))
  · exact .inl (bodyTarget_ordinary h (by decide) (by decide) (by decide))
  · exact .inl (bodyTarget_ordinary h (by decide) (by decide) (by decide))
  · exact .inl (bodyTarget_ordinary h (by decide) (by decide) (by decide))
  · simp only [List.mem_cons, List.not_mem_nil, or_false] at h
    rcases h with rfl | rfl
    · exact .inl (isText_ordinary (by decide) (by decide) _)
    · exact .inl (isText_ordinary (by decide) (by decide) _)
  · exact .inl (bodyTarget_ordinary h (by decide) (by decide) (by decide))
  · exact .inl (bodyTarget_ordinary h (by decide) (by decide) (by decide))
  · exact .inl (bodyTarget_ordinary h (by decide) (by decide) (by decide))
  · exact .inl (bodyTarget_ordinary h (by decide) (by decide) (by decide))
  · exact .inl (bodyTarget_ordinary h (by decide) (by decide) (by decide))
  · exact .inl (bodyTarget_ordinary h (by decide) (by decide) (by decide))
  · exact .inl (bodyTarget_ordinary h (by decide) (by decide) (by decide))
  · simp only [List.mem_cons, List.not_mem_nil, or_false] at h
    rcases h with rfl | rfl | rfl | rfl | rfl | rfl | rfl | rfl | rfl | rfl | rfl | rfl | rfl | rfl
      | rfl | rfl | rfl | rfl | rfl | rfl | rfl
    · exact .inl (freeText_ordinary rfl (fun g => ⟨_, rfl⟩) (by decide) (by decide))
    · exact .inl (isText_ordinary (by decide) (by decide) _)
    · exact .inl (isText_ordinary (by decide) (by decide) _)
    · exact .inl (isText_ordinary (by decide) (by decide) _)
    · exact .inl (isText_ordinary (by decide) (by decide) _)
    · exact .inl (freeText_ordinary rfl (fun g => ⟨_, rfl⟩) (by decide) (by decide))
    · exact .inl (isText_ordinary (by decide) (by decide) _)
    · exact .inl (isText_ordinary (by decide) (by decide) _)
    · exact .inl (freeText_ordinary rfl (fun g => ⟨_, rfl⟩) (by decide) (by decide))
    · exact .inr (.inl ⟨_, by decide, _, rfl⟩)
    · exact .inr (.inl ⟨_, by decide, _, rfl⟩)
    · exact .inr (.inl ⟨_, by decide, _, rfl⟩)
    · exact .inl (isText_ordinary (by decide) (by decide) _)
    · exact .inl outStateMethodUri_ordinary
    · exact .inl (freeText_ordinary rfl (fun g => ⟨_, rfl⟩) (by decide) (by decide))
    · exact .inl (freeText_ordinary rfl (fun g => ⟨_, rfl⟩) (by decide) (by decide))
    · exact .inl (freeText_ordinary rfl (fun g => ⟨_, rfl⟩) (by decide) (by decide))
    · exact .inl (freeText_ordinary rfl (fun g => ⟨_, rfl⟩) (by decide) (by decide))
    · exact .inl (freeText_ordinary rfl (fun g => ⟨_, rfl⟩) (by decide) (by decide))
    · exact .inl (isText_ordinary (by decide) (by decide) _)
    · exact .inr (.inr rfl)

/-- The identifier of a client provision and the state it is entered in. -/
def ProvisionForm (rest : List Char) : Prop :=
  ∃ id state, id ≠ [] ∧ '.' ∉ id ∧ state ≠ [] ∧ Line state ∧ rest = id ++ '.' :: state

/-- The identifier and the state that is captured; a missing one is empty. -/
theorem takes_clientProvision {cs : List Char} {g : List (List Char)}
    (h : Re.Takes clientProvision.pattern cs g []) :
    ∃ id state, g = [id, state] ∧ id ≠ [] ∧ '.' ∉ id ∧ Line state
      ∧ (cs = "clientProvision.".toList ++ (id ++ '.' :: state)
        ∨ cs = "clientProvision.".toList ++ id ∧ state = []) := by
  obtain ⟨_, rfl, h2⟩ := Re.takes_lit_seq.mp h
  obtain ⟨_, _, _, h3, h4, rfl⟩ := Re.takes_seq.mp h2
  obtain ⟨id, _, h5, rfl, rfl⟩ := Re.takes_group.mp h3
  obtain ⟨rfl, id', hne, heq, hid⟩ := Re.takes_some.mp h5
  obtain rfl := List.append_cancel_right heq
  obtain ⟨_, h6⟩ := Re.takes_seq_atEnd.mp h4
  rcases Re.takes_alt.mp h6 with ⟨_, h8, rfl⟩ | ⟨_, h8, rfl⟩
  · obtain ⟨_, rfl, h10⟩ := Re.takes_lit_seq.mp h8
    obtain ⟨state, _, h11, hstate, rfl⟩ := Re.takes_group.mp h10
    obtain ⟨rfl, state', _, heq', hline⟩ := Re.takes_some.mp h11
    rw [List.append_nil] at hstate heq'
    obtain rfl := hstate.symm.trans heq'
    refine ⟨id, state, rfl, hne, notDot_iff.mp hid, hline, .inl ?_⟩
    rw [hstate]
    rfl
  · obtain ⟨rfl, rfl⟩ := Re.takes_eps.mp h8
    refine ⟨id, [], rfl, hne, notDot_iff.mp hid, by decide, .inr ⟨?_, rfl⟩⟩
    rw [List.append_nil]

theorem clientProvision_takes {id state : List Char} (hid : id ≠ []) (hdot : '.' ∉ id)
    (hne : state ≠ []) (hline : Line state) :
    Re.Takes clientProvision.pattern ("clientProvision.".toList ++ (id ++ '.' :: state))
      [id, state] [] := by
  refine Re.takes_lit_seq.mpr ⟨_, rfl, ?_⟩
  refine Re.takes_seq.mpr ⟨[id], '.' :: state, [state], ?_, ?_, rfl⟩
  · refine Re.takes_group.mpr ⟨id, [], ?_, rfl, rfl⟩
    exact Re.takes_some.mpr ⟨rfl, id, hid, rfl, notDot_iff.mpr hdot⟩
  · refine Re.takes_seq_atEnd.mpr ⟨rfl, ?_⟩
    refine Re.takes_alt.mpr (.inl ⟨[state], ?_, rfl⟩)
    refine Re.takes_lit_seq.mpr ⟨state, rfl, ?_⟩
    refine Re.takes_group.mpr ⟨state, [], ?_, (List.append_nil _).symm, rfl⟩
    exact Re.takes_some.mpr ⟨rfl, state, hne, (List.append_nil _).symm, hline⟩

/-- A client provision is loaded when a state was captured. -/
theorem clientProvision_action (id state : List Char) :
    (∃ b, clientProvision.action [id, state] = .ok (some b)) ↔ state ≠ [] := by
  have hstr : str [id, state] 1 = String.ofList state := rfl
  simp only [clientProvision, hstr]
  cases state with
  | nil => simp
  | cons c state => simp

/-- The targets that `load` takes: an entry of the vault, as a value or as a JSON
    document, with an optional path, a client provision with its state, and lines. -/
structure TargetClean (cs : List Char) : Prop where
  vault : ∀ rest, cs = "vault.".toList ++ rest → ∃ middle ∈ vaultMiddles, VaultForm middle rest
  clientProvision : ∀ rest, cs = "clientProvision.".toList ++ rest → ProvisionForm rest
  line : ¬ "vault.".toList <+: cs → ¬ "clientProvision.".toList <+: cs → Line cs

section TargetRules

variable {lib : Lib} {rule : Rule Fault TargetPart} {g : List (List Char)} {cs rest : List Char}

/-- A rule that takes a vault text is one of the vault. -/
theorem target_vault (hmem : rule ∈ targetRules lib)
    (h : Re.Takes rule.pattern ("vault.".toList ++ rest) g []) :
    ∃ middle ∈ vaultMiddles, VaultForm middle rest := by
  rcases target_rule hmem with hrule | ⟨middle, hmiddle, _, rfl⟩ | rfl
  · have hs : "vault.".toList ∈ specialTargets := by decide
    exact absurd h (hrule.avoids hs)
  · exact ⟨middle, hmiddle, takes_vaultText.mp ⟨g, h⟩⟩
  · exact absurd h (Re.not_takes_lit_seq (by decide))

/-- A rule that takes a client provision and loads it captured a state. -/
theorem target_clientProvision (hmem : rule ∈ targetRules lib)
    (h : Re.Takes rule.pattern ("clientProvision.".toList ++ rest) g [])
    (hact : ∃ b, rule.action g = .ok (some b)) : ProvisionForm rest := by
  rcases target_rule hmem with hrule | ⟨_, _, _, rfl⟩ | rfl
  · have hs : "clientProvision.".toList ∈ specialTargets := by decide
    exact absurd h (hrule.avoids hs)
  · exact absurd h (Re.not_takes_lit_seq (by decide))
  · obtain ⟨id, state, rfl, hid, hdot, hline, heq | ⟨_, rfl⟩⟩ := takes_clientProvision h
    · have hne := (clientProvision_action id state).mp hact
      exact ⟨id, state, hid, hdot, hne, hline, List.append_cancel_left heq⟩
    · exact absurd rfl ((clientProvision_action id []).mp hact)

/-- What a rule takes is a line, but for the vault and client provisions. -/
theorem target_line (hmem : rule ∈ targetRules lib)
    (hvault : ¬ "vault.".toList <+: cs) (hprovision : ¬ "clientProvision.".toList <+: cs)
    (h : Re.Takes rule.pattern cs g []) : Line cs := by
  rcases target_rule hmem with hrule | ⟨_, _, _, rfl⟩ | rfl
  · exact hrule.line h
  · obtain ⟨_, _, _, h1, _, _⟩ := Re.takes_seq.mp h
    obtain ⟨_, rfl⟩ := (Re.takes_lit _).mp h1
    exact absurd (List.prefix_append _ _) hvault
  · obtain ⟨_, _, _, h1, _, _⟩ := Re.takes_seq.mp h
    obtain ⟨_, rfl⟩ := (Re.takes_lit _).mp h1
    exact absurd (List.prefix_append _ _) hprovision

/-- No rule that matches a clean target fails. -/
theorem target_total (hclean : TargetClean cs) : ∀ rule ∈ targetRules lib, rule.Total cs := by
  intro rule hmem g h
  rcases target_rule hmem with hrule | ⟨_, _, _, rfl⟩ | rfl
  · exact hrule.total g
  · exact ⟨_, rfl⟩
  · obtain ⟨id, state, rfl, _, hdot, _, rfl | ⟨rfl, _⟩⟩ := takes_clientProvision h
    · obtain ⟨id', state', _, hdot', hne, _, heq⟩ := hclean.clientProvision _ rfl
      obtain ⟨_, rfl⟩ := cut_inj hdot hdot' heq
      exact (clientProvision_action id state).mpr hne
    · -- without a dot there is no state to be found in the text
      obtain ⟨id', state', _, _, _, _, rfl⟩ := hclean.clientProvision _ rfl
      exact absurd (List.mem_append_right _ List.mem_cons_self) hdot

theorem target_plain (lib : Lib) {t : String} (ht : t ∈ plainTargets) :
    ∃ rule ∈ targetRules lib, rule.pattern = Re.lit t.toList := by
  simp only [plainTargets, List.mem_cons, List.not_mem_nil, or_false] at ht
  rcases ht with rfl | rfl | rfl | rfl | rfl | rfl | rfl | rfl | rfl | rfl | rfl | rfl
  · exact ⟨_, List.mem_of_getElem? (i := 0) rfl, rfl⟩
  · exact ⟨_, List.mem_of_getElem? (i := 1) rfl, rfl⟩
  · exact ⟨_, List.mem_of_getElem? (i := 16) rfl, rfl⟩
  · exact ⟨_, List.mem_of_getElem? (i := 17) rfl, rfl⟩
  · exact ⟨_, List.mem_of_getElem? (i := 38) rfl, rfl⟩
  · exact ⟨_, List.mem_of_getElem? (i := 39) rfl, rfl⟩
  · exact ⟨_, List.mem_of_getElem? (i := 33) rfl, rfl⟩
  · exact ⟨_, List.mem_of_getElem? (i := 34) rfl, rfl⟩
  · exact ⟨_, List.mem_of_getElem? (i := 35) rfl, rfl⟩
  · exact ⟨_, List.mem_of_getElem? (i := 36) rfl, rfl⟩
  · exact ⟨_, List.mem_of_getElem? (i := 44) rfl, rfl⟩
  · exact ⟨_, List.mem_of_getElem? (i := 51) rfl, rfl⟩

/-- The two tests of each JSON body. -/
theorem target_body (lib : Lib) {t : String} (ht : t ∈ jsonBodies) :
    (∃ rule ∈ targetRules lib, rule.pattern = Re.lit t.toList)
      ∧ ∃ rule ∈ targetRules lib, rule.pattern = freeText (t ++ ".") := by
  simp only [jsonBodies, List.mem_cons, List.not_mem_nil, or_false] at ht
  rcases ht with rfl | rfl | rfl | rfl | rfl | rfl | rfl | rfl | rfl | rfl | rfl | rfl | rfl | rfl
  · exact ⟨⟨_, List.mem_of_getElem? (i := 2) rfl, rfl⟩, _,
      List.mem_of_getElem? (i := 3) rfl, rfl⟩
  · exact ⟨⟨_, List.mem_of_getElem? (i := 4) rfl, rfl⟩, _,
      List.mem_of_getElem? (i := 5) rfl, rfl⟩
  · exact ⟨⟨_, List.mem_of_getElem? (i := 6) rfl, rfl⟩, _,
      List.mem_of_getElem? (i := 7) rfl, rfl⟩
  · exact ⟨⟨_, List.mem_of_getElem? (i := 8) rfl, rfl⟩, _,
      List.mem_of_getElem? (i := 9) rfl, rfl⟩
  · exact ⟨⟨_, List.mem_of_getElem? (i := 10) rfl, rfl⟩, _,
      List.mem_of_getElem? (i := 11) rfl, rfl⟩
  · exact ⟨⟨_, List.mem_of_getElem? (i := 12) rfl, rfl⟩, _,
      List.mem_of_getElem? (i := 13) rfl, rfl⟩
  · exact ⟨⟨_, List.mem_of_getElem? (i := 14) rfl, rfl⟩, _,
      List.mem_of_getElem? (i := 15) rfl, rfl⟩
  · exact ⟨⟨_, List.mem_of_getElem? (i := 18) rfl, rfl⟩, _,
      List.mem_of_getElem? (i := 19) rfl, rfl⟩
  · exact ⟨⟨_, List.mem_of_getElem? (i := 20) rfl, rfl⟩, _,
      List.mem_of_getElem? (i := 21) rfl, rfl⟩
  · exact ⟨⟨_, List.mem_of_getElem? (i := 22) rfl, rfl⟩, _,
      List.mem_of_getElem? (i := 23) rfl, rfl⟩
  · exact ⟨⟨_, List.mem_of_getElem? (i := 24) rfl, rfl⟩, _,
      List.mem_of_getElem? (i := 25) rfl, rfl⟩
  · exact ⟨⟨_, List.mem_of_getElem? (i := 26) rfl, rfl⟩, _,
      List.mem_of_getElem? (i := 27) rfl, rfl⟩
  · exact ⟨⟨_, List.mem_of_getElem? (i := 28) rfl, rfl⟩, _,
      List.mem_of_getElem? (i := 29) rfl, rfl⟩
  · exact ⟨⟨_, List.mem_of_getElem? (i := 30) rfl, rfl⟩, _,
      List.mem_of_getElem? (i := 31) rfl, rfl⟩

theorem target_free (lib : Lib) {start : String} (hs : start ∈ closedTargets ++ openTargets) :
    ∃ rule ∈ targetRules lib, rule.pattern = freeText start := by
  simp only [closedTargets, openTargets, List.cons_append, List.nil_append, List.mem_cons,
    List.not_mem_nil, or_false] at hs
  rcases hs with rfl | rfl | rfl | rfl | rfl | rfl | rfl | rfl
  · exact ⟨_, List.mem_of_getElem? (i := 37) rfl, rfl⟩
  · exact ⟨_, List.mem_of_getElem? (i := 32) rfl, rfl⟩
  · exact ⟨_, List.mem_of_getElem? (i := 40) rfl, rfl⟩
  · exact ⟨_, List.mem_of_getElem? (i := 49) rfl, rfl⟩
  · exact ⟨_, List.mem_of_getElem? (i := 50) rfl, rfl⟩
  · exact ⟨_, List.mem_of_getElem? (i := 46) rfl, rfl⟩
  · exact ⟨_, List.mem_of_getElem? (i := 47) rfl, rfl⟩
  · exact ⟨_, List.mem_of_getElem? (i := 48) rfl, rfl⟩

theorem texts_takes {t : String} {ts : List String} (ht : t ∈ ts) (rest : List Char) :
    ∃ g, Re.Takes (texts ts) (t.toList ++ rest) g rest := by
  induction ts with
  | nil => cases ht
  | cons u us ih =>
      have htake : ∀ v : String, Re.Takes (Re.lit v.toList) (v.toList ++ rest) [] rest :=
        fun v => (Re.takes_lit _).mpr ⟨rfl, rfl⟩
      cases us with
      | nil =>
          obtain rfl := List.mem_singleton.mp ht
          exact ⟨[], htake t⟩
      | cons v vs =>
          rcases List.mem_cons.mp ht with rfl | ht
          · exact ⟨_, Re.takes_alt.mpr (.inl ⟨[], htake t, rfl⟩)⟩
          · obtain ⟨g, hg⟩ := ih ht
            exact ⟨_, Re.takes_alt.mpr (.inr ⟨g, hg, rfl⟩)⟩

/-- `outState` with a method and an optional URI is taken. -/
theorem outState_takes {method : String} (hm : method ∈ methods)
    (hr : rest = [] ∨ ∃ line, line ≠ [] ∧ Line line ∧ rest = '.' :: line) :
    ∃ g, Re.Takes outStateMethodUri.pattern ("outState.".toList ++ (method.toList ++ rest)) g []
    := by
  obtain ⟨g1, hg1⟩ := texts_takes hm rest
  have huri : ∃ g2, Re.Takes (Re.opt (.group (.seq (Re.lit ".".toList) (Re.some Re.dot)))) rest
      g2 [] := by
    rcases hr with rfl | ⟨line, hne, hline, rfl⟩
    · exact ⟨_, Re.takes_alt.mpr (.inr ⟨[], Re.takes_eps.mpr ⟨rfl, rfl⟩, rfl⟩)⟩
    · refine ⟨_, Re.takes_alt.mpr (.inl ⟨['.' :: line], ?_, rfl⟩)⟩
      refine Re.takes_group.mpr ⟨'.' :: line, [], ?_, (List.append_nil _).symm, rfl⟩
      refine Re.takes_lit_seq.mpr ⟨line, rfl, ?_⟩
      exact Re.takes_some.mpr ⟨rfl, line, hne, (List.append_nil _).symm, hline⟩
  obtain ⟨g2, hg2⟩ := huri
  refine ⟨(method.toList :: g1) ++ g2, Re.takes_seq.mpr
    ⟨[], _, (method.toList :: g1) ++ g2, Re.takes_dotted_self _ _, ?_, rfl⟩⟩
  refine Re.takes_seq.mpr ⟨method.toList :: g1, rest, g2, ?_, hg2, rfl⟩
  exact Re.takes_group.mpr ⟨method.toList, g1, hg1, rfl, rfl⟩

/-- Some rule matches a clean target. -/
theorem target_taken (lib : Lib) (hform : TargetForm cs) (hclean : TargetClean cs) :
    ∃ rule ∈ targetRules lib, ∃ g, Re.Takes rule.pattern cs g [] := by
  cases hform with
  | plain t ht =>
      obtain ⟨rule, hmem, hpattern⟩ := target_plain lib ht
      refine ⟨rule, hmem, [], ?_⟩
      rw [hpattern]
      exact (Re.takes_lit _).mpr ⟨rfl, (List.append_nil _).symm⟩
  | json t ht =>
      obtain ⟨rule, hmem, hpattern⟩ := (target_body lib ht).1
      refine ⟨rule, hmem, [], ?_⟩
      rw [hpattern]
      exact (Re.takes_lit _).mpr ⟨rfl, (List.append_nil _).symm⟩
  | node t ht rest =>
      obtain ⟨rule, hmem, hpattern⟩ := (target_body lib ht).2
      refine ⟨rule, hmem, [rest], ?_⟩
      rw [hpattern]
      refine freeText_takes _ (fun c hc => ?_)
      have hstarts : ∀ s ∈ jsonBodies, Re.clash "vault.".toList s.toList = true
          ∧ Re.clash "clientProvision.".toList s.toList = true := by decide
      rw [String.toList_append, List.append_assoc] at hclean
      refine hclean.line ?_ ?_ c (List.mem_append_right _ (List.mem_append_right _ hc))
      · exact Re.not_prefix_of_clash (hstarts t ht).1
      · exact Re.not_prefix_of_clash (hstarts t ht).2
  | closed start hs rest hr =>
      obtain ⟨rule, hmem, hpattern⟩ := target_free lib (List.mem_append.mpr (.inl hs))
      refine ⟨rule, hmem, [rest], ?_⟩
      rw [hpattern]
      exact freeText_takes start hr
  | opened start hs rest =>
      obtain ⟨rule, hmem, hpattern⟩ := target_free lib (List.mem_append.mpr (.inr hs))
      refine ⟨rule, hmem, [rest], ?_⟩
      rw [hpattern]
      have hstarts : ∀ s ∈ openTargets, Re.clash "vault.".toList s.toList = true
          ∧ Re.clash "clientProvision.".toList s.toList = true := by decide
      refine freeText_takes start (fun c hc => ?_)
      refine hclean.line ?_ ?_ c (List.mem_append_right _ hc)
      · exact Re.not_prefix_of_clash (hstarts start hs).1
      · exact Re.not_prefix_of_clash (hstarts start hs).2
  | outState method hm rest hr =>
      exact ⟨_, List.mem_of_getElem? (i := 45) rfl, outState_takes hm hr⟩
  | vault rest =>
      obtain ⟨middle, hmiddle, hvault⟩ := hclean.vault rest rfl
      obtain ⟨g, hg⟩ := takes_vaultText.mpr hvault
      simp only [vaultMiddles, List.mem_cons, List.not_mem_nil, or_false] at hmiddle
      rcases hmiddle with rfl | rfl | rfl
      · exact ⟨_, List.mem_of_getElem? (i := 41) rfl, g, hg⟩
      · exact ⟨_, List.mem_of_getElem? (i := 42) rfl, g, hg⟩
      · exact ⟨_, List.mem_of_getElem? (i := 43) rfl, g, hg⟩
  | clientProvision rest =>
      obtain ⟨id, state, hid, hdot, hne, hline, rfl⟩ := hclean.clientProvision rest rfl
      exact ⟨_, List.mem_of_getElem? (i := 52) rfl, _,
        clientProvision_takes hid hdot hne hline⟩

/-- **TARGETS TAKEN**: of what the patterns let in, `load` takes what is clean. -/
theorem loadTarget_iff (lib : Lib) {text : String} (hform : TargetForm text.toList) :
    (∃ t, loadTarget lib text = .ok (some t)) ↔ TargetClean text.toList := by
  constructor
  · rintro ⟨t, ht⟩
    obtain ⟨rule, hmem, g, htakes, hact⟩ := cascade_result ht
    generalize text.toList = cs at *
    refine ⟨?_, ?_, ?_⟩
    · rintro rest rfl
      exact target_vault hmem htakes
    · rintro rest rfl
      exact target_clientProvision hmem htakes ⟨t, hact⟩
    · intro hvault hprovision
      exact target_line hmem hvault hprovision htakes
  · intro hclean
    exact cascade_succeeds (target_total hclean) (target_taken lib hform hclean)

end TargetRules

end H2Grammar
