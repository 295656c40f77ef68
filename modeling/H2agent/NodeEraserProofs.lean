import H2agent.JsonPointerProofs
import H2agent.TargetProofs

/-! # The eraser on a node of a body

    The path of the node is cut at its last slash: the first part is a JSON pointer
    to the parent, the rest is handed to `erase` as the key, as it is written.  That
    is the node only when the parent is an object and the last token has nothing to
    unescape: an array does not erase keys, and a key with a tilde or a slash is
    written with an escape.

    * `removeAt`: the document without a node, which is what the eraser is for;
    * `parsePointer_cut`: the two parts of a path and its tokens;
    * `modifyAt_eraseKey_iff`: when erasing a key of the parent removes the node;
    * `eraser_exact_iff`: the same for the targets on the response and the request. -/

namespace H2Eraser

open JsonValue H2Convert H2Target H2Transformation

/-! ## Documents without a node -/

/-- A member or an element dropped; later elements move up. -/
def dropChild (t : String) : Json → Json
  | .obj fields => .obj (fields.filter fun kv => kv.1 ≠ t)
  | .arr l =>
      match Json.arrayIndex t with
      | some n => .arr (l.eraseIdx n)
      | none => .arr l
  | j => j

/-- A member or an element changed. -/
def mapChild (t : String) (f : Json → Json) : Json → Json
  | .obj fields => .obj (fields.map fun kv => if kv.1 = t then (kv.1, f kv.2) else kv)
  | .arr l =>
      match Json.arrayIndex t with
      | some n => .arr (l.modify n f)
      | none => .arr l
  | j => j

/-- The document without the node at a pointer. -/
def removeAt : List String → Json → Json
  | [], j => j
  | [t], j => dropChild t j
  | t :: s :: ts, j => mapChild t (removeAt (s :: ts)) j

/-- A body without a node.  At the root nothing is left of the document. -/
def Erased (tokens : List String) (before after : Body) : Prop :=
  after.text = before.text ∧
    if tokens = [] then after.json.empty = true else after.json = removeAt tokens before.json

/-! ## The path and its two parts -/

theorem slashPieces_ne_nil (cs : List Char) : Json.slashPieces cs ≠ [] := by
  cases cs with
  | nil => exact List.cons_ne_nil _ _
  | cons c cs =>
      rw [Json.slashPieces]
      split
      · exact List.cons_ne_nil _ _
      · split <;> exact List.cons_ne_nil _ _

theorem slashPieces_of_notMem {cs : List Char} (h : '/' ∉ cs) : Json.slashPieces cs = [cs] := by
  induction cs with
  | nil => rfl
  | cons c cs ih =>
      rw [List.mem_cons, not_or] at h
      rw [Json.slashPieces, if_neg (Ne.symm h.1), ih h.2]

theorem slashPieces_append (a b : List Char) :
    Json.slashPieces (a ++ '/' :: b) = Json.slashPieces a ++ Json.slashPieces b := by
  induction a with
  | nil => rfl
  | cons c a ih =>
      rw [List.cons_append, Json.slashPieces, Json.slashPieces]
      by_cases hc : c = '/'
      · rw [if_pos hc, if_pos hc, ih, List.cons_append]
      · rw [if_neg hc, if_neg hc, ih]
        cases hp : Json.slashPieces a with
        | nil => exact absurd hp (slashPieces_ne_nil a)
        | cons p ps => rfl

/-- The last slash cuts the path into a part that may have slashes and one that has none. -/
theorem cutLastSlash_eq {path : String} (h : '/' ∈ path.toList) :
    path.toList = (cutLastSlash path).1.toList ++ '/' :: (cutLastSlash path).2.toList ∧
      '/' ∉ (cutLastSlash path).2.toList := by
  obtain ⟨child, parent, hsplit, hchild⟩ := List.eq_append_cons_of_mem (List.mem_reverse.mpr h)
  have hplain : ∀ c ∈ child, decide (c ≠ '/') = true := by
    intro c hc
    rw [decide_eq_true_eq]
    rintro rfl
    exact hchild hc
  have hcut : cutLastSlash path = (String.ofList parent.reverse, String.ofList child.reverse) := by
    rw [cutLastSlash, hsplit, List.dropWhile_append_of_pos hplain, List.takeWhile_append_of_pos hplain]
    simp
  rw [hcut]
  simp only [String.toList_ofList, List.mem_reverse]
  refine ⟨?_, hchild⟩
  rw [← List.reverse_reverse path.toList, hsplit, List.reverse_append, List.reverse_cons,
    List.append_assoc, List.singleton_append]

/-- The tokens of a path that begins with a slash. -/
theorem parsePointer_slash {path : String} {rest : List Char} (h : path.toList = '/' :: rest) :
    Json.parsePointer path
      = (Json.slashPieces rest).mapM fun p => (Json.unescape p).map String.ofList := by
  rw [Json.parsePointer, h]
  rfl

theorem slash_of_parsePointer {path : String} {tokens : List String}
    (h : Json.parsePointer path = some tokens) (hne : path ≠ "") :
    ∃ rest, path.toList = '/' :: rest := by
  rw [Json.parsePointer] at h
  split at h
  · next hnil => exact absurd (String.toList_eq_nil_iff.mp hnil) hne
  · next rest hrest => exact ⟨rest, hrest⟩
  · cases h

/-- The pieces of a well-formed path: the first part points to the parent, and what is
    behind the last slash is the last token before it is unescaped. -/
theorem parsePointer_cut {path : String} {tokens : List String}
    (h : Json.parsePointer path = some tokens) (hne : path ≠ "") :
    ∃ init last, tokens = init ++ [last] ∧
      Json.parsePointer (cutLastSlash path).1 = some init ∧
      Json.unescape (cutLastSlash path).2.toList = some last.toList := by
  obtain ⟨rest, hrest⟩ := slash_of_parsePointer h hne
  have hslash : '/' ∈ path.toList := by
    rw [hrest]
    exact List.mem_cons_self
  obtain ⟨hcut, hchild⟩ := cutLastSlash_eq hslash
  rw [parsePointer_slash hrest] at h
  -- the pieces are those of the parent and the last one
  obtain ⟨pieces, hpieces, hparent⟩ : ∃ pieces,
      Json.slashPieces rest = pieces ++ [(cutLastSlash path).2.toList] ∧
        Json.parsePointer (cutLastSlash path).1
          = pieces.mapM fun p => (Json.unescape p).map String.ofList := by
    cases hlist : (cutLastSlash path).1.toList with
    | nil =>
        rw [hrest, hlist, List.nil_append, List.cons.injEq] at hcut
        refine ⟨[], ?_, ?_⟩
        · rw [hcut.2, slashPieces_of_notMem hchild, List.nil_append]
        · rw [Json.parsePointer, hlist]
          rfl
    | cons c parent =>
        rw [hrest, hlist, List.cons_append, List.cons.injEq] at hcut
        obtain ⟨rfl, hrest'⟩ := hcut
        refine ⟨Json.slashPieces parent, ?_, parsePointer_slash hlist⟩
        rw [hrest', slashPieces_append, slashPieces_of_notMem hchild]
  rw [hpieces, List.mapM_append] at h
  obtain ⟨init, hinit, h⟩ := Option.bind_eq_some_iff.mp h
  obtain ⟨tail, htail, h⟩ := Option.bind_eq_some_iff.mp h
  obtain ⟨last, hlast, htail⟩ := Option.bind_eq_some_iff.mp htail
  obtain ⟨token, htoken, rfl⟩ := Option.map_eq_some_iff.mp hlast
  refine ⟨init, String.ofList token, ?_, hparent.trans hinit, ?_⟩
  · cases htail
    cases h
    rfl
  · rw [htoken, String.toList_ofList]

theorem unescape_cons {c : Char} (hc : c ≠ '~') (rest : List Char) :
    Json.unescape (c :: rest) = (Json.unescape rest).map (c :: ·) := by
  rw [Json.unescape]
  · intro rest' h
    exact absurd h hc
  · intro rest' h
    exact absurd h hc
  · exact hc

/-- Every tilde of a text is spent on an escape. -/
theorem length_unescape {cs token : List Char} (h : Json.unescape cs = some token) :
    token.length + cs.count '~' = cs.length := by
  induction cs using Json.unescape.induct generalizing token with
  | case1 =>
      cases h
      rfl
  | case2 rest ih =>
      rw [Json.unescape, Option.map_eq_some_iff] at h
      obtain ⟨token, htoken, rfl⟩ := h
      have hlength := ih htoken
      simp only [List.length_cons, List.count_cons, beq_self_eq_true, if_true]
      rw [if_neg (by decide)]
      omega
  | case3 rest ih =>
      rw [Json.unescape, Option.map_eq_some_iff] at h
      obtain ⟨token, htoken, rfl⟩ := h
      have hlength := ih htoken
      simp only [List.length_cons, List.count_cons, beq_self_eq_true, if_true]
      rw [if_neg (by decide)]
      omega
  | case4 rest h0 h1 =>
      rw [Json.unescape] at h
      · cases h
      · exact h0
      · exact h1
  | case5 c rest _ _ hc ih =>
      rw [unescape_cons hc, Option.map_eq_some_iff] at h
      obtain ⟨token, htoken, rfl⟩ := h
      have hlength := ih htoken
      rw [List.length_cons, List.length_cons, List.count_cons_of_ne hc]
      omega

theorem unescape_plain {cs : List Char} (h : '~' ∉ cs) : Json.unescape cs = some cs := by
  induction cs with
  | nil => rfl
  | cons c cs ih =>
      rw [List.mem_cons, not_or] at h
      rw [unescape_cons (Ne.symm h.1), ih h.2]
      rfl

/-- Unescaping changes exactly the texts that have a tilde. -/
theorem unescape_eq_self_iff {cs token : List Char} (h : Json.unescape cs = some token) :
    cs = token ↔ '~' ∉ cs := by
  constructor
  · rintro rfl
    have hlength := length_unescape h
    exact List.count_eq_zero.mp (by omega)
  · intro hplain
    exact Option.some.inj ((unescape_plain hplain).symm.trans h)

/-! ## Members -/

theorem field_dropField_ne {k key : String} (hk : k ≠ key) (fields : List (String × Json)) :
    Json.field k (Json.dropField key fields) = Json.field k fields := by
  induction fields with
  | nil => rfl
  | cons kv rest ih =>
      obtain ⟨k', v⟩ := kv
      rw [Json.dropField]
      by_cases hkey : k' = key
      · rw [if_pos hkey, Json.field_cons, if_neg (fun h => hk (h.symm.trans hkey))]
      · rw [if_neg hkey, Json.field_cons, Json.field_cons, ih]

theorem field_filter_ne (t : String) (fields : List (String × Json)) :
    Json.field t (fields.filter fun kv => kv.1 ≠ t) = none := by
  cases h : Json.field t (fields.filter fun kv => kv.1 ≠ t) with
  | none => rfl
  | some v =>
      have hmem := (List.mem_filter.mp (Json.mem_of_field h)).2
      simp at hmem

theorem field_map_ite (t : String) (f : Json → Json) (fields : List (String × Json)) :
    Json.field t (fields.map fun kv => if kv.1 = t then (kv.1, f kv.2) else kv)
      = (Json.field t fields).map f := by
  induction fields with
  | nil => rfl
  | cons kv rest ih =>
      obtain ⟨k, v⟩ := kv
      rw [List.map_cons, Json.field_cons]
      by_cases hk : k = t
      · simp only [hk, if_true, Json.field_cons, Option.map_some]
      · simp only [hk, if_false, Json.field_cons, ih]

/-- The keys behind the one that is looked for are others. -/
theorem keys_ne {k t : String} {v : Json} {rest : List (String × Json)}
    (hordered : (((k, v) :: rest).map Prod.fst).Pairwise (· < ·)) (hk : k = t) :
    ∀ kv ∈ rest, kv.1 ≠ t := by
  rintro kv hkv rfl
  rw [List.map_cons, List.pairwise_cons] at hordered
  have hlt : k < kv.1 := hordered.1 kv.1 (List.mem_map.mpr ⟨kv, hkv, rfl⟩)
  rw [hk] at hlt
  exact lt_irrefl _ hlt

theorem dropField_eq_filter {fields : List (String × Json)}
    (hordered : (fields.map Prod.fst).Pairwise (· < ·)) (t : String) :
    Json.dropField t fields = fields.filter fun kv => kv.1 ≠ t := by
  induction fields with
  | nil => rfl
  | cons kv rest ih =>
      obtain ⟨k, v⟩ := kv
      rw [Json.dropField]
      by_cases hk : k = t
      · have hrest := keys_ne hordered hk
        rw [if_pos hk, List.filter_cons_of_neg (by simpa using hk), List.filter_eq_self.mpr]
        intro kv hkv
        simpa using hrest kv hkv
      · rw [List.map_cons, List.pairwise_cons] at hordered
        rw [if_neg hk, List.filter_cons_of_pos (by simpa using hk), ih hordered.2]

/-- A key that is there is set in its place. -/
theorem setField_eq_map {fields : List (String × Json)}
    (hordered : (fields.map Prod.fst).Pairwise (· < ·)) {t : String} {c : Json}
    (h : Json.field t fields = some c) (f : Json → Json) :
    Json.setField t (f c) fields = fields.map fun kv => if kv.1 = t then (kv.1, f kv.2) else kv := by
  induction fields with
  | nil => cases h
  | cons kv rest ih =>
      obtain ⟨k, v⟩ := kv
      rw [Json.field_cons] at h
      rw [Json.setField, List.map_cons]
      by_cases hk : k = t
      · have hrest := keys_ne hordered hk
        rw [if_pos hk, Option.some.injEq] at h
        rw [if_pos hk, if_pos hk, h, List.map_congr_left fun kv hkv => if_neg (hrest kv hkv),
          List.map_id']
      · rw [if_neg hk] at h
        rw [List.map_cons, List.pairwise_cons] at hordered
        have hlt : k < t := hordered.1 t (List.mem_map.mpr ⟨(t, c), Json.mem_of_field h, rfl⟩)
        rw [if_neg hk, if_neg hk, if_neg (lt_asymm hlt), ih hordered.2 h]

/-! ## Erasing a key of the parent -/

theorem removeAt_cons {ts : List String} (hne : ts ≠ []) (t : String) (j : Json) :
    removeAt (t :: ts) j = mapChild t (removeAt ts) j := by
  cases ts with
  | nil => exact absurd rfl hne
  | cons s ts => rfl

/-- A key of an object is the member it names. -/
theorem eraseKey_iff {last key : String} {j v : Json} (hordered : Json.Ordered j)
    (h : Json.child last j = some v) :
    (Json.eraseKey key j).1 = dropChild last j ↔ (∃ fields, j = .obj fields) ∧ key = last := by
  cases j with
  | obj fields =>
      have hkeys := hordered fields .here
      rw [Json.eraseKey, dropChild, Json.obj.injEq]
      constructor
      · intro heq
        refine ⟨⟨fields, rfl⟩, ?_⟩
        by_contra hne
        have hkept := field_dropField_ne (Ne.symm hne) fields
        rw [heq, field_filter_ne] at hkept
        exact Option.some_ne_none v (h.symm.trans hkept.symm)
      · rintro ⟨-, rfl⟩
        exact dropField_eq_filter hkeys key
  | arr l =>
      rw [Json.child, Option.bind_eq_some_iff] at h
      obtain ⟨n, hindex, hget⟩ := h
      obtain ⟨hlt, -⟩ := List.getElem?_eq_some_iff.mp hget
      refine iff_of_false ?_ ?_
      · intro heq
        simp only [Json.eraseKey, dropChild, hindex, Json.arr.injEq] at heq
        have hlength := congrArg List.length heq
        rw [List.length_eraseIdx, if_pos hlt] at hlength
        omega
      · rintro ⟨⟨fields, hfields⟩, -⟩
        cases hfields
  | _ => cases h

/-- A change below a node that is there is the change of the node. -/
theorem place_eq_mapChild {t : String} {j c x : Json} (hordered : Json.Ordered j)
    (h : Json.child t j = some c) (f : Json → Json) :
    ∃ j', Json.place t x j = some j' ∧ (j' = mapChild t f j ↔ x = f c) := by
  cases j with
  | obj fields =>
      refine ⟨.obj (Json.setField t x fields), rfl, ?_⟩
      rw [mapChild, Json.obj.injEq]
      constructor
      · intro heq
        have hfield := congrArg (Json.field t) heq
        rw [Json.field_setField, if_pos rfl, field_map_ite] at hfield
        rw [Json.child] at h
        rw [h] at hfield
        exact Option.some.inj hfield
      · rintro rfl
        exact setField_eq_map (hordered fields .here) h f
  | arr l =>
      rw [Json.child, Option.bind_eq_some_iff] at h
      obtain ⟨n, hindex, hget⟩ := h
      obtain ⟨hlt, hc⟩ := List.getElem?_eq_some_iff.mp hget
      have hdash : t ≠ "-" := by
        rintro rfl
        rw [Json.arrayIndex_dash] at hindex
        cases hindex
      refine ⟨.arr ((Json.padTo (n + 1) l).set n x), ?_, ?_⟩
      · rw [Json.place_arr, if_neg hdash, hindex]
        rfl
      · simp only [mapChild, hindex, Json.arr.injEq]
        constructor
        · intro heq
          have hat := congrArg (fun l => l[n]?) heq
          simpa [Json.getElem?_set_padTo hlt.le, hget] using hat
        · rintro rfl
          apply List.ext_getElem?
          intro m
          rw [Json.getElem?_set_padTo hlt.le, List.getElem?_modify]
          by_cases hm : m = n
          · subst hm
            simp [hget]
          · simp [hm, Ne.symm hm]
  | _ => cases h

/-- Erasing a key of the parent removes the node exactly when the parent is an object and
    the key is the last token. -/
theorem modifyAt_eraseKey_iff {init : List String} {last key : String} {j v : Json}
    (hordered : Json.Ordered j) (h : Json.getAt (init ++ [last]) j = some v) :
    (Json.modifyAt (Json.eraseKey key) init j).1 = removeAt (init ++ [last]) j ↔
      (∃ fields, Json.getAt init j = some (.obj fields)) ∧ key = last := by
  induction init generalizing j with
  | nil =>
      rw [List.nil_append, Json.getAt_cons, Option.bind_eq_some_iff] at h
      obtain ⟨c, hc, -⟩ := h
      simp only [List.nil_append, Json.modifyAt, removeAt, Json.getAt, Option.some.injEq]
      exact eraseKey_iff hordered hc
  | cons t ts ih =>
      rw [List.cons_append, Json.getAt_cons, Option.bind_eq_some_iff] at h
      obtain ⟨c, hc, h⟩ := h
      obtain ⟨j', hplace, heq⟩ := place_eq_mapChild
        (x := (Json.modifyAt (Json.eraseKey key) ts c).1) hordered hc (removeAt (ts ++ [last]))
      rw [Json.modifyAt_cons, hc, Option.getD_some, hplace, List.cons_append,
        removeAt_cons (by simp), heq, ih (hordered.child hc) h, Json.getAt_cons, hc, Option.bind_some]

/-! ## The targets -/

/-- The node is the root, or a member of an object whose key is written without escapes. -/
def PlainMember (j : Json) (path : String) (tokens : List String) : Prop :=
  path = "" ∨ ((∃ fields, Json.getAt tokens.dropLast j = some (.obj fields)) ∧
    '~' ∉ (cutLastSlash path).2.toList)

theorem eraseAll_empty (j : Json) : j.eraseAll.1.empty = true := by
  cases j <;> rfl

theorem erase_exact_iff {b : Body} {path : String} {tokens : List String} {v : Json}
    (hpath : Json.parsePointer path = some tokens) (hresolves : Json.getAt tokens b.json = some v)
    (hordered : Json.Ordered b.json) :
    Erased tokens b (b.erase path).2 ↔ PlainMember b.json path tokens := by
  by_cases hroot : path = ""
  · subst hroot
    have htokens : tokens = [] := Option.some.inj (hpath.symm.trans rfl)
    refine iff_of_true ⟨rfl, ?_⟩ (Or.inl rfl)
    rw [if_pos htokens]
    exact eraseAll_empty b.json
  · obtain ⟨init, last, rfl, hparent, hlast⟩ := parsePointer_cut hpath hroot
    have herase : (b.erase path).2
        = { b with json := (b.json.modifyAt (Json.eraseKey (cutLastSlash path).2) init).1 } := by
      have hfull : ¬ path.isEmpty = true := by simpa using hroot
      rw [Body.erase, if_neg hfull]
      simp only [hparent]
    have hkey : (cutLastSlash path).2 = last ↔ '~' ∉ (cutLastSlash path).2.toList := by
      rw [← unescape_eq_self_iff hlast, String.toList_inj]
    rw [Erased, herase, if_neg (by simp), PlainMember, or_iff_right hroot, List.dropLast_concat,
      and_iff_right rfl, modifyAt_eraseKey_iff hordered hresolves, hkey]

/-- An eraser on a node that is there, in a response or in a request, leaves the body without
    the node and otherwise as it was exactly when the node is the root or a member whose key
    is written without escapes. -/
theorem eraser_exact_iff {path : String} {tokens : List String}
    (hpath : Json.parsePointer path = some tokens) {b : Body} {v : Json}
    (hresolves : Json.getAt tokens b.json = some v) (hordered : Json.Ordered b.json)
    (env : Env) (t : Transformation) {inc : Incoming} (heraser : inc.eraser = true) :
    (∀ target2 s, t.targetType = .ResponseBodyJson_Object → s.responseBody = b →
      (Erased tokens b (serverTarget env t path target2 inc s).2.responseBody ↔
        PlainMember b.json path tokens)) ∧
    (∀ s, t.targetType = .RequestBodyJson_Object → s.requestBody = b →
      (Erased tokens b (clientTarget env t path inc s).2.requestBody ↔
        PlainMember b.json path tokens)) := by
  have herase := erase_exact_iff hpath hresolves hordered
  constructor
  · rintro target2 s ht rfl
    have hbody : (serverTarget env t path target2 inc s).2.responseBody
        = (s.responseBody.erase path).2 := by
      simp only [serverTarget, responseBodyTarget, ht, bodyTarget, heraser, if_true]
    rw [hbody]
    exact herase
  · rintro s ht rfl
    have hbody : (clientTarget env t path inc s).2.requestBody = (s.requestBody.erase path).2 := by
      simp only [clientTarget, requestBodyTarget, ht, bodyTarget, heraser, if_true]
    rw [hbody]
    exact herase

/-- An eraser source. -/
def erases : Incoming := ⟨TypeConverter.fresh, true, []⟩

/-- A server transformation with a response body. -/
def withResponse (j : Json) : ServerState :=
  ⟨World.blank, 200, ⟨j, ""⟩, [], 0, "initial", "", "", []⟩

def onResponseNode : Transformation :=
  { sourceType := .Eraser, targetType := .ResponseBodyJson_Object }

/-- A document with a nested member. -/
def nested : Json := .obj [("a", .obj [("b", .int 1), ("c", .int 2)])]

theorem nested_member_erased :
    Json.parsePointer "/a/b" = some ["a", "b"] ∧
      Erased ["a", "b"] ⟨nested, ""⟩
        (serverTarget idleEnv onResponseNode "/a/b" "" erases (withResponse nested)).2.responseBody := by
  have hpath : Json.parsePointer "/a/b" = some ["a", "b"] := by decide
  have hordered : Json.Ordered nested := by
    intro fields hin
    cases hin with
    | here => decide
    | member hkv hin =>
        cases List.mem_singleton.mp hkv
        cases hin with
        | here => decide
        | member hkv hin =>
            rcases List.mem_cons.mp hkv with rfl | hkv
            · cases hin
            · cases List.mem_singleton.mp hkv
              cases hin
  refine ⟨hpath, ?_⟩
  rw [(@eraser_exact_iff "/a/b" ["a", "b"] hpath ⟨nested, ""⟩ (.int 1) rfl hordered idleEnv
    onResponseNode erases rfl).1 "" (withResponse nested) rfl rfl]
  exact Or.inr ⟨⟨[("b", .int 1), ("c", .int 2)], rfl⟩, by decide⟩

/-- An element of an array stays, and so does a member whose key has a slash. -/
theorem element_not_erased :
    (Json.parsePointer "/0" = some ["0"] ∧ Json.parsePointer "/a~1b" = some ["a/b"]) ∧
    ¬ Erased ["0"] ⟨.arr [.int 1, .int 2], ""⟩
        (serverTarget idleEnv onResponseNode "/0" "" erases
          (withResponse (.arr [.int 1, .int 2]))).2.responseBody ∧
    ¬ Erased ["a/b"] ⟨.obj [("a/b", .int 1)], ""⟩
        (serverTarget idleEnv onResponseNode "/a~1b" "" erases
          (withResponse (.obj [("a/b", .int 1)]))).2.responseBody := by
  refine ⟨⟨by decide, by decide⟩, ?_, ?_⟩
  · rintro ⟨-, h⟩
    have hstays : Json.arr [.int 1, .int 2] = .arr [.int 2] := h
    cases hstays
  · rintro ⟨-, h⟩
    have hstays : Json.obj [("a/b", .int 1)] = .obj [] := h
    cases hstays

end H2Eraser
