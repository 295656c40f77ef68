import H2agent.TransformationProofs

/-! # Queries on stored events

    `MockData::asJsonString` shows a whole store, a key, an event or a node of an
    event, and `MockData::clear` removes the first three.  A query is to be refused
    when its parts do not go together, whatever is stored.

    The verdict comes from three places: a shortcut for a query without key and
    number, which a path does not count for; the check of the selection; and the
    number, which is looked at only once the key is found.
    `query_validity_iff` says when that verdict is the right one. -/

namespace H2Query

open H2Convert H2Key H2Store H2Transformation JsonValue

/-! ## Locations -/

/-- `EventLocationKey`: an event key, and a path within the event. -/
structure EventLocationKey where
  eventKey : EventKey
  path : String

def EventLocationKey.checkSelection (e : EventLocationKey) : Bool :=
  e.eventKey.checkSelection && !(!e.path.isEmpty && !e.eventKey.hasNumber)

/-! ## What is shown -/

/-- `keyToJson`. -/
def keyToJson (k : DataKey) : List (String × Json) :=
  let fields := Json.setField "uri" (.str k.uri) [("method", .str k.method)]
  let fields := if k.provisionUri.isEmpty then fields
    else Json.setField "provisionUri" (.str k.provisionUri) fields
  if k.nkeys = 3 then Json.setField "clientEndpointId" (.str k.clientEndpointId) fields else fields

/-- `MockEventsHistory::getJson`. -/
def historyJson (h : MockEventsHistory MockEvent) : Json :=
  .obj (if h.events.isEmpty then keyToJson h.dataKey
    else Json.setField "events" (.arr (h.events.map MockEvent.json)) (keyToJson h.dataKey))

/-- `MockEvent::getJson`.  A pointer that does not parse raises an exception, and one
    that does not resolve is no defined access. -/
def eventJson (e : MockEvent) (path : String) : Option Json :=
  if path.isEmpty then some e.json
  else (Json.parsePointer path).bind (fun tokens => e.json.getAt tokens)

/-- `MockData::asJsonString`: the text, and `validQuery`. -/
def asJsonString (lib : Lib) (m : MockData MockEvent) (e : EventLocationKey) :
    Option String × Bool :=
  if e.eventKey.empty then
    (if m.entries.length ≠ 0 then lib.dump (.arr (m.entries.map (fun x => historyJson x.2)))
      else some "[]", true)
  else if !e.checkSelection then (some "[]", false)
  else
    match m.lookup e.eventKey.getKey with
    | none => (some "[]", true)
    | some h =>
        if e.eventKey.hasNumber then
          match e.eventKey.position with
          | none => (some "[]", false)
          | some (n, reverse) =>
              match h.getEvent n reverse with
              | none => (some "[]", true)
              | some event => ((eventJson event e.path).bind lib.dump, true)
        else (lib.dump (historyJson h), true)

/-! ## The verdict -/

/-- What makes a query valid: the parts of its key are all there or all missing, a
    number comes with the whole key and is accepted, a path comes with a number. -/
structure ValidQuery (e : EventLocationKey) : Prop where
  parts : e.eventKey.dataKey.complete = true ∨ e.eventKey.dataKey.empty = true
  number : e.eventKey.hasNumber = true →
    e.eventKey.dataKey.complete = true ∧ (string2uint64andSign e.eventKey.number).isSome = true
  path : e.path ≠ "" → e.eventKey.hasNumber = true

section Selection

variable {e : EventLocationKey}

theorem method_of_complete {k : DataKey} (h : k.complete = true) : k.method.isEmpty = false := by
  unfold DataKey.complete at h
  cases hm : k.method.isEmpty with
  | false => rfl
  | true => simp [hm] at h

theorem method_of_empty {k : DataKey} (h : k.empty = true) : k.method.isEmpty = true := by
  unfold DataKey.empty at h
  cases hm : k.method.isEmpty with
  | true => rfl
  | false => simp [hm] at h

/-- The selection of the parts: those of the key, the number and the path. -/
theorem checkSelection_iff :
    e.checkSelection = true
      ↔ (e.eventKey.dataKey.complete = true ∨ e.eventKey.dataKey.empty = true)
        ∧ (e.eventKey.hasNumber = true → e.eventKey.dataKey.complete = true)
        ∧ (e.path ≠ "" → e.eventKey.hasNumber = true) := by
  have hparts : e.eventKey.dataKey.checkSelection = true
      ↔ e.eventKey.dataKey.complete = true ∨ e.eventKey.dataKey.empty = true := Bool.or_eq_true_iff
  have hpath : (!(!e.path.isEmpty && !e.eventKey.hasNumber)) = true
      ↔ (e.path ≠ "" → e.eventKey.hasNumber = true) := by
    rw [Ne, ← String.isEmpty_iff]
    cases e.path.isEmpty <;> cases e.eventKey.hasNumber <;> decide
  rw [EventLocationKey.checkSelection, EventKey.checkSelection, Bool.and_eq_true_iff,
    Bool.and_eq_true_iff, hparts, hpath, and_assoc]
  refine and_congr_right fun hkey => and_congr_left fun _ => ?_
  -- with the parts all there or all missing the method stands for the key
  rcases hkey with hcomplete | hempty
  · simp [method_of_complete hcomplete, hcomplete]
  · have hnot : ¬ e.eventKey.dataKey.complete = true := by
      intro hcomplete
      exact absurd (method_of_complete hcomplete) (by rw [method_of_empty hempty]; decide)
    simp [method_of_empty hempty, hnot]

/-- A query without key and number is valid without a path. -/
theorem validQuery_of_empty (h : e.eventKey.empty = true) : ValidQuery e ↔ e.path = "" := by
  obtain ⟨hkey, hnumber⟩ := Bool.and_eq_true_iff.mp h
  have hno : ¬ e.eventKey.hasNumber = true := by simpa using hnumber
  constructor
  · intro hv
    by_contra hpath
    exact hno (hv.path hpath)
  · intro hpath
    exact ⟨.inr hkey, fun h => (hno h).elim, fun h => (h hpath).elim⟩

/-- Any query: the selection, and the number. -/
theorem validQuery_iff :
    ValidQuery e ↔ e.checkSelection = true
      ∧ (e.eventKey.hasNumber = true → e.eventKey.position.isSome = true) := by
  rw [checkSelection_iff]
  constructor
  · intro hv
    exact ⟨⟨hv.parts, fun h => (hv.number h).1, hv.path⟩, fun h => (hv.number h).2⟩
  · rintro ⟨⟨hparts, hcomplete, hpath⟩, hposition⟩
    exact ⟨hparts, fun h => ⟨hcomplete h, hposition h⟩, hpath⟩

end Selection

/-- The query is answered as its validity asks: the flag, no event for an invalid query;
    and without a path the same for the removal, which then keeps the store. -/
structure AnsweredByValidity (lib : Lib) (m : MockData MockEvent) (e : EventLocationKey) :
    Prop where
  verdict : (asJsonString lib m e).2 = true ↔ ValidQuery e
  nothing : ¬ ValidQuery e → (asJsonString lib m e).1 = some "[]"
  removal : e.path = "" → ((m.clear e.eventKey).1 = true ↔ ValidQuery e)
  kept : e.path = "" → ¬ ValidQuery e → m.clear e.eventKey = (false, false, m)

/-- A path without key and number. -/
def PathAlone (e : EventLocationKey) : Prop := e.eventKey.empty = true ∧ e.path ≠ ""

/-- A number that is not accepted, on a key that is not there. -/
def UnseenNumber (m : MockData MockEvent) (e : EventLocationKey) : Prop :=
  e.checkSelection = true ∧ e.eventKey.hasNumber = true
    ∧ string2uint64andSign e.eventKey.number = none ∧ m.lookup e.eventKey.getKey = none

section Answers

variable {lib : Lib} {m : MockData MockEvent} {e : EventLocationKey}

/-- Without key and number everything is shown, and removed. -/
theorem answers_empty (h : e.eventKey.empty = true) :
    (asJsonString lib m e).2 = true ∧ (m.clear e.eventKey).1 = true := by
  rw [asJsonString, MockData.clear, if_pos h, if_pos h]
  exact ⟨rfl, rfl⟩

/-- A selection that does not go together is refused. -/
theorem answers_refused (h : e.eventKey.empty = false) (hs : e.checkSelection = false) :
    asJsonString lib m e = (some "[]", false)
      ∧ (e.path = "" → m.clear e.eventKey = (false, false, m)) := by
  constructor
  · rw [asJsonString, h, hs, if_neg Bool.false_ne_true]
    rfl
  · intro hpath
    have hkey : e.eventKey.checkSelection = false := by
      rw [EventLocationKey.checkSelection, hpath] at hs
      simpa using hs
    rw [MockData.clear, h, hkey, if_neg Bool.false_ne_true]
    rfl

theorem selected_key (hs : e.checkSelection = true) : e.eventKey.checkSelection = true := by
  rw [EventLocationKey.checkSelection, Bool.and_eq_true_iff] at hs
  exact hs.1

section Selected

variable (h : e.eventKey.empty = false) (hs : e.checkSelection = true)

include h hs

/-- A key that is not there is answered before the number is looked at. -/
theorem answers_missing (hm : m.lookup e.eventKey.getKey = none) :
    (asJsonString lib m e).2 = true ∧ (m.clear e.eventKey).1 = true := by
  have hkey := selected_key hs
  simp only [asJsonString, MockData.clear, h, hs, hkey, hm, Bool.not_true, Bool.false_eq_true,
    if_false]
  exact ⟨trivial, trivial⟩

variable {history : MockEventsHistory MockEvent}
  (hm : m.lookup e.eventKey.getKey = some history)

include hm

/-- On a key that is there a number that is not accepted is refused. -/
theorem answers_number (hn : e.eventKey.hasNumber = true) (hp : e.eventKey.position = none) :
    asJsonString lib m e = (some "[]", false) ∧ m.clear e.eventKey = (false, false, m) := by
  have hkey := selected_key hs
  simp only [asJsonString, MockData.clear, h, hs, hkey, hm, hn, hp, Bool.not_true,
    Bool.false_eq_true, if_false, if_true]
  exact ⟨trivial, trivial⟩

/-- Anything else is answered. -/
theorem answers_found (hn : e.eventKey.hasNumber = true → e.eventKey.position.isSome = true) :
    (asJsonString lib m e).2 = true ∧ (m.clear e.eventKey).1 = true := by
  have hkey := selected_key hs
  simp only [asJsonString, MockData.clear, h, hs, hkey, hm, Bool.not_true, Bool.false_eq_true,
    if_false]
  by_cases hnumber : e.eventKey.hasNumber = true
  · obtain ⟨⟨n, reverse⟩, hp⟩ := Option.isSome_iff_exists.mp (hn hnumber)
    simp only [hnumber, hp, if_true]
    constructor
    · cases history.getEvent n reverse with
      | none => rfl
      | some event => rfl
    · split
      · rfl
      · rfl
  · simp only [hnumber]
    exact ⟨rfl, rfl⟩

end Selected

/-- A valid query that is accepted. -/
theorem answered_of_accepted (hv : ValidQuery e)
    (h : (asJsonString lib m e).2 = true ∧ (m.clear e.eventKey).1 = true) :
    AnsweredByValidity lib m e :=
  ⟨iff_of_true h.1 hv, fun hn => (hn hv).elim, fun _ => iff_of_true h.2 hv,
    fun _ hn => (hn hv).elim⟩

/-- An invalid query that is refused. -/
theorem answered_of_refused (hv : ¬ ValidQuery e)
    (hshown : asJsonString lib m e = (some "[]", false))
    (hcleared : e.path = "" → m.clear e.eventKey = (false, false, m)) :
    AnsweredByValidity lib m e := by
  refine ⟨?_, ?_, fun hpath => ?_, fun hpath _ => hcleared hpath⟩
  · rw [hshown]
    exact iff_of_false Bool.false_ne_true hv
  · rw [hshown]
    exact fun _ => rfl
  · rw [hcleared hpath]
    exact iff_of_false Bool.false_ne_true hv

end Answers

/-- **VALIDITY OF QUERIES**: for every location and every store, the query is answered
    by its validity if and only if it is no path alone, and no number that is not
    accepted on a key that is not there. -/
theorem query_validity_iff (lib : Lib) (m : MockData MockEvent) (e : EventLocationKey) :
    AnsweredByValidity lib m e ↔ ¬ PathAlone e ∧ ¬ UnseenNumber m e := by
  cases hempty : e.eventKey.empty with
  | true =>
      have hanswers := @answers_empty lib m e hempty
      have hvalid := validQuery_of_empty hempty
      constructor
      · intro ha
        refine ⟨fun halone => halone.2 (hvalid.mp (ha.verdict.mp hanswers.1)), fun hunseen => ?_⟩
        have hno := (Bool.and_eq_true_iff.mp hempty).2
        rw [hunseen.2.1] at hno
        cases hno
      · rintro ⟨halone, -⟩
        have hpath : e.path = "" := by
          by_contra hpath
          exact halone ⟨hempty, hpath⟩
        exact answered_of_accepted (hvalid.mpr hpath) hanswers
  | false =>
      have halone : ¬ PathAlone e := fun ha => Bool.false_ne_true (hempty.symm.trans ha.1)
      cases hs : e.checkSelection with
      | false =>
          obtain ⟨hshown, hcleared⟩ := @answers_refused lib m e hempty hs
          have hv : ¬ ValidQuery e :=
            fun hv => Bool.false_ne_true (hs.symm.trans (validQuery_iff.mp hv).1)
          have hnumber : ¬ UnseenNumber m e := fun hu => Bool.false_ne_true (hs.symm.trans hu.1)
          exact iff_of_true (answered_of_refused hv hshown hcleared) ⟨halone, hnumber⟩
      | true =>
          by_cases hn : e.eventKey.hasNumber = true → e.eventKey.position.isSome = true
          · -- the number is accepted or missing: every branch answers
            have hanswers : (asJsonString lib m e).2 = true ∧ (m.clear e.eventKey).1 = true := by
              cases hm : m.lookup e.eventKey.getKey with
              | none => exact answers_missing hempty hs hm
              | some history => exact answers_found hempty hs hm hn
            have hnumber : ¬ UnseenNumber m e := by
              intro hu
              have hp := hn hu.2.1
              rw [EventKey.position, hu.2.2.1] at hp
              cases hp
            exact iff_of_true (answered_of_accepted (validQuery_iff.mpr ⟨hs, hn⟩) hanswers)
              ⟨halone, hnumber⟩
          · have hinvalid : ¬ ValidQuery e := fun hv => hn (validQuery_iff.mp hv).2
            obtain ⟨hnumber, hp⟩ := Classical.not_imp.mp hn
            have hp : e.eventKey.position = none := Option.not_isSome_iff_eq_none.mp hp
            cases hm : m.lookup e.eventKey.getKey with
            | none =>
                -- accepted though its number is not
                have hanswers := @answers_missing lib m e hempty hs hm
                refine iff_of_false (fun ha => hinvalid (ha.verdict.mp hanswers.1)) ?_
                exact fun h => h.2 ⟨hs, hnumber, hp, hm⟩
            | some history =>
                obtain ⟨hshown, hcleared⟩ := @answers_number lib m e hempty hs history hm hnumber hp
                have hfound : ¬ UnseenNumber m e := by
                  intro hu
                  cases hm.symm.trans hu.2.2.2
                exact iff_of_true (answered_of_refused hinvalid hshown fun _ => hcleared)
                  ⟨halone, hfound⟩

/-- A query with a path alone. -/
def bodyAlone : EventLocationKey := ⟨⟨.ofServer "" "", ""⟩, "/requestBody"⟩

/-- A number that is none, for a key. -/
def badNumber : EventLocationKey := ⟨⟨.ofServer "GET" "/a", "x"⟩, ""⟩

/-- A store with one event. -/
def oneEvent : MockData MockEvent :=
  (∅ : MockData MockEvent).insert "GET#/a" ⟨.ofServer "GET" "/a", [⟨"initial", 1, .null⟩], ∅⟩

/-- A path alone shows the whole store; and `x` is accepted as a number where the key
    is missing, and refused where it is not. -/
theorem invalid_queries_accepted :
    ¬ ValidQuery bodyAlone ∧ (asJsonString idleLib oneEvent bodyAlone).2 = true
      ∧ ¬ ValidQuery badNumber ∧ (asJsonString idleLib ∅ badNumber).2 = true
      ∧ (asJsonString idleLib oneEvent badNumber).2 = false
      ∧ ((∅ : MockData MockEvent).clear badNumber.eventKey).1 = true
      ∧ ¬ AnsweredByValidity idleLib oneEvent bodyAlone
      ∧ ¬ AnsweredByValidity idleLib ∅ badNumber := by
  have hbody : ¬ ValidQuery bodyAlone := by
    intro hv
    cases hv.path (by decide)
  have hnumber : ¬ ValidQuery badNumber := by
    intro hv
    cases (hv.number rfl).2
  refine ⟨hbody, rfl, hnumber, rfl, rfl, rfl, ?_, ?_⟩
  · exact fun ha => hbody (ha.verdict.mp rfl)
  · exact fun ha => hnumber (ha.verdict.mp rfl)

end H2Query
