import H2agent.KeyedListProofs
import H2agent.TrafficServerProofs

/-! # Switching the matching algorithm

    `AdminServerMatchingData::load` and the loads of `AdminServerProvisionData`.  The
    key of a provision is compiled as a regular expression when the provision is
    loaded, and only if `RegexMatching` is the algorithm at that time; the lookup of
    `RegexMatching` uses what was compiled.  So a provision loaded under another
    algorithm is found by no expression after the switch.

    The ledger says what the selection is for: the last document of every key, in the
    order in which the keys came, and the algorithm of now.  The model of the code
    mirrors the ledger (`run_mirrors`), and `selection_follows_documents_iff` says
    when the provision selected is the one the documents call for. -/

namespace H2Matching

open H2Convert H2Key H2ServerProvision H2Traffic H2Transformation JsonValue KeyedList StepRun

/-! ## Documents -/

/-- A server matching document. -/
structure MatchingDocument where
  algorithm : AlgorithmType
  rgx : Option String := none
  fmt : Option String := none
  uriPathQueryParametersFilter : UriPathQueryParametersFilterType := .Sort
  uriPathQueryParametersSeparator : UriPathQueryParametersSeparatorType := .Ampersand

/-- A server provision document, as far as it is read. -/
structure ProvisionDocument where
  requestMethod : String
  requestUri : String
  provision : AdminServerProvision

/-- The key of the provision. -/
def ProvisionDocument.key (doc : ProvisionDocument) : String :=
  calculateStringKey doc.provision.inState doc.requestMethod doc.requestUri

/-- The document behind a provision. -/
def document (p : Provisioned) : ProvisionDocument := ⟨p.requestMethod, p.requestUri, p.provision⟩

section Loads

variable (compiles : String → Bool)

/-- `AdminServerMatchingData::load`; `none` is `BadContent`.  The texts the library
    accepts as regular expressions are those that compile. -/
def MatchingDocument.load (doc : MatchingDocument) : Option Config :=
  if !(doc.rgx.all compiles) then none
  else
    let complete := match doc.algorithm with
      | .FullMatching => !(doc.rgx.isSome || doc.fmt.isSome)
      | .FullMatchingRegexReplace => doc.rgx.isSome && doc.fmt.isSome
      | .RegexMatching => !(doc.rgx.isSome || doc.fmt.isSome)
    if complete then
      some ⟨doc.algorithm, doc.rgx.getD "", doc.fmt.getD "", doc.uriPathQueryParametersFilter,
        doc.uriPathQueryParametersSeparator⟩
    else none

/-- `AdminServerProvision::load`; `none` is `BadContent`. -/
def ProvisionDocument.load (regexMatchingConfigured : Bool) (doc : ProvisionDocument) :
    Option Provisioned :=
  if regexMatchingConfigured then
    if compiles doc.key then
      some ⟨doc.requestMethod, doc.requestUri, some doc.key, doc.provision⟩
    else none
  else some ⟨doc.requestMethod, doc.requestUri, none, doc.provision⟩

/-- `AdminServerProvisionData::load` of an array: the first document refused ends it. -/
def loadProvisions (regexMatchingConfigured : Bool) :
    List ProvisionDocument → AdminServerProvisionData → AdminServerProvisionData
  | [], d => d
  | doc :: docs, d =>
      match doc.load compiles regexMatchingConfigured with
      | none => d
      | some p => loadProvisions regexMatchingConfigured docs (d.add p)

/-- The administrative operations on matching and provisions. -/
inductive AdminAct where
  | loadMatching (doc : MatchingDocument)
  | loadProvisions (docs : List ProvisionDocument)
  | clearProvisions

/-- One operation on the server. -/
def adminStep (s : TrafficServer) : AdminAct → TrafficServer
  | .loadMatching doc =>
      match doc.load compiles with
      | none => s
      | some c => { s with matching := c }
  | .loadProvisions docs =>
      { s with
        provisions := loadProvisions compiles (s.matching.algorithm == .RegexMatching) docs
          s.provisions }
  | .clearProvisions => { s with provisions := ⟨∅, []⟩ }

/-! ## The ledger -/

/-- The last document of a key, and whether `RegexMatching` was configured when it was
    loaded. -/
structure Entry where
  doc : ProvisionDocument
  underRegex : Bool

/-- The key of the document. -/
def Entry.key (e : Entry) : String := e.doc.key

/-- What `load` made of the document. -/
def Entry.provisioned (e : Entry) : Provisioned :=
  ⟨e.doc.requestMethod, e.doc.requestUri, if e.underRegex then some e.key else none,
    e.doc.provision⟩

/-- The matching configuration and the documents, one per key, in the order in which the
    keys came first.  What was loaded under `RegexMatching` did compile. -/
structure Ledger where
  matching : Config
  entries : List Entry
  distinct : (entries.map Entry.key).Nodup
  compiled : ∀ e ∈ entries, e.underRegex = true → compiles e.key = true

variable {compiles}

namespace Ledger

/-- The documents. -/
def documents (l : Ledger compiles) : List ProvisionDocument := l.entries.map Entry.doc

/-- Another configuration. -/
def configure (l : Ledger compiles) (c : Config) : Ledger compiles :=
  ⟨c, l.entries, l.distinct, l.compiled⟩

/-- No documents. -/
def cleared (l : Ledger compiles) : Ledger compiles :=
  ⟨l.matching, [], List.nodup_nil, fun _ h => nomatch h⟩

/-- One more document that was accepted. -/
def enter (l : Ledger compiles) (e : Entry)
    (h : e.underRegex = true → compiles e.key = true) : Ledger compiles where
  matching := l.matching
  entries := put Entry.key e l.entries
  distinct := nodup_put e l.distinct
  compiled x hx := by
    rcases mem_put hx with rfl | hx
    · exact h
    · exact l.compiled x hx

/-- The documents of a load, up to the first one refused. -/
def enterAll (l : Ledger compiles) : List ProvisionDocument → Ledger compiles
  | [] => l
  | doc :: docs =>
      if h : l.matching.algorithm = .RegexMatching ∧ compiles doc.key = false then l
      else
        enterAll (l.enter ⟨doc, l.matching.algorithm == .RegexMatching⟩ (by
          intro hregex
          by_contra hc
          exact h ⟨beq_iff_eq.mp hregex, Bool.eq_false_iff.mpr hc⟩)) docs

/-- One operation on the ledger. -/
def step (l : Ledger compiles) : AdminAct → Ledger compiles
  | .loadMatching doc =>
      match doc.load compiles with
      | none => l
      | some c => l.configure c
  | .loadProvisions docs => l.enterAll docs
  | .clearProvisions => l.cleared

/-- The ledger of a server without provisions. -/
def start : Ledger compiles := ⟨{}, [], List.nodup_nil, fun _ h => nomatch h⟩

end Ledger

/-! ## The code keeps the ledger -/

/-- The server holds what the ledger says. -/
structure Mirrors (s : TrafficServer) (l : Ledger compiles) : Prop where
  matching : s.matching = l.matching
  order : s.provisions.orderedKeys = l.entries.map Entry.key
  lookup : ∀ k, s.provisions.map.lookup k = (entryOf Entry.key k l.entries).map Entry.provisioned

theorem load_eq (regexMatchingConfigured : Bool) (doc : ProvisionDocument) :
    doc.load compiles regexMatchingConfigured
      = if regexMatchingConfigured = true ∧ compiles doc.key = false then none
        else some (Entry.provisioned ⟨doc, regexMatchingConfigured⟩) := by
  rw [ProvisionDocument.load]
  cases regexMatchingConfigured with
  | false => rfl
  | true =>
      cases hc : compiles doc.key with
      | false => rfl
      | true => rfl

theorem mirrors_enter {s : TrafficServer} {l : Ledger compiles} (h : Mirrors s l) (e : Entry)
    (he : e.underRegex = true → compiles e.key = true) :
    Mirrors { s with provisions := s.provisions.add e.provisioned } (l.enter e he) := by
  have hkey : e.provisioned.getKey = e.key := rfl
  refine ⟨h.matching, ?_, ?_⟩
  · have hsome : (s.provisions.map.lookup e.provisioned.getKey).isSome = true
        ↔ e.key ∈ l.entries.map Entry.key := by
      rw [hkey, h.lookup, Option.isSome_map, entryOf_isSome]
    simp only [AdminServerProvisionData.add, Ledger.enter, keys_put, h.order]
    by_cases hmem : e.key ∈ l.entries.map Entry.key
    · rw [if_pos hmem, if_pos (hsome.mpr hmem)]
    · rw [if_neg hmem, if_neg (fun h => hmem (hsome.mp h)), hkey]
  · intro k
    simp only [AdminServerProvisionData.add, hkey, Ledger.enter, entryOf_put]
    by_cases hk : k = e.key
    · rw [if_pos hk, hk, AList.lookup_insert]
      rfl
    · rw [if_neg hk, AList.lookup_insert_ne hk, h.lookup]

theorem mirrors_enterAll (docs : List ProvisionDocument) {s : TrafficServer} {l : Ledger compiles}
    (h : Mirrors s l) {regexMatchingConfigured : Bool}
    (hregex : regexMatchingConfigured = (l.matching.algorithm == .RegexMatching)) :
    Mirrors { s with
      provisions := loadProvisions compiles regexMatchingConfigured docs s.provisions }
      (l.enterAll docs) := by
  induction docs generalizing s l with
  | nil => exact h
  | cons doc docs ih =>
      simp only [loadProvisions, Ledger.enterAll, load_eq]
      by_cases hrefused : l.matching.algorithm = .RegexMatching ∧ compiles doc.key = false
      · rw [dif_pos hrefused, if_pos ⟨hregex.trans (beq_iff_eq.mpr hrefused.1), hrefused.2⟩]
        exact h
      · rw [dif_neg hrefused,
          if_neg (fun hr => hrefused ⟨beq_iff_eq.mp (hregex.symm.trans hr.1), hr.2⟩), hregex]
        rw [hregex] at ih
        exact ih (mirrors_enter h _ _) rfl

theorem step_mirrors {s : TrafficServer} {l : Ledger compiles} (h : Mirrors s l) (a : AdminAct) :
    Mirrors (adminStep compiles s a) (l.step a) := by
  cases a with
  | loadMatching doc =>
      rw [adminStep, Ledger.step]
      cases doc.load compiles with
      | none => exact h
      | some c => exact ⟨rfl, h.order, h.lookup⟩
  | loadProvisions docs =>
      refine mirrors_enterAll docs h ?_
      rw [h.matching]
  | clearProvisions => exact ⟨h.matching, rfl, fun k => by rw [adminStep, AList.lookup_empty]; rfl⟩

/-- **THE CODE KEEPS THE LEDGER** along every run. -/
theorem run_mirrors (acts : List AdminAct) {s : TrafficServer} {l : Ledger compiles}
    (h : Mirrors s l) : Mirrors (run (adminStep compiles) s acts) (run Ledger.step l acts) := by
  induction acts generalizing s l with
  | nil => exact h
  | cons a acts ih => exact ih (step_mirrors h a)

/-- A server that was just started. -/
def started (w : World) : TrafficServer := { world := w }

theorem mirrors_start (w : World) : Mirrors (started w) (Ledger.start : Ledger compiles) :=
  ⟨rfl, rfl, fun k => by rw [started, AList.lookup_empty]; rfl⟩

/-! ## Selection -/

variable (lib : Lib) (inState method uri : String)

/-- The key of a document matches the key searched. -/
def fits (doc : ProvisionDocument) : Bool :=
  (lib.regexMatch doc.key (calculateStringKey inState method uri)).isSome

/-- What the documents call for: the selection from a matching configuration and
    documents, whenever they were loaded. -/
def selectDocument (compiles : String → Bool) (c : Config) (docs : List ProvisionDocument) :
    Option ProvisionDocument :=
  let found := match c.algorithm with
    | .FullMatching => entryOf ProvisionDocument.key (calculateStringKey inState method uri) docs
    | .FullMatchingRegexReplace =>
        entryOf ProvisionDocument.key
          (calculateStringKey inState method (lib.regexReplace c.rgx uri c.fmt)) docs
    | .RegexMatching =>
        docs.find? (fun doc => compiles doc.key && fits lib inState method uri doc)
  match found with
  | some doc => some doc
  | none => entryOf ProvisionDocument.key (calculateStringKey inState method "") docs

namespace Ledger

variable (l : Ledger compiles)

/-- The entry whose key is the first to match. -/
def firstFit : Option Entry :=
  l.entries.find? (fun e => compiles e.key && fits lib inState method uri e.doc)

/-- The entry `findRegexMatching` finds: of those loaded under `RegexMatching`. -/
def firstCompiledFit : Option Entry :=
  l.entries.find? (fun e => e.underRegex && fits lib inState method uri e.doc)

/-- Under `RegexMatching` the first document that matches was loaded under it, or it is
    the default provision, reached because no document loaded under it matches. -/
def Compiled : Prop :=
  l.matching.algorithm = .RegexMatching →
    ∀ e, l.firstFit lib inState method uri = some e →
      e.underRegex = true
        ∨ (e.key = calculateStringKey inState method ""
          ∧ ∀ x ∈ l.entries, x.underRegex = true → fits lib inState method uri x.doc = false)

/-- The entry a server selects. -/
def selected : Option Entry :=
  let found := match l.matching.algorithm with
    | .FullMatching => entryOf Entry.key (calculateStringKey inState method uri) l.entries
    | .FullMatchingRegexReplace =>
        entryOf Entry.key (calculateStringKey inState method
          (lib.regexReplace l.matching.rgx uri l.matching.fmt)) l.entries
    | .RegexMatching => l.firstCompiledFit lib inState method uri
  match found with
  | some e => some e
  | none => entryOf Entry.key (calculateStringKey inState method "") l.entries

theorem entryOf_documents (k : String) :
    entryOf ProvisionDocument.key k l.documents
      = (entryOf Entry.key k l.entries).map Entry.doc := by
  rw [entryOf, documents, List.find?_map]
  rfl

theorem find_documents :
    l.documents.find? (fun doc => compiles doc.key && fits lib inState method uri doc)
      = (l.firstFit lib inState method uri).map Entry.doc := by
  rw [documents, List.find?_map]
  rfl

/-- Two entries with one document are one entry. -/
theorem eq_of_doc_eq {e x : Entry} (he : e ∈ l.entries) (hx : x ∈ l.entries)
    (h : e.doc = x.doc) : e = x :=
  eq_of_key_eq l.distinct he hx (congrArg ProvisionDocument.key h)

theorem firstCompiledFit_of_underRegex {e : Entry}
    (h : l.firstFit lib inState method uri = some e) (he : e.underRegex = true) :
    l.firstCompiledFit lib inState method uri = some e := by
  obtain ⟨hfit, before, after, hsplit, hbefore⟩ := List.find?_eq_some_iff_append.mp h
  rw [Bool.and_eq_true] at hfit
  refine List.find?_eq_some_iff_append.mpr ⟨by rw [he, hfit.2]; rfl, before, after, hsplit, ?_⟩
  intro x hx
  have hmem : x ∈ l.entries := by
    rw [hsplit]
    exact List.mem_append_left _ hx
  have hno := hbefore x hx
  cases hr : x.underRegex with
  | false => rfl
  | true =>
      rw [l.compiled x hmem hr] at hno
      exact hno

theorem firstCompiledFit_none (h : l.firstFit lib inState method uri = none) :
    l.firstCompiledFit lib inState method uri = none := by
  refine List.find?_eq_none.mpr fun x hx => ?_
  have hno := List.find?_eq_none.mp h x hx
  cases hr : x.underRegex with
  | false => simp
  | true =>
      rw [l.compiled x hx hr] at hno
      exact hno

/-- What the documents of the ledger call for. -/
theorem selectDocument_eq :
    selectDocument lib inState method uri compiles l.matching l.documents
      = match l.matching.algorithm with
        | .RegexMatching =>
            (match l.firstFit lib inState method uri with
              | some e => some e
              | none => entryOf Entry.key (calculateStringKey inState method "") l.entries).map
              Entry.doc
        | _ => (l.selected lib inState method uri).map Entry.doc := by
  simp only [selectDocument, selected, entryOf_documents, find_documents]
  cases halg : l.matching.algorithm with
  | FullMatching =>
      cases entryOf Entry.key (calculateStringKey inState method uri) l.entries <;> rfl
  | FullMatchingRegexReplace =>
      cases entryOf Entry.key (calculateStringKey inState method
        (lib.regexReplace l.matching.rgx uri l.matching.fmt)) l.entries <;> rfl
  | RegexMatching => cases l.firstFit lib inState method uri <;> rfl

theorem mem_of_selected {e : Entry} (h : l.selected lib inState method uri = some e) :
    e ∈ l.entries := by
  simp only [selected] at h
  split at h
  · next found hfound =>
      cases h
      split at hfound
      · exact List.mem_of_find?_eq_some hfound
      · exact List.mem_of_find?_eq_some hfound
      · exact List.mem_of_find?_eq_some hfound
  · exact List.mem_of_find?_eq_some h

/-- Under `RegexMatching`, when some document matches, the selection is that document
    exactly when it was compiled or stands as the default behind no other. -/
theorem selected_firstFit {e : Entry} (halg : l.matching.algorithm = .RegexMatching)
    (hfit : l.firstFit lib inState method uri = some e) :
    l.selected lib inState method uri = some e ↔
      (e.underRegex = true
        ∨ (e.key = calculateStringKey inState method ""
          ∧ ∀ x ∈ l.entries, x.underRegex = true → fits lib inState method uri x.doc = false)) := by
  have hmem : e ∈ l.entries := List.mem_of_find?_eq_some hfit
  simp only [selected, halg]
  cases he : e.underRegex with
  | true =>
      rw [l.firstCompiledFit_of_underRegex lib inState method uri hfit he]
      exact ⟨fun _ => .inl rfl, fun _ => rfl⟩
  | false =>
      cases hfound : l.firstCompiledFit lib inState method uri with
      | some x =>
          have hx : x ∈ l.entries := List.mem_of_find?_eq_some hfound
          have hxfit := List.find?_some hfound
          rw [Bool.and_eq_true] at hxfit
          constructor
          · intro hsame
            rw [Option.some.inj hsame, he] at hxfit
            exact nomatch hxfit.1
          · rintro (hunder | ⟨-, hnone⟩)
            · exact nomatch hunder
            · rw [hnone x hx hxfit.1] at hxfit
              exact nomatch hxfit.2
      | none =>
          have hnone : ∀ x ∈ l.entries, x.underRegex = true →
              fits lib inState method uri x.doc = false := by
            intro x hx hunder
            have hno := List.find?_eq_none.mp hfound x hx
            rw [hunder, Bool.true_and, Bool.not_eq_true] at hno
            exact hno
          constructor
          · intro hdefault
            have hkey := List.find?_some hdefault
            exact .inr ⟨of_decide_eq_true hkey, hnone⟩
          · rintro (hunder | ⟨hkey, -⟩)
            · exact nomatch hunder
            · show entryOf Entry.key (calculateStringKey inState method "") l.entries = some e
              rw [← hkey]
              exact entryOf_of_mem l.distinct hmem

/-- The entry selected has the document called for exactly when the key it is found by
    was compiled. -/
theorem selected_follows_iff :
    (l.selected lib inState method uri).map Entry.doc
        = selectDocument lib inState method uri compiles l.matching l.documents
      ↔ l.Compiled lib inState method uri := by
  rw [selectDocument_eq, Compiled]
  cases halg : l.matching.algorithm with
  | FullMatching => exact ⟨fun _ h => (nomatch h), fun _ => rfl⟩
  | FullMatchingRegexReplace => exact ⟨fun _ h => (nomatch h), fun _ => rfl⟩
  | RegexMatching =>
      cases hfit : l.firstFit lib inState method uri with
      | none =>
          refine ⟨fun _ _ e he => (nomatch he), fun _ => ?_⟩
          simp only [selected, halg, l.firstCompiledFit_none lib inState method uri hfit]
      | some e =>
          have hiff := l.selected_firstFit lib inState method uri halg hfit
          have hmem : e ∈ l.entries := List.mem_of_find?_eq_some hfit
          constructor
          · intro hdoc _ x hx
            cases hx
            obtain ⟨x, hselected, hx⟩ := Option.map_eq_some_iff.mp hdoc
            have hsame :=
              l.eq_of_doc_eq (l.mem_of_selected lib inState method uri hselected) hmem hx
            rw [hsame] at hselected
            exact hiff.mp hselected
          · intro h
            rw [hiff.mpr (h rfl e rfl)]

end Ledger

/-- The server selects the entry of the ledger. -/
theorem select_mirrors {s : TrafficServer} {l : Ledger compiles} (h : Mirrors s l) :
    s.select lib inState method uri
      = (l.selected lib inState method uri).map Entry.provisioned := by
  have hfind : ∀ u, s.provisions.find inState method u
      = (entryOf Entry.key (calculateStringKey inState method u) l.entries).map
        Entry.provisioned := fun u => h.lookup _
  have hregex : s.provisions.findRegexMatching lib inState method uri
      = (l.firstCompiledFit lib inState method uri).map Entry.provisioned := by
    have hlist : s.provisions.orderedKeys.filterMap (fun k => s.provisions.map.lookup k)
        = l.entries.map Entry.provisioned := by
      rw [h.order]
      simp only [h.lookup]
      rw [← List.map_filterMap, filterMap_entryOf l.distinct]
    rw [AdminServerProvisionData.findRegexMatching, hlist, List.find?_map,
      Ledger.firstCompiledFit]
    congr 2
    funext e
    cases he : e.underRegex <;> simp [Entry.provisioned, he, fits, Entry.key]
  simp only [TrafficServer.select, Ledger.selected, h.matching, hfind, hregex]
  cases halg : l.matching.algorithm with
  | FullMatching =>
      cases entryOf Entry.key (calculateStringKey inState method uri) l.entries <;> rfl
  | FullMatchingRegexReplace =>
      cases entryOf Entry.key (calculateStringKey inState method
        (lib.regexReplace l.matching.rgx uri l.matching.fmt)) l.entries <;> rfl
  | RegexMatching => cases l.firstCompiledFit lib inState method uri <;> rfl

/-- **THE SELECTION FOLLOWS THE DOCUMENTS** exactly when what it looks for was compiled:
    after any sequence of matching loads, provision loads and clears, the provision
    selected for a state, a method and a URI is the one that the configuration of now and
    the last document of every key call for, whenever they were loaded, if and only if,
    under `RegexMatching`, the first document that matches was loaded under it.  So two
    such sequences that end with one configuration and the same documents select alike. -/
theorem selection_follows_documents_iff (w : World) (acts : List AdminAct) :
    (((run (adminStep compiles) (started w) acts).select lib inState method uri).map document
        = selectDocument lib inState method uri compiles
          (run Ledger.step (Ledger.start : Ledger compiles) acts).matching
          (run Ledger.step (Ledger.start : Ledger compiles) acts).documents
      ↔ (run Ledger.step (Ledger.start : Ledger compiles) acts).Compiled lib inState method uri)
    ∧ ∀ acts' : List AdminAct,
        (run Ledger.step (Ledger.start : Ledger compiles) acts').matching
          = (run Ledger.step (Ledger.start : Ledger compiles) acts).matching →
        (run Ledger.step (Ledger.start : Ledger compiles) acts').documents
          = (run Ledger.step (Ledger.start : Ledger compiles) acts).documents →
        (run Ledger.step (Ledger.start : Ledger compiles) acts).Compiled lib inState method uri →
        (run Ledger.step (Ledger.start : Ledger compiles) acts').Compiled lib inState method uri →
        ((run (adminStep compiles) (started w) acts').select lib inState method uri).map document
          = ((run (adminStep compiles) (started w) acts).select lib inState method uri).map
            document := by
  have hselect : ∀ acts : List AdminAct,
      ((run (adminStep compiles) (started w) acts).select lib inState method uri).map document
        = ((run Ledger.step (Ledger.start : Ledger compiles) acts).selected lib inState method
          uri).map Entry.doc := by
    intro acts
    rw [select_mirrors lib inState method uri (run_mirrors acts (mirrors_start w)),
      Option.map_map]
    rfl
  refine ⟨?_, ?_⟩
  · rw [hselect]
    exact Ledger.selected_follows_iff lib inState method uri _
  · intro acts' hmatching hdocs hcompiled hcompiled'
    rw [hselect, hselect, (Ledger.selected_follows_iff lib inState method uri _).mpr hcompiled,
      (Ledger.selected_follows_iff lib inState method uri _).mpr hcompiled', hmatching, hdocs]

end Loads

/-- A library that is asked for expressions that end in `.*` only. -/
def prefixLib : Lib :=
  { idleLib with
    regexMatch := fun regex text =>
      if (regex.toList.take (regex.toList.length - 2)).isPrefixOf text.toList then some [text]
      else none }

/-- A provision for every URI below `/a/`. -/
def below : ProvisionDocument :=
  ⟨"GET", "/a/.*", { outState := "initial", responseCode := 200 }⟩

/-- The configuration of `RegexMatching`. -/
def regexMatching : AdminAct := .loadMatching { algorithm := .RegexMatching }

/-- Loaded behind the switch the provision is selected, loaded before it is not. -/
theorem switch_hides_provision :
    (run Ledger.step (Ledger.start : Ledger (fun _ => true))
        [.loadProvisions [below], regexMatching]).documents
      = (run Ledger.step (Ledger.start : Ledger (fun _ => true))
        [regexMatching, .loadProvisions [below]]).documents
    ∧ (run Ledger.step (Ledger.start : Ledger (fun _ => true))
        [.loadProvisions [below], regexMatching]).matching
      = (run Ledger.step (Ledger.start : Ledger (fun _ => true))
        [regexMatching, .loadProvisions [below]]).matching
    ∧ ((run (adminStep (fun _ => true)) (started World.blank)
        [regexMatching, .loadProvisions [below]]).select prefixLib "initial" "GET"
          "/a/b").isSome = true
    ∧ ((run (adminStep (fun _ => true)) (started World.blank)
        [.loadProvisions [below], regexMatching]).select prefixLib "initial" "GET"
          "/a/b").isSome = false := by
  refine ⟨rfl, rfl, ?_, ?_⟩
  · decide
  · decide

end H2Matching
