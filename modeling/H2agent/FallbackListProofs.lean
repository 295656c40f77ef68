/-! # Lists of items with fallback lists

    An item is passed over a state: it is skipped, turned down, done, or ends in
    a fault.  A turned down item is followed by its own fallback list, which
    holds items of the same kind, to any depth.

    Two loops run such lists.  `runMain` looks at a stop flag before each item
    of the outermost list; `runAll`, which runs the fallback lists, never looks
    at it.  The traces list the items both loops pass, with the state each one
    leaves and whether items are left in the fallback lists around it.

    * `stops_iff` — the item that raises the flag is the last one passed, and
      the run ends in the state it left, exactly when nothing is left in the
      fallback lists around the items that raise it;
    * `runMain_inline` — with the flag down, a turned down item runs on as its
      fallback list in its place;
    * `runMain_sim` — a relation kept by every item is kept by every run;
    * `traceMain_along` — an invariant kept by the items that meet a condition holds all along
      a run of such items. -/

namespace FallbackList

/-- A list of items, each with its fallback list. -/
inductive Items (δ : Type) where
  | nil
  | cons (item : δ) (onFail rest : Items δ)

/-- What passing an item ends in.  The flag of `done` is the answer of the last
    stage, which no loop looks at. -/
inductive Outcome (σ ε : Type) where
  | skip (s : σ)
  | turnedDown (s : σ)
  | done (flag : Bool) (s : σ)
  | fault (e : ε)

variable {δ σ ε : Type}

namespace Items

/-- Whether there are no items. -/
def isNil : Items δ → Bool
  | .nil => true
  | .cons _ _ _ => false

/-- One list after another, at the outermost level. -/
def append : Items δ → Items δ → Items δ
  | .nil, l => l
  | .cons d f r, l => .cons d f (r.append l)

/-- The items of the outermost level. -/
def outer : Items δ → List δ
  | .nil => []
  | .cons d _ r => d :: r.outer

/-- Every item, at any depth, has a property. -/
def All (P : δ → Prop) : Items δ → Prop
  | .nil => True
  | .cons d f r => P d ∧ f.All P ∧ r.All P

/-- Some item, at any depth, has a property. -/
def Somewhere (P : δ → Prop) : Items δ → Prop
  | .nil => False
  | .cons d f r => P d ∨ f.Somewhere P ∨ r.Somewhere P

/-- Some item of a fallback list, at any depth, has a property. -/
def Nested (P : δ → Prop) : Items δ → Prop
  | .nil => False
  | .cons _ f r => f.Somewhere P ∨ r.Nested P

theorem all_of_forall {P : δ → Prop} (h : ∀ d, P d) (l : Items δ) : l.All P := by
  induction l with
  | nil => exact trivial
  | cons d f r ihf ihr => exact ⟨h d, ihf, ihr⟩

theorem All.mono {P Q : δ → Prop} (h : ∀ d, P d → Q d) {l : Items δ} (hl : l.All P) : l.All Q := by
  induction l with
  | nil => exact trivial
  | cons d f r ihf ihr => exact ⟨h d hl.1, ihf hl.2.1, ihr hl.2.2⟩

/-- Every item is somewhere. -/
theorem all_somewhere (l : Items δ) : l.All (fun d => ∀ P : δ → Prop, P d → l.Somewhere P) := by
  induction l with
  | nil => exact trivial
  | cons d f r ihf ihr =>
      refine ⟨fun _ hd => .inl hd, ihf.mono ?_, ihr.mono ?_⟩
      · exact fun e he P hP => .inr (.inl (he P hP))
      · exact fun e he P hP => .inr (.inr (he P hP))

/-- An item is in the outermost list, or in a fallback list below it. -/
theorem somewhere_iff (P : δ → Prop) (l : Items δ) :
    l.Somewhere P ↔ (∃ d ∈ l.outer, P d) ∨ l.Nested P := by
  induction l with
  | nil => simp [Somewhere, outer, Nested]
  | cons d f r _ ihr =>
      have hcons : (∃ e ∈ d :: r.outer, P e) ↔ P d ∨ ∃ e ∈ r.outer, P e := by simp
      rw [Somewhere, outer, Nested, ihr, hcons]
      constructor
      · rintro (h | h | h | h)
        · exact .inl (.inl h)
        · exact .inr (.inl h)
        · exact .inl (.inr h)
        · exact .inr (.inr h)
      · rintro ((h | h) | h | h)
        · exact .inl h
        · exact .inr (.inr (.inl h))
        · exact .inr (.inl h)
        · exact .inr (.inr (.inr h))

end Items

/-! ## The two loops -/

/-- Continue with the state of a run that did not end in a fault. -/
def andThen (r : Except ε σ) (next : σ → Except ε σ) : Except ε σ :=
  match r with
  | .ok s => next s
  | .error e => .error e

/-- The loop over a fallback list. -/
def runAll (pass : δ → σ → Outcome σ ε) : Items δ → σ → Except ε σ
  | .nil, s => .ok s
  | .cons d f r, s =>
      match pass d s with
      | .skip t => runAll pass r t
      | .done _ t => runAll pass r t
      | .turnedDown t => andThen (runAll pass f t) (runAll pass r)
      | .fault e => .error e

/-- The loop over the outermost list: the flag is looked at before each item,
    and `enter` makes the state ready for it. -/
def runMain (stop : σ → Bool) (enter : σ → σ) (pass : δ → σ → Outcome σ ε) :
    Items δ → σ → Except ε σ
  | .nil, s => .ok s
  | .cons d f r, s =>
      if stop s then .ok s
      else
        match pass d (enter s) with
        | .skip t => runMain stop enter pass r t
        | .done _ t => runMain stop enter pass r t
        | .turnedDown t => andThen (runAll pass f t) (runMain stop enter pass r)
        | .fault e => .error e

/-! ## Traces -/

/-- An item that was passed: the state it was passed from, the one it left (none
    when it ended in a fault), and whether items were left in the fallback lists
    around it. -/
structure Entry (δ σ : Type) where
  item : δ
  before : σ
  after : Option σ
  left : Bool

/-- The entries of a run continued after one that may have ended in a fault. -/
def entriesAfter (r : Except ε σ) (next : σ → List (Entry δ σ)) : List (Entry δ σ) :=
  match r with
  | .ok s => next s
  | .error _ => []

/-- The items the fallback loop passes; `left` tells of the lists around it. -/
def traceAll (pass : δ → σ → Outcome σ ε) : Bool → Items δ → σ → List (Entry δ σ)
  | _, .nil, _ => []
  | left, .cons d f r, s =>
      match pass d s with
      | .skip t => ⟨d, s, some t, left || !r.isNil⟩ :: traceAll pass left r t
      | .done _ t => ⟨d, s, some t, left || !r.isNil⟩ :: traceAll pass left r t
      | .turnedDown t =>
          ⟨d, s, some t, left || !r.isNil || !f.isNil⟩ ::
            (traceAll pass (left || !r.isNil) f t
              ++ entriesAfter (runAll pass f t) (traceAll pass left r))
      | .fault _ => [⟨d, s, none, left || !r.isNil⟩]

/-- The items the outermost loop passes.  Its own rest does not count as left:
    the flag is looked at before each item of it. -/
def traceMain (stop : σ → Bool) (enter : σ → σ) (pass : δ → σ → Outcome σ ε) :
    Items δ → σ → List (Entry δ σ)
  | .nil, _ => []
  | .cons d f r, s =>
      if stop s then []
      else
        match pass d (enter s) with
        | .skip t => ⟨d, enter s, some t, false⟩ :: traceMain stop enter pass r t
        | .done _ t => ⟨d, enter s, some t, false⟩ :: traceMain stop enter pass r t
        | .turnedDown t =>
            ⟨d, enter s, some t, !f.isNil⟩ ::
              (traceAll pass false f t
                ++ entriesAfter (runAll pass f t) (traceMain stop enter pass r))
        | .fault _ => [⟨d, enter s, none, false⟩]

/-- The state an outcome leaves. -/
def Outcome.state : Outcome σ ε → Option σ
  | .skip s => some s
  | .turnedDown s => some s
  | .done _ s => some s
  | .fault _ => none

/-! ### Invariants of the loops -/

section Invariants

variable {I : σ → Prop} {P : δ → Prop} {pass : δ → σ → Outcome σ ε}

/-- What every item of a kind keeps, a fallback list of such items keeps. -/
theorem runAll_invariant (hpass : ∀ d s t, P d → I s → (pass d s).state = some t → I t)
    (l : Items δ) (hl : l.All P) {s u : σ} (hs : I s) (h : runAll pass l s = .ok u) : I u := by
  induction l generalizing s u with
  | nil =>
      cases h
      exact hs
  | cons d f r ihf ihr =>
      obtain ⟨hd, hlf, hlr⟩ := hl
      simp only [runAll] at h
      split at h
      · next t ht => exact ihr hlr (hpass d s t hd hs (by rw [ht]; rfl)) h
      · next flag t ht => exact ihr hlr (hpass d s t hd hs (by rw [ht]; rfl)) h
      · next t ht =>
          have hI := hpass d s t hd hs (by rw [ht]; rfl)
          cases hf : runAll pass f t with
          | error e =>
              rw [hf] at h
              cases h
          | ok t' =>
              rw [hf] at h
              exact ihr hlr (ihf hlf hI hf) h
      · cases h

/-- What every entry and every item of a kind keep, an outermost list of such items
    keeps. -/
theorem runMain_invariant {stop : σ → Bool} {enter : σ → σ} (henter : ∀ s, I s → I (enter s))
    (hpass : ∀ d s t, P d → I s → (pass d s).state = some t → I t) (l : Items δ) (hl : l.All P)
    {s u : σ} (hs : I s) (h : runMain stop enter pass l s = .ok u) : I u := by
  induction l generalizing s u with
  | nil =>
      cases h
      exact hs
  | cons d f r ihf ihr =>
      obtain ⟨hd, hlf, hlr⟩ := hl
      simp only [runMain] at h
      split at h
      · cases h
        exact hs
      · have hI := henter s hs
        split at h
        · next t ht => exact ihr hlr (hpass d _ t hd hI (by rw [ht]; rfl)) h
        · next flag t ht => exact ihr hlr (hpass d _ t hd hI (by rw [ht]; rfl)) h
        · next t ht =>
            have hIt := hpass d _ t hd hI (by rw [ht]; rfl)
            cases hf : runAll pass f t with
            | error e =>
                rw [hf] at h
                cases h
            | ok t' =>
                rw [hf] at h
                exact ihr hlr (runAll_invariant hpass f hlf hIt hf) h
        · cases h

end Invariants

/-! ### Cutting lists of entries -/

section Cuts

variable {α : Type} {a e : α} {l m pre post : List α}

theorem not_nil_cut (h : [] = pre ++ e :: post) : False :=
  List.append_ne_nil_of_right_ne_nil pre (List.cons_ne_nil e post) h.symm

/-- Where a list of entries starts with a given one or holds it further on. -/
theorem split_cons (h : a :: l = pre ++ e :: post) :
    (pre = [] ∧ a = e ∧ l = post) ∨ ∃ pre', pre = a :: pre' ∧ l = pre' ++ e :: post := by
  cases pre with
  | nil =>
      obtain ⟨h1, h2⟩ := List.cons.inj h
      exact .inl ⟨rfl, h1, h2⟩
  | cons b pre' =>
      obtain ⟨h1, h2⟩ := List.cons.inj h
      exact .inr ⟨pre', by rw [h1], h2⟩

/-- A single entry is the one a cut finds. -/
theorem split_single (h : [a] = pre ++ e :: post) : pre = [] ∧ a = e ∧ post = [] := by
  rcases split_cons h with ⟨hpre, ha, hpost⟩ | ⟨pre', _, h'⟩
  · exact ⟨hpre, ha, hpost.symm⟩
  · exact (not_nil_cut h').elim

/-- Entries cut in two lists. -/
theorem split_append (h : l ++ m = pre ++ e :: post) :
    (∃ mid, l = pre ++ e :: mid ∧ post = mid ++ m)
      ∨ ∃ mid, pre = l ++ mid ∧ m = mid ++ e :: post := by
  rcases List.append_eq_append_iff.mp h with ⟨mid, hpre, hm⟩ | ⟨mid, hl, hm⟩
  · exact .inr ⟨mid, hpre, hm⟩
  · cases mid with
    | nil => exact .inr ⟨[], by simpa using hl.symm, hm.symm⟩
    | cons e' mid =>
        obtain ⟨rfl, hpost⟩ := List.cons.inj hm
        exact .inl ⟨mid, hl, hpost⟩

/-- Entries behind a run are there when it did not end in a fault. -/
theorem split_entriesAfter {x : Except ε σ} {next : σ → List (Entry δ σ)}
    {pre post : List (Entry δ σ)} {e : Entry δ σ} (h : entriesAfter x next = pre ++ e :: post) :
    ∃ v, x = .ok v ∧ next v = pre ++ e :: post := by
  cases x with
  | error err => exact (not_nil_cut h).elim
  | ok v => exact ⟨v, rfl, h⟩

end Cuts

/-! ### An item with its fallback list -/

section Item

variable (pass : δ → σ → Outcome σ ε)

/-- The state the rest of a list is run from, once an item and its fallback list are
    through. -/
def afterItem (d : δ) (f : Items δ) (s : σ) : Except ε σ :=
  match pass d s with
  | .skip t => .ok t
  | .done _ t => .ok t
  | .turnedDown t => runAll pass f t
  | .fault e => .error e

/-- The entries of an item and its fallback list; `left` tells of what is behind. -/
def itemEntries (left : Bool) (d : δ) (f : Items δ) (s : σ) : List (Entry δ σ) :=
  match pass d s with
  | .skip t => [⟨d, s, some t, left⟩]
  | .done _ t => [⟨d, s, some t, left⟩]
  | .turnedDown t => ⟨d, s, some t, left || !f.isNil⟩ :: traceAll pass left f t
  | .fault _ => [⟨d, s, none, left⟩]

variable {pass}

theorem runAll_cons (d : δ) (f r : Items δ) (s : σ) :
    runAll pass (.cons d f r) s = andThen (afterItem pass d f s) (runAll pass r) := by
  simp only [runAll, afterItem]
  cases pass d s <;> rfl

theorem traceAll_cons (left : Bool) (d : δ) (f r : Items δ) (s : σ) :
    traceAll pass left (.cons d f r) s
      = itemEntries pass (left || !r.isNil) d f s
        ++ entriesAfter (afterItem pass d f s) (traceAll pass left r) := by
  simp only [traceAll, itemEntries, afterItem]
  cases pass d s <;> rfl

theorem runMain_cons {stop : σ → Bool} {enter : σ → σ} (d : δ) (f r : Items δ) {s : σ}
    (hs : ¬ stop s = true) :
    runMain stop enter pass (.cons d f r) s
      = andThen (afterItem pass d f (enter s)) (runMain stop enter pass r) := by
  simp only [runMain, if_neg hs, afterItem]
  cases pass d (enter s) <;> rfl

theorem traceMain_cons {stop : σ → Bool} {enter : σ → σ} (d : δ) (f r : Items δ) {s : σ}
    (hs : ¬ stop s = true) :
    traceMain stop enter pass (.cons d f r) s
      = itemEntries pass false d f (enter s)
        ++ entriesAfter (afterItem pass d f (enter s)) (traceMain stop enter pass r) := by
  simp only [traceMain, if_neg hs, itemEntries, afterItem]
  cases pass d (enter s) <;> rfl

variable (pass) in
/-- The first entry of an item is its own. -/
theorem itemEntries_head (left : Bool) (d : δ) (f : Items δ) (s : σ) :
    ∃ b rest, itemEntries pass left d f s = ⟨d, s, (pass d s).state, b⟩ :: rest := by
  simp only [itemEntries]
  cases pass d s with
  | skip t => exact ⟨_, _, rfl⟩
  | done flag t => exact ⟨_, _, rfl⟩
  | turnedDown t => exact ⟨_, _, rfl⟩
  | fault e => exact ⟨_, _, rfl⟩

/-- An entry of an item is its own, or one of its fallback list. -/
theorem itemEntries_cut {left : Bool} {d : δ} {f : Items δ} {s : σ}
    {pre post : List (Entry δ σ)} {e : Entry δ σ}
    (h : itemEntries pass left d f s = pre ++ e :: post) :
    (pre = [] ∧ e.item = d ∧ e.before = s ∧ e.after = (pass d s).state)
      ∨ ∃ u b pre', pass d s = .turnedDown u ∧ pre = ⟨d, s, some u, b⟩ :: pre'
        ∧ traceAll pass left f u = pre' ++ e :: post := by
  simp only [itemEntries] at h
  cases hp : pass d s with
  | skip t =>
      rw [hp] at h
      obtain ⟨hpre, rfl, _⟩ := split_single h
      exact .inl ⟨hpre, rfl, rfl, rfl⟩
  | done flag t =>
      rw [hp] at h
      obtain ⟨hpre, rfl, _⟩ := split_single h
      exact .inl ⟨hpre, rfl, rfl, rfl⟩
  | fault x =>
      rw [hp] at h
      obtain ⟨hpre, rfl, _⟩ := split_single h
      exact .inl ⟨hpre, rfl, rfl, rfl⟩
  | turnedDown t =>
      rw [hp] at h
      rcases split_cons h with ⟨hpre, rfl, _⟩ | ⟨pre', hpre, h'⟩
      · exact .inl ⟨hpre, rfl, rfl, rfl⟩
      · exact .inr ⟨t, _, pre', rfl, hpre, h'⟩

end Item

/-! ### Entry by entry -/

section Entries

variable {pass : δ → σ → Outcome σ ε}

/-- An entry has the state its item left. -/
theorem traceAll_after (l : Items δ) (left : Bool) (s : σ) :
    ∀ e ∈ traceAll pass left l s, e.after = (pass e.item e.before).state := by
  induction l generalizing left s with
  | nil => exact fun _ he => nomatch he
  | cons d f r ihf ihr =>
      intro e he
      obtain ⟨pre, post, h⟩ := List.append_of_mem he
      rw [traceAll_cons] at h
      rcases split_append h with ⟨mid, hitem, _⟩ | ⟨mid, _, hr⟩
      · rcases itemEntries_cut hitem with ⟨_, hd, hs, ha⟩ | ⟨u, _, pre', _, _, hf⟩
        · rw [hd, hs, ha]
        · refine ihf (left || !r.isNil) u e ?_
          rw [hf]
          exact List.mem_append_right pre' List.mem_cons_self
      · obtain ⟨v, _, hv⟩ := split_entriesAfter hr
        refine ihr left v e ?_
        rw [hv]
        exact List.mem_append_right mid List.mem_cons_self

theorem traceMain_after {stop : σ → Bool} {enter : σ → σ} (l : Items δ) (s : σ) :
    ∀ e ∈ traceMain stop enter pass l s, e.after = (pass e.item e.before).state := by
  induction l generalizing s with
  | nil => exact fun _ he => nomatch he
  | cons d f r _ ihr =>
      intro e he
      obtain ⟨pre, post, h⟩ := List.append_of_mem he
      by_cases hs : stop s = true
      · simp only [traceMain, if_pos hs] at h
        exact (not_nil_cut h).elim
      · rw [traceMain_cons d f r hs] at h
        rcases split_append h with ⟨mid, hitem, _⟩ | ⟨mid, _, hr⟩
        · rcases itemEntries_cut hitem with ⟨_, hd, hb, ha⟩ | ⟨u, _, pre', _, _, hf⟩
          · rw [hd, hb, ha]
          · refine traceAll_after f false u e ?_
            rw [hf]
            exact List.mem_append_right pre' List.mem_cons_self
        · obtain ⟨v, _, hv⟩ := split_entriesAfter hr
          refine ihr v e ?_
          rw [hv]
          exact List.mem_append_right mid List.mem_cons_self

end Entries

/-! ### The fallback loop -/

section Fallback

variable (pass : δ → σ → Outcome σ ε)

/-- Something is passed of every list that is not empty. -/
theorem traceAll_ne_nil (left : Bool) {l : Items δ} (s : σ) (hl : l.isNil = false) :
    traceAll pass left l s ≠ [] := by
  cases l with
  | nil => exact nomatch hl
  | cons d f r =>
      obtain ⟨b, rest, hitem⟩ := itemEntries_head pass (left || !r.isNil) d f s
      rw [traceAll_cons, hitem]
      exact List.cons_ne_nil _ _

/-- An entry of an item with nothing left around it is the last one, and leaves the
    state the rest is run from. -/
theorem itemEntries_last {f : Items δ}
    (ihf : ∀ (left : Bool) (s : σ) (pre post : List (Entry δ σ)) (e : Entry δ σ) (t : σ),
      traceAll pass left f s = pre ++ e :: post → e.after = some t → e.left = false →
        left = false ∧ post = [] ∧ runAll pass f s = .ok t)
    {left : Bool} {d : δ} {s t : σ} {pre post : List (Entry δ σ)} {e : Entry δ σ}
    (h : itemEntries pass left d f s = pre ++ e :: post) (ha : e.after = some t)
    (hleft : e.left = false) :
    left = false ∧ post = [] ∧ afterItem pass d f s = .ok t := by
  simp only [itemEntries] at h
  simp only [afterItem]
  cases hp : pass d s with
  | skip u =>
      rw [hp] at h
      obtain ⟨_, rfl, hpost⟩ := split_single h
      cases ha
      exact ⟨hleft, hpost, rfl⟩
  | done flag u =>
      rw [hp] at h
      obtain ⟨_, rfl, hpost⟩ := split_single h
      cases ha
      exact ⟨hleft, hpost, rfl⟩
  | fault x =>
      rw [hp] at h
      obtain ⟨_, rfl, _⟩ := split_single h
      exact nomatch ha
  | turnedDown u =>
      rw [hp] at h
      rcases split_cons h with ⟨_, rfl, hpost⟩ | ⟨pre', _, h'⟩
      · -- the turned down item itself: its fallback list is empty
        obtain ⟨hl, hf⟩ := Bool.or_eq_false_iff.mp hleft
        cases f with
        | nil =>
            cases ha
            exact ⟨hl, hpost.symm, rfl⟩
        | cons d' f' r' => exact nomatch hf
      · exact ihf left u pre' post e t h' ha hleft

/-- **NOTHING LEFT**: an entry with nothing left around it is the last one of
    its loop, and the loop ends in the state it left. -/
theorem traceAll_last :
    ∀ (l : Items δ) (left : Bool) (s : σ) (pre post : List (Entry δ σ))
      (e : Entry δ σ) (t : σ),
      traceAll pass left l s = pre ++ e :: post → e.after = some t → e.left = false →
        left = false ∧ post = [] ∧ runAll pass l s = .ok t := by
  intro l
  induction l with
  | nil =>
      intro left s pre post e t h _ _
      exact (not_nil_cut h).elim
  | cons d f r ihf ihr =>
      intro left s pre post e t h ha hleft
      rw [traceAll_cons] at h
      rw [runAll_cons]
      rcases split_append h with ⟨mid, hitem, hpost⟩ | ⟨mid, _, hr⟩
      · -- an entry of the item: nothing left means the rest is empty
        obtain ⟨hl, hmid, hafter⟩ := itemEntries_last pass ihf hitem ha hleft
        obtain ⟨hnone, hrest⟩ := Bool.or_eq_false_iff.mp hl
        cases r with
        | nil =>
            rw [hmid, hafter] at hpost
            rw [hafter]
            exact ⟨hnone, hpost, rfl⟩
        | cons d' f' r' => exact nomatch hrest
      · obtain ⟨v, hafter, hv⟩ := split_entriesAfter hr
        rw [hafter]
        exact ihr left v mid post e t hv ha hleft

/-- An entry of an item with something left around it is followed by another one, or
    what is left is behind the item. -/
theorem itemEntries_followed {f : Items δ}
    (ihf : ∀ (left : Bool) (s : σ) (pre post : List (Entry δ σ)) (e : Entry δ σ) (t : σ),
      traceAll pass left f s = pre ++ e :: post → e.after = some t → e.left = true →
        post ≠ [] ∨ (left = true ∧ ∃ t, runAll pass f s = .ok t))
    {left : Bool} {d : δ} {s t : σ} {pre post : List (Entry δ σ)} {e : Entry δ σ}
    (h : itemEntries pass left d f s = pre ++ e :: post) (ha : e.after = some t)
    (hleft : e.left = true) :
    post ≠ [] ∨ (left = true ∧ ∃ t, afterItem pass d f s = .ok t) := by
  simp only [itemEntries] at h
  simp only [afterItem]
  cases hp : pass d s with
  | skip u =>
      rw [hp] at h
      obtain ⟨_, rfl, _⟩ := split_single h
      exact .inr ⟨hleft, u, rfl⟩
  | done flag u =>
      rw [hp] at h
      obtain ⟨_, rfl, _⟩ := split_single h
      exact .inr ⟨hleft, u, rfl⟩
  | fault x =>
      rw [hp] at h
      obtain ⟨_, rfl, _⟩ := split_single h
      exact nomatch ha
  | turnedDown u =>
      rw [hp] at h
      rcases split_cons h with ⟨_, rfl, hpost⟩ | ⟨pre', _, h'⟩
      · cases f with
        | nil =>
            have hl : left = true := by simpa [Items.isNil] using hleft
            exact .inr ⟨hl, u, rfl⟩
        | cons d' f' r' =>
            rw [← hpost]
            exact .inl (traceAll_ne_nil pass left u rfl)
      · exact ihf left u pre' post e t h' ha hleft

/-- **SOMETHING LEFT**: an entry with something left around it is followed by
    another one, or the loop ends well and its own surroundings have some left. -/
theorem traceAll_followed :
    ∀ (l : Items δ) (left : Bool) (s : σ) (pre post : List (Entry δ σ))
      (e : Entry δ σ) (t : σ),
      traceAll pass left l s = pre ++ e :: post → e.after = some t → e.left = true →
        post ≠ [] ∨ (left = true ∧ ∃ t, runAll pass l s = .ok t) := by
  intro l
  induction l with
  | nil =>
      intro left s pre post e t h _ _
      exact (not_nil_cut h).elim
  | cons d f r ihf ihr =>
      intro left s pre post e t h ha hleft
      rw [traceAll_cons] at h
      rw [runAll_cons]
      rcases split_append h with ⟨mid, hitem, hpost⟩ | ⟨mid, _, hr⟩
      · rcases itemEntries_followed pass ihf hitem ha hleft with hne | ⟨hl, v, hafter⟩
        · rw [hpost]
          exact .inl (List.append_ne_nil_of_left_ne_nil hne _)
        · rw [hafter] at hpost ⊢
          cases r with
          | nil =>
              have hl : left = true := by simpa [Items.isNil] using hl
              exact .inr ⟨hl, v, rfl⟩
          | cons d' f' r' =>
              rw [hpost]
              exact .inl (List.append_ne_nil_of_right_ne_nil _ (traceAll_ne_nil pass left v rfl))
      · obtain ⟨v, hafter, hv⟩ := split_entriesAfter hr
        rw [hafter]
        exact ihr left v mid post e t hv ha hleft

end Fallback

/-! ### The outermost loop -/

section Main

variable (stop : σ → Bool) (enter : σ → σ) (pass : δ → σ → Outcome σ ε)

/-- With the flag raised nothing is passed. -/
theorem runMain_stopped (l : Items δ) {s : σ} (hs : stop s = true) :
    runMain stop enter pass l s = .ok s := by
  cases l with
  | nil => rfl
  | cons d f r => exact if_pos hs

theorem traceMain_stopped (l : Items δ) {s : σ} (hs : stop s = true) :
    traceMain stop enter pass l s = [] := by
  cases l with
  | nil => rfl
  | cons d f r => exact if_pos hs

/-- An entry that raises the flag with nothing left around it ends the run. -/
theorem traceMain_last :
    ∀ (l : Items δ) (s : σ) (pre post : List (Entry δ σ)) (e : Entry δ σ) (t : σ),
      traceMain stop enter pass l s = pre ++ e :: post → e.after = some t →
      stop t = true → e.left = false →
        post = [] ∧ runMain stop enter pass l s = .ok t := by
  intro l
  induction l with
  | nil =>
      intro s pre post e t h _ _ _
      exact (not_nil_cut h).elim
  | cons d f r _ ihr =>
      intro s pre post e t h ha ht hleft
      by_cases hs : stop s = true
      · rw [traceMain_stopped stop enter pass _ hs] at h
        exact (not_nil_cut h).elim
      · rw [traceMain_cons d f r hs] at h
        rw [runMain_cons d f r hs]
        rcases split_append h with ⟨mid, hitem, hpost⟩ | ⟨mid, _, hr⟩
        · -- the flag is raised in the item or its fallback list, which ends there
          obtain ⟨_, hmid, hafter⟩ := itemEntries_last pass (traceAll_last pass f) hitem ha hleft
          rw [hmid, hafter] at hpost
          rw [hafter]
          exact ⟨hpost.trans (traceMain_stopped stop enter pass r ht),
            runMain_stopped stop enter pass r ht⟩
        · obtain ⟨v, hafter, hv⟩ := split_entriesAfter hr
          rw [hafter]
          exact ihr v mid post e t hv ha ht hleft

/-- An entry with something left around it is followed by another one, whether
    or not it raised the flag. -/
theorem traceMain_followed :
    ∀ (l : Items δ) (s : σ) (pre post : List (Entry δ σ)) (e : Entry δ σ) (t : σ),
      traceMain stop enter pass l s = pre ++ e :: post → e.after = some t →
      e.left = true → post ≠ [] := by
  intro l
  induction l with
  | nil =>
      intro s pre post e t h _ _
      exact (not_nil_cut h).elim
  | cons d f r _ ihr =>
      intro s pre post e t h ha hleft
      by_cases hs : stop s = true
      · rw [traceMain_stopped stop enter pass _ hs] at h
        exact (not_nil_cut h).elim
      · rw [traceMain_cons d f r hs] at h
        rcases split_append h with ⟨mid, hitem, hpost⟩ | ⟨mid, _, hr⟩
        · rcases itemEntries_followed pass (traceAll_followed pass f) hitem ha hleft with
            hne | ⟨hl, _⟩
          · rw [hpost]
            exact List.append_ne_nil_of_left_ne_nil hne _
          · exact nomatch hl
        · obtain ⟨v, _, hv⟩ := split_entriesAfter hr
          exact ihr v mid post e t hv ha hleft

/-- The item that raises the flag is the last one passed, and the run ends in
    the state it left. -/
def Stops (l : Items δ) (s : σ) : Prop :=
  ∀ pre e post t, traceMain stop enter pass l s = pre ++ e :: post →
    e.after = some t → stop t = true →
      post = [] ∧ runMain stop enter pass l s = .ok t

/-- Items leave the flag raised only where the fallback lists around them have
    nothing left. -/
def RaisedAtEnd (l : Items δ) (s : σ) : Prop :=
  ∀ e ∈ traceMain stop enter pass l s, ∀ t, e.after = some t → stop t = true →
    e.left = false

/-- **A RAISED FLAG STOPS EVERYTHING** exactly when nothing is left in the
    fallback lists around the items that raise it. -/
theorem stops_iff (l : Items δ) (s : σ) :
    Stops stop enter pass l s ↔ RaisedAtEnd stop enter pass l s := by
  constructor
  · intro h e he t ha ht
    obtain ⟨pre, post, hsplit⟩ := List.append_of_mem he
    obtain ⟨hpost, _⟩ := h pre e post t hsplit ha ht
    cases hl : e.left with
    | false => rfl
    | true =>
        exact (traceMain_followed stop enter pass l s pre post e t hsplit ha hl hpost).elim
  · intro h pre e post t hsplit ha ht
    have he : e ∈ traceMain stop enter pass l s := by
      rw [hsplit]
      exact List.mem_append_right pre (List.mem_cons_self)
    exact traceMain_last stop enter pass l s pre post e t hsplit ha ht (h e he t ha ht)

/-- A list run in two parts. -/
theorem runMain_append (l m : Items δ) (s : σ) :
    runMain stop enter pass (l.append m) s
      = andThen (runMain stop enter pass l s) (runMain stop enter pass m) := by
  induction l generalizing s with
  | nil => rfl
  | cons d f r _ ih =>
      simp only [Items.append, runMain]
      by_cases hs : stop s = true
      · rw [if_pos hs, if_pos hs]
        exact (runMain_stopped stop enter pass m hs).symm
      · rw [if_neg hs, if_neg hs]
        cases pass d (enter s) with
        | skip t => exact ih t
        | done flag t => exact ih t
        | fault e => rfl
        | turnedDown t =>
            cases hrun : runAll pass f t with
            | error e => simp only [hrun, andThen]
            | ok u => simpa only [hrun, andThen] using ih u

theorem traceMain_append (l m : Items δ) (s : σ) :
    traceMain stop enter pass (l.append m) s
      = traceMain stop enter pass l s
        ++ entriesAfter (runMain stop enter pass l s) (traceMain stop enter pass m) := by
  induction l generalizing s with
  | nil => rfl
  | cons d f r _ ih =>
      simp only [Items.append, traceMain, runMain]
      by_cases hs : stop s = true
      · rw [if_pos hs, if_pos hs, if_pos hs]
        exact (traceMain_stopped stop enter pass m hs).symm
      · rw [if_neg hs, if_neg hs, if_neg hs]
        cases pass d (enter s) with
        | skip t => exact congrArg (List.cons _) (ih t)
        | done flag t => exact congrArg (List.cons _) (ih t)
        | fault e => rfl
        | turnedDown t =>
            cases hrun : runAll pass f t with
            | error e => simp only [hrun, andThen, entriesAfter, List.append_nil]
            | ok u =>
                simp only [hrun, andThen, entriesAfter, ih u, List.cons_append,
                  List.append_assoc]

end Main

/-! ## A turned down item in its place -/

section Inline

variable (stop : σ → Bool) (pass : δ → σ → Outcome σ ε)

/-- No item leaves the flag raised. -/
def NeverRaised (entries : List (Entry δ σ)) : Prop :=
  ∀ e ∈ entries, ∀ t, e.after = some t → stop t = false

theorem neverRaised_append {l m : List (Entry δ σ)} (h : NeverRaised stop (l ++ m)) :
    NeverRaised stop l ∧ NeverRaised stop m :=
  ⟨fun e he => h e (List.mem_append_left m he), fun e he => h e (List.mem_append_right l he)⟩

/-- An item that does not raise the flag, with its fallback list, leaves it down. -/
theorem afterItem_not_raised {f : Items δ}
    (ihf : ∀ (left : Bool) {s t : σ}, stop s = false →
      NeverRaised stop (traceAll pass left f s) → runAll pass f s = .ok t → stop t = false)
    (left : Bool) (d : δ) {s t : σ} (h : NeverRaised stop (itemEntries pass left d f s))
    (hrun : afterItem pass d f s = .ok t) : stop t = false := by
  simp only [itemEntries] at h
  simp only [afterItem] at hrun
  cases hp : pass d s with
  | skip u =>
      rw [hp] at h hrun
      cases hrun
      exact h _ List.mem_cons_self _ rfl
  | done flag u =>
      rw [hp] at h hrun
      cases hrun
      exact h _ List.mem_cons_self _ rfl
  | fault x =>
      rw [hp] at hrun
      exact nomatch hrun
  | turnedDown u =>
      rw [hp] at h hrun
      exact ihf left (h _ List.mem_cons_self u rfl)
        (fun e he => h e (List.mem_cons_of_mem _ he)) hrun

/-- A fallback list in which no item raises the flag leaves it down. -/
theorem runAll_not_raised (l : Items δ) (left : Bool) {s t : σ} (hs : stop s = false)
    (h : NeverRaised stop (traceAll pass left l s)) (hrun : runAll pass l s = .ok t) :
    stop t = false := by
  induction l generalizing left s t with
  | nil =>
      cases hrun
      exact hs
  | cons d f r ihf ihr =>
      rw [traceAll_cons] at h
      rw [runAll_cons] at hrun
      obtain ⟨hitem, hrest⟩ := neverRaised_append stop h
      cases hafter : afterItem pass d f s with
      | error x =>
          rw [hafter] at hrun
          exact nomatch hrun
      | ok v =>
          rw [hafter] at hrest hrun
          exact ihr left (afterItem_not_raised stop pass ihf _ d hitem hafter) hrest hrun

/-- While the flag stays down the two loops run a list the same way. -/
theorem runMain_eq_runAll (l : Items δ) (left : Bool) {s : σ} (hs : stop s = false)
    (h : NeverRaised stop (traceAll pass left l s)) :
    runMain stop id pass l s = runAll pass l s := by
  induction l generalizing left s with
  | nil => rfl
  | cons d f r _ ihr =>
      have hns : ¬ stop s = true := by rw [hs]; exact Bool.false_ne_true
      rw [traceAll_cons] at h
      obtain ⟨hitem, hrest⟩ := neverRaised_append stop h
      rw [runMain_cons d f r hns, runAll_cons, id]
      cases hafter : afterItem pass d f s with
      | error x => rfl
      | ok v =>
          rw [hafter] at hrest
          exact ihr left
            (afterItem_not_raised stop pass (runAll_not_raised stop pass f) _ d hitem hafter) hrest

/-- **INLINING**: while the flag stays down, a turned down item runs on as its
    fallback list in its place. -/
theorem runMain_inline (d : δ) (f r : Items δ) {s t : σ} (hs : stop s = false)
    (hp : pass d s = .turnedDown t)
    (h : NeverRaised stop (traceMain stop id pass (.cons d f r) s)) :
    runMain stop id pass (.cons d f r) s = runMain stop id pass (f.append r) t := by
  have hns : ¬ stop s = true := by rw [hs]; exact Bool.false_ne_true
  simp only [traceMain, if_neg hns, id, hp] at h
  have ht : stop t = false := h _ List.mem_cons_self t rfl
  have hf : NeverRaised stop (traceAll pass false f t) :=
    fun e he => h e (List.mem_cons_of_mem _ (List.mem_append_left _ he))
  rw [runMain_append, runMain_eq_runAll stop pass f false ht hf]
  simp only [runMain, if_neg hns, id, hp]

end Inline

/-! ## The items that raise the flag -/

section Firing

variable (stop : σ → Bool) (enter : σ → σ) (pass : δ → σ → Outcome σ ε)

/-- The flag is up after an entry. -/
def Raised (e : Entry δ σ) : Prop := ∃ t, e.after = some t ∧ stop t = true

theorem not_neverRaised {entries : List (Entry δ σ)} (h : ¬ NeverRaised stop entries) :
    ∃ e ∈ entries, Raised stop e := by
  refine Classical.byContradiction (fun hno => h (fun e he t ha => ?_))
  cases ht : stop t with
  | false => rfl
  | true => exact (hno ⟨e, he, t, ha, ht⟩).elim

/-- An item that leaves the flag up, and started with it down, has an entry that left
    it up. -/
theorem afterItem_raised (left : Bool) (d : δ) (f : Items δ) {s t : σ}
    (hrun : afterItem pass d f s = .ok t) (ht : stop t = true) :
    ∃ e ∈ itemEntries pass left d f s, Raised stop e := by
  refine not_neverRaised stop (fun h => ?_)
  rw [afterItem_not_raised stop pass (runAll_not_raised stop pass f) left d h hrun] at ht
  exact nomatch ht

/-- An entry of an item with the flag up has one before it that left it up. -/
theorem itemEntries_before {f : Items δ} {e : Entry δ σ} (he : stop e.before = true)
    (ihf : ∀ (left : Bool) {s : σ}, stop s = false → ∀ {pre post : List (Entry δ σ)},
      traceAll pass left f s = pre ++ e :: post → ∃ e' ∈ pre, Raised stop e')
    {left : Bool} {d : δ} {s : σ} (hs : stop s = false) {pre post : List (Entry δ σ)}
    (h : itemEntries pass left d f s = pre ++ e :: post) : ∃ e' ∈ pre, Raised stop e' := by
  rcases itemEntries_cut h with ⟨_, _, hb, _⟩ | ⟨u, b, pre', _, rfl, hf⟩
  · rw [hb, hs] at he
    exact nomatch he
  · cases hu : stop u with
    | true => exact ⟨_, List.mem_cons_self, u, rfl, hu⟩
    | false =>
        obtain ⟨e', he', hraised⟩ := ihf left hu hf
        exact ⟨e', List.mem_cons_of_mem _ he', hraised⟩

/-- An item passed with the flag up has one before it that left it up, when the
    list started with the flag down. -/
theorem traceAll_before {e : Entry δ σ} (he : stop e.before = true) (l : Items δ) (left : Bool)
    {s : σ} (hs : stop s = false) {pre post : List (Entry δ σ)}
    (h : traceAll pass left l s = pre ++ e :: post) : ∃ e' ∈ pre, Raised stop e' := by
  induction l generalizing left s pre post with
  | nil => exact (not_nil_cut h).elim
  | cons d f r ihf ihr =>
      rw [traceAll_cons] at h
      rcases split_append h with ⟨mid, hitem, _⟩ | ⟨mid, rfl, hr⟩
      · exact itemEntries_before stop pass he ihf hs hitem
      · obtain ⟨v, hafter, hv⟩ := split_entriesAfter hr
        cases hstop : stop v with
        | true =>
            obtain ⟨e', he', hraised⟩ := afterItem_raised stop pass _ d f hafter hstop
            exact ⟨e', List.mem_append_left _ he', hraised⟩
        | false =>
            obtain ⟨e', he', hraised⟩ := ihr left hstop hv
            exact ⟨e', List.mem_append_right _ he', hraised⟩

theorem traceMain_before (henter : ∀ s, stop (enter s) = stop s) {e : Entry δ σ}
    (he : stop e.before = true) (l : Items δ) {s : σ} (hs : stop s = false)
    {pre post : List (Entry δ σ)} (h : traceMain stop enter pass l s = pre ++ e :: post) :
    ∃ e' ∈ pre, Raised stop e' := by
  induction l generalizing s pre with
  | nil => exact (not_nil_cut h).elim
  | cons d f r _ ihr =>
      have hns : ¬ stop s = true := by rw [hs]; exact Bool.false_ne_true
      rw [traceMain_cons d f r hns] at h
      rcases split_append h with ⟨mid, hitem, _⟩ | ⟨mid, rfl, hr⟩
      · exact itemEntries_before stop pass he (traceAll_before stop pass he f)
          ((henter s).trans hs) hitem
      · obtain ⟨v, hafter, hv⟩ := split_entriesAfter hr
        cases hstop : stop v with
        | true =>
            obtain ⟨e', he', hraised⟩ := afterItem_raised stop pass _ d f hafter hstop
            exact ⟨e', List.mem_append_left _ he', hraised⟩
        | false =>
            obtain ⟨e', he', hraised⟩ := ihr hstop hv
            exact ⟨e', List.mem_append_right _ he', hraised⟩

/-- What raises the flag: `fires` tells it from the item and the state it is
    passed from.  The flag is never lowered. -/
structure Fires (fires : δ → σ → Bool) : Prop where
  after : ∀ d s t, (pass d s).state = some t → stop t = (stop s || fires d s)
  fault : ∀ d s, (pass d s).state = none → fires d s = false

/-- Items fire only where nothing is left in the fallback lists around them. -/
def FiresAtEnd (fires : δ → σ → Bool) (l : Items δ) (s : σ) : Prop :=
  ∀ e ∈ traceMain stop enter pass l s, e.left = true → fires e.item e.before = false

/-- **A RAISED FLAG STOPS EVERYTHING**, in a run that starts with the flag down,
    exactly when no item raises it with something left in the fallback lists
    around it. -/
theorem stops_iff_firesAtEnd {fires : δ → σ → Bool} (hfires : Fires stop pass fires)
    (henter : ∀ s, stop (enter s) = stop s) (l : Items δ) {s : σ} (hs : stop s = false) :
    Stops stop enter pass l s ↔ FiresAtEnd stop enter pass fires l s := by
  have hafter : ∀ e ∈ traceMain stop enter pass l s, e.after = (pass e.item e.before).state :=
    traceMain_after l s
  rw [stops_iff]
  constructor
  · intro h e he hleft
    cases hf : fires e.item e.before with
    | false => rfl
    | true =>
        cases ht : (pass e.item e.before).state with
        | none =>
            rw [hfires.fault e.item e.before ht] at hf
            exact nomatch hf
        | some t =>
            have hstop : stop t = true := by
              rw [hfires.after e.item e.before t ht, hf, Bool.or_true]
            have hfalse : e.left = false := h e he t ((hafter e he).trans ht) hstop
            rw [hleft] at hfalse
            exact nomatch hfalse
  · intro h
    -- the first item that leaves the flag up fires, so nothing comes after it
    have hfirst : ∀ (n : Nat) (pre post : List (Entry δ σ)) (e : Entry δ σ) (t : σ),
        pre.length = n → traceMain stop enter pass l s = pre ++ e :: post →
        e.after = some t → stop t = true → e.left = false := by
      intro n
      induction n using Nat.strongRecOn with
      | ind n ih =>
          intro pre post e t hn hsplit ha ht
          have he : e ∈ traceMain stop enter pass l s := by
            rw [hsplit]
            exact List.mem_append_right pre List.mem_cons_self
          rw [hfires.after e.item e.before t ((hafter e he).symm.trans ha),
            Bool.or_eq_true] at ht
          rcases ht with hb | hf
          · obtain ⟨e', he', t', ha', ht'⟩ :=
              traceMain_before stop enter pass henter hb l hs hsplit
            obtain ⟨p1, p2, hpre⟩ := List.append_of_mem he'
            have hlen : p1.length < n := by
              rw [← hn, hpre]
              simp
            have hsplit' : traceMain stop enter pass l s = p1 ++ e' :: (p2 ++ e :: post) := by
              rw [hsplit, hpre]
              simp
            have hleft' := ih p1.length hlen p1 (p2 ++ e :: post) e' t' rfl hsplit' ha' ht'
            obtain ⟨hnil, _⟩ := traceMain_last stop enter pass l s p1 (p2 ++ e :: post) e' t'
              hsplit' ha' ht' hleft'
            exact (List.append_ne_nil_of_right_ne_nil p2 (List.cons_ne_nil e post) hnil).elim
          · cases hl : e.left with
            | false => rfl
            | true =>
                rw [h e he hl] at hf
                exact nomatch hf
    intro e he t ha ht
    obtain ⟨pre, post, hsplit⟩ := List.append_of_mem he
    exact hfirst pre.length pre post e t rfl hsplit ha ht

end Firing

/-! ## Runs related item by item -/

section Simulation

variable {τ : Type}

/-- Two outcomes of one kind, with related states. -/
inductive OutcomeRel (R : σ → τ → Prop) : Outcome σ ε → Outcome τ ε → Prop
  | skip {s t} (h : R s t) : OutcomeRel R (.skip s) (.skip t)
  | turnedDown {s t} (h : R s t) : OutcomeRel R (.turnedDown s) (.turnedDown t)
  | done (flag : Bool) {s t} (h : R s t) : OutcomeRel R (.done flag s) (.done flag t)
  | fault (e : ε) : OutcomeRel R (.fault e) (.fault e)

/-- Two results: the same fault, or related states. -/
inductive ResultRel (R : σ → τ → Prop) : Except ε σ → Except ε τ → Prop
  | ok {s t} (h : R s t) : ResultRel R (.ok s) (.ok t)
  | error (e : ε) : ResultRel R (.error e) (.error e)

theorem ResultRel.mono {R S : σ → τ → Prop} {x : Except ε σ} {y : Except ε τ}
    (h : ResultRel R x y) (hRS : ∀ s t, R s t → S s t) : ResultRel S x y := by
  cases h with
  | ok h => exact .ok (hRS _ _ h)
  | error e => exact .error e

theorem OutcomeRel.refl {R : σ → σ → Prop} (h : ∀ s, R s s) (o : Outcome σ ε) :
    OutcomeRel R o o := by
  cases o with
  | skip s => exact .skip (h s)
  | turnedDown s => exact .turnedDown (h s)
  | done flag s => exact .done flag (h s)
  | fault e => exact .fault e

theorem OutcomeRel.mono {R S : σ → τ → Prop} {x : Outcome σ ε} {y : Outcome τ ε}
    (h : OutcomeRel R x y) (hRS : ∀ s t, R s t → S s t) : OutcomeRel S x y := by
  cases h with
  | skip h => exact .skip (hRS _ _ h)
  | turnedDown h => exact .turnedDown (hRS _ _ h)
  | done flag h => exact .done flag (hRS _ _ h)
  | fault e => exact .fault e

/-- An outcome related to a `done` one. -/
theorem OutcomeRel.exists_done {R : σ → τ → Prop} {x : Outcome σ ε} {flag : Bool} {t : τ}
    (h : OutcomeRel R x (.done flag t)) : ∃ s, x = .done flag s := by
  cases h with
  | done _ h => exact ⟨_, rfl⟩

/-- Two outcomes related through a third one. -/
theorem OutcomeRel.comp {R S T : σ → σ → Prop} {x y z : Outcome σ ε}
    (hxy : OutcomeRel R x y) (hyz : OutcomeRel S y z)
    (hT : ∀ a b c, R a b → S b c → T a c) : OutcomeRel T x z := by
  cases hxy with
  | skip h =>
      cases hyz with
      | skip h' => exact .skip (hT _ _ _ h h')
  | turnedDown h =>
      cases hyz with
      | turnedDown h' => exact .turnedDown (hT _ _ _ h h')
  | done flag h =>
      cases hyz with
      | done _ h' => exact .done flag (hT _ _ _ h h')
  | fault e =>
      cases hyz with
      | fault => exact .fault e

/-- Every item passed meets a condition in the state it is passed from. -/
def Meets (C : δ → σ → Prop) (entries : List (Entry δ σ)) : Prop :=
  ∀ e ∈ entries, C e.item e.before

variable {R : σ → τ → Prop} {C : δ → σ → Prop}
  {pass : δ → σ → Outcome σ ε} {pass' : δ → τ → Outcome τ ε}

theorem meets_entriesAfter {x : Except ε σ} {next : σ → List (Entry δ σ)}
    (h : ∀ s, Meets C (next s)) : Meets C (entriesAfter x next) := by
  cases x with
  | error e =>
      intro e he
      cases he
  | ok s => exact h s

theorem meets_traceAll {P : δ → Prop} (l : Items δ) (hl : l.All P) (left : Bool) (s : σ) :
    Meets (fun d _ => P d) (traceAll pass left l s) := by
  induction l generalizing left s with
  | nil =>
      intro e he
      cases he
  | cons d f r ihf ihr =>
      obtain ⟨hd, hf, hr⟩ := hl
      intro e he
      simp only [traceAll] at he
      split at he
      · rcases List.mem_cons.mp he with rfl | he
        · exact hd
        · exact ihr hr left _ e he
      · rcases List.mem_cons.mp he with rfl | he
        · exact hd
        · exact ihr hr left _ e he
      · rcases List.mem_cons.mp he with rfl | he
        · exact hd
        · rcases List.mem_append.mp he with he | he
          · exact ihf hf _ _ e he
          · exact meets_entriesAfter (ihr hr left) e he
      · rcases List.mem_cons.mp he with rfl | he
        · exact hd
        · cases he

/-- Items that all have a property are passed with it only. -/
theorem meets_traceMain {P : δ → Prop} {stop : σ → Bool} {enter : σ → σ} (l : Items δ)
    (hl : l.All P) (s : σ) : Meets (fun d _ => P d) (traceMain stop enter pass l s) := by
  induction l generalizing s with
  | nil =>
      intro e he
      cases he
  | cons d f r _ ihr =>
      obtain ⟨hd, hf, hr⟩ := hl
      intro e he
      simp only [traceMain] at he
      split at he
      · cases he
      · split at he
        · rcases List.mem_cons.mp he with rfl | he
          · exact hd
          · exact ihr hr _ e he
        · rcases List.mem_cons.mp he with rfl | he
          · exact hd
          · exact ihr hr _ e he
        · rcases List.mem_cons.mp he with rfl | he
          · exact hd
          · rcases List.mem_append.mp he with he | he
            · exact meets_traceAll f hf false _ e he
            · exact meets_entriesAfter (ihr hr) e he
        · rcases List.mem_cons.mp he with rfl | he
          · exact hd
          · cases he

/-- Results related so far stay related when the runs go on related. -/
theorem andThen_rel {x : Except ε σ} {y : Except ε τ} {next : σ → Except ε σ}
    {next' : τ → Except ε τ} (hxy : ResultRel R x y)
    (hnext : ∀ s t, x = .ok s → R s t → ResultRel R (next s) (next' t)) :
    ResultRel R (andThen x next) (andThen y next') := by
  cases hxy with
  | ok h => exact hnext _ _ rfl h
  | error e => exact .error e

theorem runAll_sim
    (hpass : ∀ d s t, C d s → R s t → OutcomeRel R (pass d s) (pass' d t))
    (l : Items δ) (left : Bool) {s : σ} {t : τ}
    (hC : Meets C (traceAll pass left l s)) (hR : R s t) :
    ResultRel R (runAll pass l s) (runAll pass' l t) := by
  induction l generalizing left s t with
  | nil => exact .ok hR
  | cons d f r ihf ihr =>
      have hd : C d s := by
        simp only [traceAll] at hC
        cases hp : pass d s <;> rw [hp] at hC <;> exact hC _ List.mem_cons_self
      have hout := hpass d s t hd hR
      simp only [traceAll] at hC
      simp only [runAll]
      generalize pass d s = o at hC hout ⊢
      generalize pass' d t = o' at hout ⊢
      cases hout with
      | skip h => exact ihr left (fun e he => hC e (List.mem_cons_of_mem _ he)) h
      | done flag h => exact ihr left (fun e he => hC e (List.mem_cons_of_mem _ he)) h
      | fault e => exact .error e
      | @turnedDown u v h =>
          have hf := ihf (left || !r.isNil)
            (fun e he => hC e (List.mem_cons_of_mem _ (List.mem_append_left _ he))) h
          refine andThen_rel hf (fun w w' hrun hw => ihr left (fun e he => ?_) hw)
          refine hC e (List.mem_cons_of_mem _ (List.mem_append_right _ ?_))
          rw [hrun]
          exact he

/-- **RELATED RUNS**: what every item passed keeps, with the stop flag seen
    through it, the outermost loop keeps. -/
theorem runMain_sim {stop : σ → Bool} {stop' : τ → Bool}
    (hstop : ∀ s t, R s t → stop s = stop' t)
    (hpass : ∀ d s t, C d s → R s t → OutcomeRel R (pass d s) (pass' d t))
    (l : Items δ) {s : σ} {t : τ}
    (hC : Meets C (traceMain stop id pass l s)) (hR : R s t) :
    ResultRel R (runMain stop id pass l s) (runMain stop' id pass' l t) := by
  induction l generalizing s t with
  | nil => exact .ok hR
  | cons d f r _ ihr =>
      by_cases hs : stop s = true
      · rw [runMain_stopped stop id pass _ hs,
          runMain_stopped stop' id pass' _ (hstop s t hR ▸ hs)]
        exact .ok hR
      · have hs' : ¬ stop' t = true := hstop s t hR ▸ hs
        simp only [traceMain, if_neg hs, id] at hC
        have hd : C d s := by
          cases hp : pass d s <;> rw [hp] at hC <;> exact hC _ List.mem_cons_self
        have hout := hpass d s t hd hR
        simp only [runMain, if_neg hs, if_neg hs', id]
        generalize pass d s = o at hC hout ⊢
        generalize pass' d t = o' at hout ⊢
        cases hout with
        | skip h => exact ihr (fun e he => hC e (List.mem_cons_of_mem _ he)) h
        | done flag h => exact ihr (fun e he => hC e (List.mem_cons_of_mem _ he)) h
        | fault e => exact .error e
        | @turnedDown u v h =>
            have hf := runAll_sim hpass f false
              (fun e he => hC e (List.mem_cons_of_mem _ (List.mem_append_left _ he))) h
            refine andThen_rel hf (fun w w' hrun hw => ihr (fun e he => ?_) hw)
            refine hC e (List.mem_cons_of_mem _ (List.mem_append_right _ ?_))
            rw [hrun]
            exact he

end Simulation

/-! ## Invariants along a run -/

section Along

variable {I : σ → Prop} {C : δ → σ → Prop} {pass : δ → σ → Outcome σ ε}

/-- An invariant before and after every item passed. -/
def Along (I : σ → Prop) (entries : List (Entry δ σ)) : Prop :=
  ∀ e ∈ entries, I e.before ∧ ∀ t, e.after = some t → I t

/-- A run that passes nothing. -/
theorem along_nil {s : σ} (hs : I s) :
    Along I ([] : List (Entry δ σ)) ∧ ∀ u, (.ok s : Except ε σ) = .ok u → I u := by
  refine ⟨fun e he => ?_, fun u hu => Except.ok.inj hu ▸ hs⟩
  cases he

/-- What an item keeps under its condition, and its fallback list too. -/
theorem item_along (hpass : ∀ d s t, C d s → I s → (pass d s).state = some t → I t) {left : Bool}
    {d : δ} {f : Items δ}
    (hf : ∀ s, I s → Meets C (traceAll pass left f s) →
      Along I (traceAll pass left f s) ∧ ∀ u, runAll pass f s = .ok u → I u)
    {s : σ} (hs : I s) (hC : Meets C (itemEntries pass left d f s)) :
    Along I (itemEntries pass left d f s) ∧ ∀ u, afterItem pass d f s = .ok u → I u := by
  have hd : C d s := by
    obtain ⟨b, rest, hhead⟩ := itemEntries_head pass left d f s
    rw [hhead] at hC
    exact hC _ List.mem_cons_self
  have hleft := hpass d s
  simp only [itemEntries] at hC ⊢
  simp only [afterItem]
  cases hp : pass d s with
  | skip t =>
      have ht : I t := hleft t hd hs (by rw [hp]; rfl)
      refine ⟨fun e he => ?_, fun u hu => ?_⟩
      · rw [List.mem_singleton.mp he]
        exact ⟨hs, fun u hu => Option.some.inj hu ▸ ht⟩
      · exact Except.ok.inj hu ▸ ht
  | done flag t =>
      have ht : I t := hleft t hd hs (by rw [hp]; rfl)
      refine ⟨fun e he => ?_, fun u hu => ?_⟩
      · rw [List.mem_singleton.mp he]
        exact ⟨hs, fun u hu => Option.some.inj hu ▸ ht⟩
      · exact Except.ok.inj hu ▸ ht
  | turnedDown t =>
      rw [hp] at hC
      have ht : I t := hleft t hd hs (by rw [hp]; rfl)
      obtain ⟨halong, hrun⟩ := hf t ht fun e he => hC e (List.mem_cons_of_mem _ he)
      refine ⟨fun e he => ?_, hrun⟩
      rcases List.mem_cons.mp he with rfl | he
      · exact ⟨hs, fun u hu => Option.some.inj hu ▸ ht⟩
      · exact halong e he
  | fault err =>
      refine ⟨fun e he => ?_, fun u hu => ?_⟩
      · rw [List.mem_singleton.mp he]
        exact ⟨hs, fun u hu => by cases hu⟩
      · cases hu

/-- The entries of an item, and those of what comes after it. -/
theorem along_append {x : Except ε σ} {entries : List (Entry δ σ)} {next : σ → List (Entry δ σ)}
    {run : σ → Except ε σ}
    (hitem : Along I entries ∧ ∀ u, x = .ok u → I u)
    (hnext : ∀ s, I s → Meets C (next s) → Along I (next s) ∧ ∀ u, run s = .ok u → I u)
    (hC : Meets C (entries ++ entriesAfter x next)) :
    Along I (entries ++ entriesAfter x next) ∧ ∀ u, andThen x run = .ok u → I u := by
  cases x with
  | error err =>
      refine ⟨fun e he => ?_, fun u hu => by cases hu⟩
      rcases List.mem_append.mp he with he | he
      · exact hitem.1 e he
      · cases he
  | ok s =>
      obtain ⟨halong, hrun⟩ := hnext s (hitem.2 s rfl) fun e he => hC e (List.mem_append_right _ he)
      refine ⟨fun e he => ?_, hrun⟩
      rcases List.mem_append.mp he with he | he
      · exact hitem.1 e he
      · exact halong e he

theorem traceAll_along (hpass : ∀ d s t, C d s → I s → (pass d s).state = some t → I t)
    (l : Items δ) (left : Bool) {s : σ} (hs : I s) (hC : Meets C (traceAll pass left l s)) :
    Along I (traceAll pass left l s) ∧ ∀ u, runAll pass l s = .ok u → I u := by
  induction l generalizing left s with
  | nil => exact along_nil hs
  | cons d f r ihf ihr =>
      rw [traceAll_cons] at hC ⊢
      rw [runAll_cons]
      refine along_append ?_ (fun t => ihr left) hC
      exact item_along hpass (fun t => ihf _) hs fun e he => hC e (List.mem_append_left _ he)

/-- **INVARIANT ALONG A RUN**: what every item keeps that meets its condition holds before and
    after every item of a run in which they all do, and at its end. -/
theorem traceMain_along {stop : σ → Bool} {enter : σ → σ} (henter : ∀ s, I s → I (enter s))
    (hpass : ∀ d s t, C d s → I s → (pass d s).state = some t → I t) (l : Items δ) {s : σ}
    (hs : I s) (hC : Meets C (traceMain stop enter pass l s)) :
    Along I (traceMain stop enter pass l s) ∧ ∀ u, runMain stop enter pass l s = .ok u → I u := by
  induction l generalizing s with
  | nil => exact along_nil hs
  | cons d f r _ ihr =>
      by_cases hstop : stop s = true
      · rw [traceMain_stopped stop enter pass _ hstop, runMain_stopped stop enter pass _ hstop]
        exact along_nil hs
      · rw [traceMain_cons d f r hstop] at hC ⊢
        rw [runMain_cons d f r hstop]
        refine along_append ?_ (fun t => ihr) hC
        refine item_along hpass (fun t => traceAll_along hpass f false) (henter s hs) ?_
        exact fun e he => hC e (List.mem_append_left _ he)

end Along

end FallbackList
