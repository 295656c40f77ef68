import H2agent.SafeFileProofs

/-! # Writes that reach their file

    A `write` opens its file in one step and writes in another, under another
    mutex; the timer of an earlier write, or a write that closes at once, can
    close the file in between, and the stream then discards the data.  The same
    happens when a late `open` has left the stream in an error state.

    `Writable` is the invariant of one file as long as neither happens:
    whoever stands before its write step finds the stream open.
    `writes_reach_file` follows for every run of writes and timers on the file,
    with anything at all on the other files. -/

namespace H2File

namespace Files

open StepRun

variable {ο κ : Type}

/-! ## The calls on the file -/

/-- On this file only constructions and writes are called; its timer does the
    rest. -/
def OnlyWrites (f : ο) : Act ο κ → Prop
  | .start _ o op => o = f → op = .construct ∨ ∃ data delayed, op = .write data delayed
  | _ => True

/-- The call stands before the write step of `data`. -/
def StandsBefore (s : Files ο κ) (c : κ) (f : ο) (data : String) : Prop :=
  ∃ next, s.calls c = some (f, .write data next)

/-- The step does no harm to the writes on the file: no wait of `open` ends on it
    once it is open, and it is not closed while a call stands before its write
    step. -/
def Spares (maxOpenFiles : Nat) (f : ο) (s : Files ο κ) : Act ο κ → Prop
  | .step c _ =>
      (∀ success failure, s.calls c = some (f, .wait success failure) →
        s.currentOpenedFiles < maxOpenFiles → f ∉ s.opened)
      ∧ ∀ next, s.calls c = some (f, .close next) → f ∈ s.opened →
          ∀ c' data, ¬ s.StandsBefore c' f data
  | _ => True

/-- A write step on the file finds an open stream without errors. -/
def WritesOpen (f : ο) (s : Files ο κ) : Act ο κ → Prop
  | .step c _ => ∀ data, s.StandsBefore c f data → f ∈ s.opened ∧ s.failed f = false
  | _ => True

/-- The code begins with a write. -/
def isWrite : Code → Bool
  | .write _ _ => true
  | _ => false

/-- Codes of the calls on the file: nothing is read, and a write comes right after
    an `open` that succeeded. -/
def plainCode : Code → Bool
  | .done => true
  | .open a b | .wait a b => plainCode a && plainCode b && !isWrite b
  | .close n | .arm n | .unlock n | .write _ n => plainCode n && !isWrite n
  | .getlines _ => false

/-- What comes after a step other than `open`. -/
theorem plain_next {next : Code} (h : (plainCode next && !isWrite next) = true) :
    plainCode next = true ∧ isWrite next = false := by
  simpa using h

/-- What comes after an `open`. -/
theorem plain_branches {success failure : Code}
    (h : (plainCode success && plainCode failure && !isWrite failure) = true) :
    plainCode success = true ∧ plainCode failure = true ∧ isWrite failure = false := by
  simpa [and_assoc] using h

/-- The file is writable for all who stand before their write step, and the data
    of the others whose `open` succeeded has reached it. -/
structure Writable (f : ο) (s : Files ο κ) : Prop where
  standing : ∀ c data, s.StandsBefore c f data → f ∈ s.opened
  clear : f ∈ s.opened → s.failed f = false
  codes : ∀ c code, s.calls c = some (f, code) → plainCode code = true
  logged : ∀ c data, (c, data) ∈ s.begun f →
    (c, data) ∈ s.reached f ∨ s.StandsBefore c f data

theorem writable_initial (f : ο) : Writable f (initial : Files ο κ) := by
  refine ⟨?_, ?_, ?_, ?_⟩
  · rintro c data ⟨next, h⟩
    cases h
  · intro h
    exact absurd h (Finset.notMem_empty f)
  · intro c code h
    cases h
  · intro c data h
    cases h

/-! ## One step -/

/-- The parts of a state that concern the file. -/
structure SameFile (f : ο) (s t : Files ο κ) : Prop where
  opened : f ∈ t.opened ↔ f ∈ s.opened
  failed : t.failed f = s.failed f
  calls : t.calls = s.calls
  begun : t.begun f = s.begun f
  reached : t.reached f = s.reached f

theorem Writable.of_same {f : ο} {s t : Files ο κ} (h : Writable f s) (hst : SameFile f s t) :
    Writable f t := by
  obtain ⟨ho, hf, hc, hb, hr⟩ := hst
  refine ⟨?_, ?_, ?_, ?_⟩
  · intro c data hstand
    rw [StandsBefore, hc] at hstand
    exact ho.mpr (h.standing c data hstand)
  · intro hopen
    rw [hf]
    exact h.clear (ho.mp hopen)
  · intro c code hcode
    rw [hc] at hcode
    exact h.codes c code hcode
  · intro c data hmem
    rw [hb] at hmem
    rw [hr, StandsBefore, hc]
    exact h.logged c data hmem

/-- A call that does not stand before a write on the file leaves none behind. -/
theorem leaves_none {f : ο} {s : Files ο κ} {c : κ} {o : ο} {code : Code}
    (hcall : s.calls c = some (o, code)) (h : o = f → isWrite code = false) (data : String) :
    s.StandsBefore c f data → (c, data) ∈ s.reached f := by
  rintro ⟨next, hnext⟩
  rw [hcall] at hnext
  obtain ⟨rfl, rfl⟩ := Prod.mk.inj (Option.some.inj hnext)
  exact absurd (h rfl) (by simp [isWrite])

/-- A call that has not started stands before no write. -/
theorem leaves_none_idle {f : ο} {s : Files ο κ} {c : κ} (hcall : s.calls c = none)
    (data : String) : s.StandsBefore c f data → (c, data) ∈ s.reached f := by
  rintro ⟨next, hnext⟩
  rw [hcall] at hnext
  cases hnext

variable [DecidableEq ο]

/-- `close` of a file nobody is about to write, or of another one. -/
theorem Writable.closeFile {f : ο} {s : Files ο κ} (h : Writable f s) {o : ο}
    (hnone : o = f → f ∈ s.opened → ∀ c data, ¬ s.StandsBefore c f data) :
    Writable f (s.closeFile o) := by
  unfold Files.closeFile
  by_cases ho : o ∈ s.opened
  · rw [if_pos ho]
    by_cases hof : o = f
    · obtain rfl := hof
      have hnot := hnone rfl ho
      refine ⟨?_, ?_, h.codes, h.logged⟩
      · intro c data hs
        exact absurd hs (hnot c data)
      · intro hopen
        exact absurd hopen (Finset.notMem_erase _ _)
    · refine h.of_same ⟨?_, rfl, rfl, rfl, rfl⟩
      simp [Ne.symm hof]
  · rw [if_neg ho]
    exact h

/-- The write step of a call: the data reaches the file. -/
theorem Writable.writeFile {f : ο} {s : Files ο κ} (h : Writable f s) (c : κ) {o : ο}
    (data : String) (hopen : o = f → f ∈ s.opened) :
    Writable f (s.writeFile c o data)
      ∧ (o = f → (c, data) ∈ (s.writeFile c o data).reached f) := by
  unfold Files.writeFile
  by_cases hof : o = f
  · obtain rfl := hof
    have hgood : o ∈ s.opened ∧ s.failed o = false := ⟨hopen rfl, h.clear (hopen rfl)⟩
    rw [if_pos hgood]
    have hreached : Function.update s.reached o (s.reached o ++ [(c, data)]) o
        = s.reached o ++ [(c, data)] := Function.update_self _ _ _
    refine ⟨⟨h.standing, h.clear, h.codes, ?_⟩, fun _ => ?_⟩
    · intro c' data' hmem
      rcases h.logged c' data' hmem with hr | hs
      · left
        dsimp only
        rw [hreached]
        exact List.mem_append_left _ hr
      · exact .inr hs
    · dsimp only
      rw [hreached]
      simp
  · refine ⟨?_, fun he => absurd he hof⟩
    split
    · exact h.of_same ⟨Iff.rfl, rfl, rfl, rfl, Function.update_of_ne (Ne.symm hof) _ _⟩
    · exact h.of_same ⟨Iff.rfl, Function.update_of_ne (Ne.symm hof) _ _, rfl, rfl, rfl⟩

variable [DecidableEq κ]

/-- A call that goes on keeps the file writable: a write it comes to needs the file
    open, and a write it leaves behind must have been made. -/
theorem Writable.goOn {f : ο} {s : Files ο κ} (h : Writable f s) {c : κ} {o : ο} {code : Code}
    (hplain : o = f → plainCode code = true)
    (hwrite : o = f → isWrite code = true → f ∈ s.opened)
    (hleft : ∀ data, s.StandsBefore c f data → (c, data) ∈ s.reached f) :
    Writable f (s.goOn c o code) := by
  have hself : (s.goOn c o code).calls c = some (o, code) := Function.update_self _ _ _
  have hother : ∀ c', c' ≠ c → (s.goOn c o code).calls c' = s.calls c' :=
    fun c' hne => Function.update_of_ne hne _ _
  refine ⟨?_, h.clear, ?_, ?_⟩
  · rintro c' data ⟨next, hc'⟩
    by_cases hcc : c' = c
    · rw [hcc, hself] at hc'
      obtain ⟨rfl, rfl⟩ := Prod.mk.inj (Option.some.inj hc')
      exact hwrite rfl rfl
    · rw [hother c' hcc] at hc'
      exact h.standing c' data ⟨next, hc'⟩
  · intro c' code' hc'
    by_cases hcc : c' = c
    · rw [hcc, hself] at hc'
      obtain ⟨rfl, rfl⟩ := Prod.mk.inj (Option.some.inj hc')
      exact hplain rfl
    · rw [hother c' hcc] at hc'
      exact h.codes c' code' hc'
  · intro c' data hmem
    -- an entry is an old one, or that of the write the call has come to
    have hcases : (c', data) ∈ s.begun f ∨ (o = f ∧ c' = c ∧ ∃ next, code = .write data next) := by
      by_cases hof : o = f
      · have hb : (s.goOn c o code).begun f = s.begun f ++ comesTo c code := by
          rw [← hof]
          exact Function.update_self _ _ _
        rw [hb, List.mem_append] at hmem
        rcases hmem with hmem | hmem
        · exact .inl hmem
        · cases code with
          | write data' next =>
              obtain ⟨rfl, rfl⟩ := Prod.mk.inj (List.mem_singleton.mp hmem)
              exact .inr ⟨hof, rfl, next, rfl⟩
          | done => cases hmem
          | «open» a b => cases hmem
          | wait a b => cases hmem
          | close n => cases hmem
          | getlines n => cases hmem
          | arm n => cases hmem
          | unlock n => cases hmem
      · have hb : (s.goOn c o code).begun f = s.begun f :=
          Function.update_of_ne (Ne.symm hof) _ _
        exact .inl (hb ▸ hmem)
    rcases hcases with hold | ⟨rfl, rfl, next, rfl⟩
    · rcases h.logged c' data hold with hr | hs
      · exact .inl hr
      · by_cases hcc : c' = c
        · rw [hcc] at hs ⊢
          exact .inl (hleft data hs)
        · obtain ⟨next, hnext⟩ := hs
          exact .inr ⟨next, (hother c' hcc).trans hnext⟩
    · exact .inr ⟨next, hself⟩

/-- A call goes on from one step other than a write to another. -/
theorem Writable.goOn_next {f : ο} {s : Files ο κ} (h : Writable f s) {c : κ} {o : ο}
    {code next : Code} (hcall : s.calls c = some (o, code)) (hcode : isWrite code = false)
    (hnext : o = f → plainCode next = true ∧ isWrite next = false) :
    Writable f (s.goOn c o next) := by
  refine h.goOn (fun he => (hnext he).1) ?_ (leaves_none hcall (fun _ => hcode))
  intro he hw
  rw [(hnext he).2] at hw
  cases hw

/-- A call on another file goes on, whatever has happened to that file. -/
theorem Writable.goOn_other {f : ο} {s t : Files ο κ} (h : Writable f s) (hst : SameFile f s t)
    {c : κ} {o : ο} {code code' : Code} (hof : o ≠ f) (hcall : s.calls c = some (o, code')) :
    Writable f (t.goOn c o code) := by
  have hcall' : t.calls c = some (o, code') := hst.calls ▸ hcall
  exact (h.of_same hst).goOn (fun he => absurd he hof) (fun he => absurd he hof)
    (leaves_none hcall' (fun he => absurd he hof))

/-- `open` past its wait, on a file that is closed, or on another one. -/
theorem Writable.openFile {f : ο} {s : Files ο κ} (h : Writable f s) {c : κ} {o : ο}
    {success failure code : Code} (opens : Bool) (hcall : s.calls c = some (o, code))
    (hplain : o = f → plainCode success = true ∧ plainCode failure = true
      ∧ isWrite failure = false)
    (hclosed : o = f → f ∉ s.opened) :
    Writable f (s.openFile c o success failure opens) := by
  by_cases hof : o = f
  · obtain rfl := hof
    obtain ⟨hps, hpf, hnf⟩ := hplain rfl
    have hnot := hclosed rfl
    have hnone : ∀ c' data, ¬ s.StandsBefore c' o data :=
      fun c' data hs => hnot (h.standing c' data hs)
    unfold Files.openFile
    rw [if_neg hnot]
    cases opens with
    | true =>
        rw [if_pos rfl]
        refine Writable.goOn ?_ (fun _ => hps) ?_ ?_
        · refine ⟨?_, ?_, h.codes, h.logged⟩
          · intro c' data _
            exact Finset.mem_insert_self _ _
          · intro _
            exact Function.update_self _ _ _
        · intro _ _
          exact Finset.mem_insert_self _ _
        · exact fun data hs => absurd hs (hnone c data)
    | false =>
        rw [if_neg (by decide)]
        refine Writable.goOn ?_ (fun _ => hpf) ?_ ?_
        · refine ⟨?_, ?_, h.codes, h.logged⟩
          · intro c' data hs
            exact absurd hs (hnone c' data)
          · intro hopen
            exact absurd hopen hnot
        · intro _ hw
          rw [hnf] at hw
          cases hw
        · exact fun data hs => absurd hs (hnone c data)
  · have hne : ∀ b, Function.update s.failed o b f = s.failed f :=
      fun b => Function.update_of_ne (Ne.symm hof) _ _
    unfold Files.openFile
    split
    · refine h.goOn_other ?_ hof hcall
      exact ⟨Iff.rfl, hne true, rfl, rfl, rfl⟩
    · split
      · refine h.goOn_other ?_ hof hcall
        exact ⟨by simp [Ne.symm hof], hne false, rfl, rfl, rfl⟩
      · refine h.goOn_other ?_ hof hcall
        exact ⟨Iff.rfl, hne true, rfl, rfl, rfl⟩

/-- The write step of a call, which goes on after it. -/
theorem Writable.writeStep {f : ο} {s : Files ο κ} (h : Writable f s) {c : κ} {o : ο}
    {data : String} {next : Code} (hcall : s.calls c = some (o, .write data next))
    (hnext : o = f → plainCode next = true ∧ isWrite next = false) :
    Writable f ((s.writeFile c o data).goOn c o next) := by
  have hopen : o = f → f ∈ s.opened := by
    rintro rfl
    exact h.standing c data ⟨next, hcall⟩
  obtain ⟨hwritten, hreached⟩ := h.writeFile c data hopen
  have hcalls : (s.writeFile c o data).calls c = some (o, .write data next) := by
    unfold Files.writeFile
    split <;> exact hcall
  refine hwritten.goOn (fun he => (hnext he).1) ?_ ?_
  · intro he hnw
    rw [(hnext he).2] at hnw
    cases hnw
  · -- the write left behind is the one just made
    rintro data' ⟨next', hstand⟩
    rw [hcalls] at hstand
    obtain ⟨rfl, hcode⟩ := Prod.mk.inj (Option.some.inj hstand)
    obtain ⟨rfl, _⟩ := Code.write.inj hcode
    exact hreached rfl

/-- **STEP LEMMA**: a step that spares the writes of the file keeps it writable. -/
theorem Writable.advance {maxOpenFiles : Nat} {f : ο} {s : Files ο κ} (h : Writable f s)
    {c : κ} {opens : Bool} (hsp : Spares maxOpenFiles f s (.step c opens)) :
    Writable f (s.advance maxOpenFiles c opens) := by
  obtain ⟨hwait, hclose⟩ := hsp
  cases hcall : s.calls c with
  | none =>
      simp only [Files.advance, hcall]
      exact h
  | some p =>
      obtain ⟨o, code⟩ := p
      have hplain : o = f → plainCode code = true := fun he => h.codes c code (he ▸ hcall)
      simp only [Files.advance, hcall]
      cases code with
      | done => exact h
      | «open» success failure =>
          dsimp only
          have hparts := fun he => plain_branches (hplain he)
          by_cases ho : o ∈ s.opened
          · rw [if_pos ho]
            exact h.goOn (fun he => (hparts he).1) (fun he _ => he ▸ ho)
              (leaves_none hcall (fun _ => rfl))
          · rw [if_neg ho]
            by_cases hlimit : s.currentOpenedFiles < maxOpenFiles
            · rw [if_pos hlimit]
              exact h.openFile opens hcall hparts (fun he => he ▸ ho)
            · rw [if_neg hlimit]
              exact h.goOn_next hcall rfl (fun he => ⟨hplain he, rfl⟩)
      | wait success failure =>
          dsimp only
          by_cases hlimit : s.currentOpenedFiles < maxOpenFiles
          · rw [if_pos hlimit]
            refine h.openFile opens hcall (fun he => plain_branches (hplain he)) ?_
            rintro rfl
            exact hwait success failure hcall hlimit
          · rw [if_neg hlimit]
            exact h
      | close next =>
          have hclosed : Writable f (s.closeFile o) := by
            refine h.closeFile ?_
            rintro rfl
            exact hclose next hcall
          have hcalls : (s.closeFile o).calls c = some (o, .close next) := by
            unfold Files.closeFile
            split <;> exact hcall
          exact hclosed.goOn_next hcalls rfl (fun he => plain_next (hplain he))
      | getlines next =>
          -- nothing is read on the file itself
          by_cases hof : o = f
          · exact absurd (hplain hof) (by simp [plainCode])
          · dsimp only
            refine h.goOn_other ?_ hof hcall
            exact ⟨Iff.rfl, Function.update_of_ne (Ne.symm hof) _ _, rfl, rfl, rfl⟩
      | write data next =>
          dsimp only
          by_cases hw : s.writer o = none
          · rw [if_pos hw]
            exact h.writeStep hcall (fun he => plain_next (hplain he))
          · rw [if_neg hw]
            exact h
      | arm next =>
          dsimp only
          refine Writable.goOn_next ?_ hcall rfl (fun he => plain_next (hplain he))
          exact h.of_same ⟨Iff.rfl, rfl, rfl, rfl, rfl⟩
      | unlock next =>
          dsimp only
          refine Writable.goOn_next ?_ hcall rfl (fun he => plain_next (hplain he))
          exact h.of_same ⟨Iff.rfl, rfl, rfl, rfl, rfl⟩

/-- No call starts with a write, and those on the file are plain. -/
theorem operation_code (op : Operation) :
    isWrite op.code = false
      ∧ ((op = .construct ∨ ∃ data delayed, op = .write data delayed) →
        plainCode op.code = true) := by
  constructor
  · unfold Operation.code
    split <;> rfl
  · rintro (rfl | ⟨data, delayed, rfl⟩)
    · rfl
    · cases delayed <;> rfl

/-- Everything that happens keeps the file writable, as long as it spares the
    writes. -/
theorem Writable.act {maxOpenFiles : Nat} {f : ο} {s : Files ο κ} (h : Writable f s)
    {a : Act ο κ} (honly : OnlyWrites f a) (hsp : Spares maxOpenFiles f s a) :
    Writable f (s.act maxOpenFiles a) := by
  cases a with
  | start c o op =>
      simp only [Files.act]
      by_cases hc : s.calls c = none
      · rw [if_pos hc]
        obtain ⟨hnw, hplain⟩ := operation_code op
        refine h.goOn (fun he => hplain (honly he)) ?_ (leaves_none_idle hc)
        intro _ hw
        rw [hnw] at hw
        cases hw
      · rw [if_neg hc]
        exact h
  | step c opens => exact h.advance hsp
  | expire o =>
      simp only [Files.act]
      split
      · exact h.of_same ⟨Iff.rfl, rfl, rfl, rfl, rfl⟩
      · exact h
  | fire c o =>
      simp only [Files.act]
      split
      · rename_i hc
        refine Writable.goOn ?_ (fun _ => rfl) ?_ (leaves_none_idle hc.1)
        · exact h.of_same ⟨Iff.rfl, rfl, rfl, rfl, rfl⟩
        · intro _ hw
          cases hw
      · exact h

/-! ## Whole runs -/

/-- The writes whose `open` succeeded have reached the file or are about to. -/
def NoneLost (f : ο) (s : Files ο κ) : Prop :=
  ∀ c data, (c, data) ∈ s.begun f → (c, data) ∈ s.reached f ∨ s.StandsBefore c f data

/-- **WRITES REACH THEIR FILE**: in every run of constructions, writes and timers
    on a file, with anything on other files, in which no step closes the file
    while a call stands before its write step and no wait of `open` ends on it
    once it is open, the data of every write whose `open` succeeded is in the
    file, or its call has still to take its write step, and every write step
    finds the stream open and without errors. -/
theorem writes_reach_file (maxOpenFiles : Nat) (f : ο) (acts : List (Act ο κ))
    (honly : ∀ a ∈ acts, OnlyWrites f a)
    (hspares : AllSteps (act maxOpenFiles) (Spares maxOpenFiles f) initial acts) :
    NoneLost f (run (act maxOpenFiles) initial acts)
      ∧ AllSteps (act maxOpenFiles) (WritesOpen f) initial acts := by
  suffices hrun : ∀ s : Files ο κ, Writable f s →
      AllSteps (act maxOpenFiles) (Spares maxOpenFiles f) s acts →
      NoneLost f (run (act maxOpenFiles) s acts)
        ∧ AllSteps (act maxOpenFiles) (WritesOpen f) s acts from
    hrun initial (writable_initial f) hspares
  clear hspares
  induction acts with
  | nil =>
      intro s hs _
      exact ⟨hs.logged, True.intro⟩
  | cons a acts ih =>
      intro s hs hall
      obtain ⟨hsp, hrest⟩ := hall
      have hnext := hs.act (honly a (by simp)) hsp
      obtain ⟨hlost, hopen⟩ := ih (fun b hb => honly b (by simp [hb])) _ hnext hrest
      refine ⟨hlost, ?_, hopen⟩
      cases a with
      | step c opens =>
          intro data hstand
          have hmem := hs.standing c data hstand
          exact ⟨hmem, hs.clear hmem⟩
      | start c o op => exact True.intro
      | expire o => exact True.intro
      | fire c o => exact True.intro

/-- Two writes in turn; the first leaves the file to its timer, the second finds it
    open. -/
def writesInTurn : List (Act Nat Nat) :=
  [.start 0 0 (.write "a" true), .step 0 true, .step 0 true, .step 0 true, .step 0 true,
   .start 1 0 (.write "b" false), .step 1 true, .step 1 true]

/-- Both reach the file. -/
theorem writes_in_turn_reach_file :
    NoneLost 0 (run (act 8) (initial : Files Nat Nat) writesInTurn)
      ∧ AllSteps (act 8) (WritesOpen 0) (initial : Files Nat Nat) writesInTurn := by
  refine writes_reach_file 8 0 writesInTurn ?_ ?_
  · intro a ha
    simp only [writesInTurn, List.mem_cons, List.not_mem_nil, or_false] at ha
    rcases ha with rfl | rfl | rfl | rfl | rfl | rfl | rfl | rfl
    · exact fun _ => .inr ⟨"a", true, rfl⟩
    · exact True.intro
    · exact True.intro
    · exact True.intro
    · exact True.intro
    · exact fun _ => .inr ⟨"b", false, rfl⟩
    · exact True.intro
    · exact True.intro
  · have hstep : ∀ {s : Files Nat Nat} {c : Nat} {code : Code}, s.calls c = some (0, code) →
        (∀ a b, code ≠ .wait a b) → (∀ n, code ≠ .close n) → Spares 8 0 s (.step c true) := by
      intro s c code hcall hwait hclose
      refine ⟨fun a b h => ?_, fun n h => ?_⟩
      · exact absurd (Prod.mk.inj (Option.some.inj (hcall.symm.trans h))).2 (hwait a b)
      · exact absurd (Prod.mk.inj (Option.some.inj (hcall.symm.trans h))).2 (hclose n)
    refine ⟨True.intro, hstep rfl nofun nofun, hstep rfl nofun nofun, hstep rfl nofun nofun,
      hstep rfl nofun nofun, True.intro, hstep rfl nofun nofun, hstep rfl nofun nofun,
      True.intro⟩

/-- Two writes that close at once: the second finds the file open, and then writes
    after the first has closed it. -/
def closedInBetween : List (Act Nat Nat) :=
  [.start 0 0 (.write "a" false), .start 1 0 (.write "b" false), .step 0 true, .step 1 true,
   .step 0 true, .step 0 true, .step 0 true, .step 1 true]

/-- The second datum is lost: its `open` succeeded, its write step is done, and the
    file does not hold it. -/
theorem close_in_between_loses_write :
    (∀ a ∈ closedInBetween, OnlyWrites 0 a)
      ∧ (run (act 8) (initial : Files Nat Nat) closedInBetween).begun 0 = [(0, "a"), (1, "b")]
      ∧ (run (act 8) (initial : Files Nat Nat) closedInBetween).reached 0 = [(0, "a")]
      ∧ ¬ NoneLost 0 (run (act 8) (initial : Files Nat Nat) closedInBetween) := by
  have hbegun : (run (act 8) (initial : Files Nat Nat) closedInBetween).begun 0
      = [(0, "a"), (1, "b")] := by decide +kernel
  have hreached : (run (act 8) (initial : Files Nat Nat) closedInBetween).reached 0
      = [(0, "a")] := by decide +kernel
  refine ⟨?_, hbegun, hreached, ?_⟩
  · intro a ha
    simp only [closedInBetween, List.mem_cons, List.not_mem_nil, or_false] at ha
    rcases ha with rfl | rfl | rfl | rfl | rfl | rfl | rfl | rfl
    · exact fun _ => .inr ⟨"a", false, rfl⟩
    · exact fun _ => .inr ⟨"b", false, rfl⟩
    · exact True.intro
    · exact True.intro
    · exact True.intro
    · exact True.intro
    · exact True.intro
    · exact True.intro
  · intro h
    rcases h 1 "b" (by rw [hbegun]; simp) with hr | ⟨next, hnext⟩
    · rw [hreached] at hr
      exact absurd hr (by decide)
    · have hcall : (run (act 8) (initial : Files Nat Nat) closedInBetween).calls 1
          = some (0, .close (.unlock .done)) := by decide +kernel
      rw [hcall] at hnext
      cases hnext

end Files

end H2File
