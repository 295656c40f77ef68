import Mathlib.Data.Finset.Card
import Mathlib.Logic.Function.Basic
import H2agent.StepRunProofs

/-! # Files that are opened and closed by many threads

    `SafeFile`: any number of objects share a counter of opened files, its mutex
    and a condition variable; the calls on them, from any number of threads, are
    interleaved at the steps that are atomic under the mutexes.  `open` leaves
    its mutex while it waits for a free place and does not look at `opened_`
    again when it goes on, so a call can open a file that another call has
    opened meanwhile: the stream stays open, and the counter counts it twice.

    * `Code`: what is left to do of a call; `advance` is its next atomic step;
    * `act_moves`, `act_late`: everything a step can do to the counter and to
      the opened objects;
    * `opened_files_counted_iff`: the counter is right exactly in the runs in
      which no wait of `open` ends on an object that is open by then. -/

namespace H2File

open StepRun

/-! ## Calls -/

/-- What is left to do of a call, cut at its atomic steps.  `wait` is the wait of
    `open` for a free place; `write` takes the write mutex of the object and
    `unlock` gives it back. -/
inductive Code where
  | done
  | open (success failure : Code)
  | wait (success failure : Code)
  | close (next : Code)
  | getlines (next : Code)
  | write (data : String) (next : Code)
  | arm (next : Code)
  | unlock (next : Code)
  deriving DecidableEq, Repr

/-- The calls on an object; `delayed` is a write whose close is left to the timer. -/
inductive Operation where
  | construct
  | open
  | close
  | empty
  | read
  | write (data : String) (delayed : Bool)
  | destroy

/-- The atomic steps of a call.  A write whose `open` fails returns; a read closes
    the file in either case. -/
def Operation.code : Operation → Code
  | .construct | .open => .open .done .done
  | .close | .destroy => .close .done
  | .empty => .close (.open (.close .done) (.close .done))
  | .read => .open (.getlines (.close .done)) (.close .done)
  | .write data true => .open (.write data (.arm (.unlock .done))) .done
  | .write data false => .open (.write data (.close (.unlock .done))) .done

/-! ## The machine -/

variable {ο κ : Type} [DecidableEq ο]

/-- Objects and calls.  `opened` are the objects whose `opened_` is true, which is
    when their stream is open; `failed` is the error state of a stream; `writer`
    holds the write mutex.  A timer has at most one handler waiting, and handlers
    whose time has come.  `begun` and `reached` are logs of the writes whose
    `open` succeeded and of the data that got into the file. -/
structure Files (ο κ : Type) where
  currentOpenedFiles : Int
  opened : Finset ο
  failed : ο → Bool
  writer : ο → Option κ
  armed : ο → Bool
  expired : ο → Nat
  calls : κ → Option (ο × Code)
  begun : ο → List (κ × String)
  reached : ο → List (κ × String)

namespace Files

/-- Nothing constructed yet. -/
def initial : Files ο κ where
  currentOpenedFiles := 0
  opened := ∅
  failed := fun _ => false
  writer := fun _ => none
  armed := fun _ => false
  expired := fun _ => 0
  calls := fun _ => none
  begun := fun _ => []
  reached := fun _ => []

/-- The write a call comes to, if that is what it comes to. -/
def comesTo (c : κ) : Code → List (κ × String)
  | .write data _ => [(c, data)]
  | _ => []

/-- `close`. -/
def closeFile (s : Files ο κ) (o : ο) : Files ο κ :=
  if o ∈ s.opened then
    { s with
      opened := s.opened.erase o
      currentOpenedFiles := s.currentOpenedFiles - 1 }
  else s

/-- `file_.write`: a closed stream, or one in an error state, discards the data. -/
def writeFile (s : Files ο κ) (c : κ) (o : ο) (data : String) : Files ο κ :=
  if o ∈ s.opened ∧ s.failed o = false then
    { s with
      writer := Function.update s.writer o (some c)
      reached := Function.update s.reached o (s.reached o ++ [(c, data)]) }
  else
    { s with
      writer := Function.update s.writer o (some c)
      failed := Function.update s.failed o true }

@[simp] theorem writeFile_opened (s : Files ο κ) (c : κ) (o : ο) (data : String) :
    (s.writeFile c o data).opened = s.opened := by
  unfold writeFile
  split <;> rfl

@[simp] theorem writeFile_current (s : Files ο κ) (c : κ) (o : ο) (data : String) :
    (s.writeFile c o data).currentOpenedFiles = s.currentOpenedFiles := by
  unfold writeFile
  split <;> rfl

variable [DecidableEq κ]

/-- The call goes on with `code`. -/
def goOn (s : Files ο κ) (c : κ) (o : ο) (code : Code) : Files ο κ :=
  { s with
    calls := Function.update s.calls c (some (o, code))
    begun := Function.update s.begun o (s.begun o ++ comesTo c code) }

/-- `open` past its wait: `file_.open` fails on an open stream and leaves it open,
    so that it counts as opened; otherwise `opens` says how it ends. -/
def openFile (s : Files ο κ) (c : κ) (o : ο) (success failure : Code) (opens : Bool) :
    Files ο κ :=
  if o ∈ s.opened then
    goOn { s with
      failed := Function.update s.failed o true
      currentOpenedFiles := s.currentOpenedFiles + 1 } c o success
  else if opens then
    goOn { s with
      opened := insert o s.opened
      failed := Function.update s.failed o false
      currentOpenedFiles := s.currentOpenedFiles + 1 } c o success
  else
    goOn { s with failed := Function.update s.failed o true } c o failure

section Steps

variable (maxOpenFiles : Nat)

/-- The next atomic step of a call; one that has to wait changes nothing. -/
def advance (s : Files ο κ) (c : κ) (opens : Bool) : Files ο κ :=
  match s.calls c with
  | none => s
  | some (o, code) =>
      match code with
      | .done => s
      | .open success failure =>
          if o ∈ s.opened then s.goOn c o success
          else if s.currentOpenedFiles < maxOpenFiles then s.openFile c o success failure opens
          else s.goOn c o (.wait success failure)
      | .wait success failure =>
          if s.currentOpenedFiles < maxOpenFiles then s.openFile c o success failure opens
          else s
      | .close next => (s.closeFile o).goOn c o next
      | .getlines next =>
          -- the loop ends when the stream fails
          { s with failed := Function.update s.failed o true }.goOn c o next
      | .write data next =>
          if s.writer o = none then (s.writeFile c o data).goOn c o next else s
      | .arm next =>
          -- a handler that waits is cancelled, one whose time has come is not
          { s with armed := Function.update s.armed o true }.goOn c o next
      | .unlock next =>
          { s with writer := Function.update s.writer o none }.goOn c o next

/-- What can happen: a call starts, a call takes its next step, the time of a
    timer comes, a handler whose time has come starts its `close`. -/
inductive Act (ο κ : Type) where
  | start (c : κ) (o : ο) (op : Operation)
  | step (c : κ) (opens : Bool)
  | expire (o : ο)
  | fire (c : κ) (o : ο)

/-- One thing that happens; a call starts once. -/
def act (s : Files ο κ) : Act ο κ → Files ο κ
  | .start c o op => if s.calls c = none then s.goOn c o op.code else s
  | .step c opens => s.advance maxOpenFiles c opens
  | .expire o =>
      if s.armed o then
        { s with
          armed := Function.update s.armed o false
          expired := Function.update s.expired o (s.expired o + 1) }
      else s
  | .fire c o =>
      if s.calls c = none ∧ 0 < s.expired o then
        { s with expired := Function.update s.expired o (s.expired o - 1) }.goOn c o
          (.close .done)
      else s

end Steps

/-! ## What a step does to the counter -/

@[simp] theorem goOn_opened (s : Files ο κ) (c : κ) (o : ο) (code : Code) :
    (s.goOn c o code).opened = s.opened := rfl

@[simp] theorem goOn_current (s : Files ο κ) (c : κ) (o : ο) (code : Code) :
    (s.goOn c o code).currentOpenedFiles = s.currentOpenedFiles := rfl

@[simp] theorem goOn_failed (s : Files ο κ) (c : κ) (o : ο) (code : Code) :
    (s.goOn c o code).failed = s.failed := rfl

@[simp] theorem goOn_reached (s : Files ο κ) (c : κ) (o : ο) (code : Code) :
    (s.goOn c o code).reached = s.reached := rfl

/-- The counter and the opened objects move together: both stay, a closed object
    is opened below the limit, or an opened one is closed. -/
inductive Moves (maxOpenFiles : Nat) (s t : Files ο κ) : Prop
  | stay (hc : t.currentOpenedFiles = s.currentOpenedFiles) (ho : t.opened = s.opened)
  | opens (o : ο) (hnew : o ∉ s.opened) (hlimit : s.currentOpenedFiles < maxOpenFiles)
      (hc : t.currentOpenedFiles = s.currentOpenedFiles + 1) (ho : t.opened = insert o s.opened)
  | closes (o : ο) (hold : o ∈ s.opened)
      (hc : t.currentOpenedFiles = s.currentOpenedFiles - 1) (ho : t.opened = s.opened.erase o)

/-- The wait of an `open` ends on an object that was opened meanwhile. -/
def LateOpen (maxOpenFiles : Nat) (s : Files ο κ) : Act ο κ → Prop
  | .step c _ => ∃ o success failure, s.calls c = some (o, .wait success failure)
      ∧ s.currentOpenedFiles < maxOpenFiles ∧ o ∈ s.opened
  | _ => False

/-- Past its wait, `open` on a closed object moves the two together. -/
theorem openFile_moves {maxOpenFiles : Nat} {s : Files ο κ} (c : κ) {o : ο}
    (success failure : Code) (opens : Bool) (hnew : o ∉ s.opened)
    (hlimit : s.currentOpenedFiles < maxOpenFiles) :
    Moves maxOpenFiles s (s.openFile c o success failure opens) := by
  unfold openFile
  rw [if_neg hnew]
  cases opens with
  | true => exact .opens o hnew hlimit rfl rfl
  | false => exact .stay rfl rfl

theorem closeFile_moves (maxOpenFiles : Nat) (s : Files ο κ) (c : κ) (o : ο) (next : Code) :
    Moves maxOpenFiles s ((s.closeFile o).goOn c o next) := by
  unfold closeFile
  by_cases ho : o ∈ s.opened
  · rw [if_pos ho]
    exact .closes o ho rfl rfl
  · rw [if_neg ho]
    exact .stay rfl rfl

/-- The step of a call moves the two together, unless it is a late `open`. -/
theorem advance_moves {maxOpenFiles : Nat} {s : Files ο κ} {c : κ} {opens : Bool}
    (h : ¬ LateOpen maxOpenFiles s (.step c opens)) :
    Moves maxOpenFiles s (s.advance maxOpenFiles c opens) := by
  cases hcall : s.calls c with
  | none =>
      simp only [advance, hcall]
      exact .stay rfl rfl
  | some p =>
      obtain ⟨o, code⟩ := p
      simp only [advance, hcall]
      cases code with
      | done => exact .stay rfl rfl
      | «open» success failure =>
          dsimp only
          by_cases ho : o ∈ s.opened
          · rw [if_pos ho]
            exact .stay rfl rfl
          · rw [if_neg ho]
            by_cases hlimit : s.currentOpenedFiles < maxOpenFiles
            · rw [if_pos hlimit]
              exact openFile_moves c success failure opens ho hlimit
            · rw [if_neg hlimit]
              exact .stay rfl rfl
      | wait success failure =>
          dsimp only
          by_cases hlimit : s.currentOpenedFiles < maxOpenFiles
          · rw [if_pos hlimit]
            have ho : o ∉ s.opened := fun ho => h ⟨o, success, failure, hcall, hlimit, ho⟩
            exact openFile_moves c success failure opens ho hlimit
          · rw [if_neg hlimit]
            exact .stay rfl rfl
      | close next => exact closeFile_moves maxOpenFiles s c o next
      | getlines next => exact .stay rfl rfl
      | write data next =>
          dsimp only
          by_cases hw : s.writer o = none
          · rw [if_pos hw]
            exact .stay (by simp) (by simp)
          · rw [if_neg hw]
            exact .stay rfl rfl
      | arm next => exact .stay rfl rfl
      | unlock next => exact .stay rfl rfl

/-- So does everything else that can happen. -/
theorem act_moves {maxOpenFiles : Nat} {s : Files ο κ} {a : Act ο κ}
    (h : ¬ LateOpen maxOpenFiles s a) : Moves maxOpenFiles s (s.act maxOpenFiles a) := by
  cases a with
  | start c o op =>
      simp only [act]
      split <;> exact .stay rfl rfl
  | step c opens => exact advance_moves h
  | expire o =>
      simp only [act]
      split <;> exact .stay rfl rfl
  | fire c o =>
      simp only [act]
      split <;> exact .stay rfl rfl

/-- A late `open` moves the counter alone. -/
theorem act_late {maxOpenFiles : Nat} {s : Files ο κ} {a : Act ο κ}
    (h : LateOpen maxOpenFiles s a) :
    s.currentOpenedFiles < maxOpenFiles
      ∧ (s.act maxOpenFiles a).currentOpenedFiles = s.currentOpenedFiles + 1
      ∧ (s.act maxOpenFiles a).opened = s.opened := by
  cases a with
  | start c o op => exact h.elim
  | expire o => exact h.elim
  | fire c o => exact h.elim
  | step c opens =>
      obtain ⟨o, success, failure, hcall, hlimit, ho⟩ := h
      refine ⟨hlimit, ?_, ?_⟩
      · simp only [act, advance, hcall, if_pos hlimit, openFile, if_pos ho, goOn_current]
      · simp only [act, advance, hcall, if_pos hlimit, openFile, if_pos ho, goOn_opened]

/-! ## The accounting over whole runs -/

/-- By how much the counter exceeds the number of opened objects. -/
def drift (s : Files ο κ) : Int := s.currentOpenedFiles - s.opened.card

/-- **STEP LEMMA**: the drift stays, and grows by one at a late `open`. -/
theorem drift_act (maxOpenFiles : Nat) (s : Files ο κ) (a : Act ο κ) :
    (¬ LateOpen maxOpenFiles s a → (s.act maxOpenFiles a).drift = s.drift)
      ∧ (LateOpen maxOpenFiles s a → (s.act maxOpenFiles a).drift = s.drift + 1) := by
  constructor
  · intro h
    unfold drift
    cases act_moves h with
    | stay hc ho => rw [hc, ho]
    | opens o hnew _ hc ho =>
        rw [hc, ho, Finset.card_insert_of_notMem hnew]
        push_cast
        omega
    | closes o hold hc ho =>
        have hcard := Finset.card_erase_add_one hold
        rw [hc, ho]
        omega
  · intro h
    obtain ⟨_, hc, ho⟩ := act_late h
    unfold drift
    rw [hc, ho]
    omega

/-- **RUN LEMMA**: the drift is what it was exactly when no `open` was late. -/
theorem run_drift (maxOpenFiles : Nat) (acts : List (Act ο κ)) (s : Files ο κ) :
    s.drift ≤ (run (act maxOpenFiles) s acts).drift
      ∧ ((run (act maxOpenFiles) s acts).drift = s.drift
        ↔ AllSteps (act maxOpenFiles) (fun t a => ¬ LateOpen maxOpenFiles t a) s acts) := by
  induction acts generalizing s with
  | nil => exact ⟨le_refl _, fun _ => True.intro, fun _ => rfl⟩
  | cons a acts ih =>
      obtain ⟨hle, hiff⟩ := ih (s.act maxOpenFiles a)
      obtain ⟨hkeep, hgrow⟩ := drift_act maxOpenFiles s a
      rw [run_cons, AllSteps]
      by_cases hlate : LateOpen maxOpenFiles s a
      · -- what was added is never taken back
        have hstep := hgrow hlate
        refine ⟨by omega, fun heq => ?_, fun hall => absurd hlate hall.1⟩
        omega
      · have hstep := hkeep hlate
        rw [hstep] at hle hiff
        exact ⟨hle, fun heq => ⟨hlate, hiff.mp heq⟩, fun hall => hiff.mpr hall.2⟩

/-- The counter stays within the limit. -/
theorem current_le_max (maxOpenFiles : Nat) (acts : List (Act ο κ)) {s : Files ο κ}
    (hs : s.currentOpenedFiles ≤ maxOpenFiles) :
    (run (act maxOpenFiles) s acts).currentOpenedFiles ≤ maxOpenFiles := by
  refine run_invariant (I := fun t : Files ο κ => t.currentOpenedFiles ≤ maxOpenFiles) ?_ acts s hs
  intro t a ht
  by_cases hlate : LateOpen maxOpenFiles t a
  · obtain ⟨hlimit, hc, _⟩ := act_late hlate
    rw [hc]
    omega
  · cases act_moves hlate with
    | stay hc _ => rw [hc]; exact ht
    | opens _ _ hlimit hc _ => rw [hc]; omega
    | closes _ _ hc _ => rw [hc]; omega

/-- **OPENED FILES ARE COUNTED**: after any interleaving of calls on any objects
    the counter is the number of objects that are open if and only if no wait of
    `open` ended on an object that was open by then; the counter never exceeds
    the limit. -/
theorem opened_files_counted_iff (maxOpenFiles : Nat) (acts : List (Act ο κ)) :
    ((run (act maxOpenFiles) (initial : Files ο κ) acts).currentOpenedFiles
        = ((run (act maxOpenFiles) (initial : Files ο κ) acts).opened.card : Int)
      ↔ AllSteps (act maxOpenFiles) (fun s a => ¬ LateOpen maxOpenFiles s a) initial acts)
    ∧ (run (act maxOpenFiles) (initial : Files ο κ) acts).currentOpenedFiles ≤ maxOpenFiles := by
  obtain ⟨_, hiff⟩ := run_drift maxOpenFiles acts (initial : Files ο κ)
  have hzero : (initial : Files ο κ).drift = 0 := rfl
  rw [hzero] at hiff
  refine ⟨?_, current_le_max maxOpenFiles acts (Int.natCast_nonneg _)⟩
  rw [← hiff]
  unfold drift
  omega

/-- Two calls wait for object 0 with two others open; both go on, the second
    after the first has opened it. -/
def lateOpenRun : List (Act Nat Nat) :=
  [.start 0 1 .construct, .step 0 true, .start 1 2 .construct, .step 1 true,
   .start 2 0 .construct, .step 2 true, .start 3 0 (.write "x" true), .step 3 true,
   .start 4 1 .close, .step 4 true, .step 2 true,
   .start 5 2 .close, .step 5 true, .step 3 true]

/-- Under a limit of two files the counter then says two with one object open. -/
theorem late_open_counts_twice :
    (run (act 2) initial lateOpenRun).currentOpenedFiles = 2
      ∧ (run (act 2) initial lateOpenRun).opened.card = 1
      ∧ (run (act 2) initial lateOpenRun).currentOpenedFiles
        ≠ ((run (act 2) initial lateOpenRun).opened.card : Int) := by
  decide +kernel

end Files

end H2File
