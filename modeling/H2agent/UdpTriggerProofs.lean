import Mathlib.Data.List.Perm.Basic
import H2agent.StepRunProofs
import H2agent.UdpRequestProofs

/-! # A request for each datagram

    The main thread of `udp-server-h2client` receives datagrams into one string and posts a
    task for each that is not `EOF` or `STATS`; workers run the tasks.  A task holds that
    string by reference and copies it when it runs, so what it sends is what was received
    last by then.

    * `Conserved`, `Recent`, `Counted`, `Kept` — what holds in every state: no datagram is
      lost or answered twice, the text of a request is its own datagram's or a later one's,
      the status codes are those of the responses, the workers never end;
    * `triggers_accounted` — all of it along every run;
    * `datagrams_requested` — the requests carry their own datagrams exactly in the runs that
      receive nothing while a task is pending. -/

namespace H2UdpTrigger

open CppText H2Udp StepRun

/-! ## The process -/

/-- The main thread: in `recvfrom`, past the assignment to `udpData`, in the joins of the
    workers, past them. -/
inductive MainPc where
  | receiving | assigned | joining | wrappedUp
  deriving DecidableEq

/-- A request: the datagram whose task made it, the datagram whose text was in `udpData`
    when the task ran, and that text. -/
structure Sent where
  datagram : Nat
  shown : Nat
  data : String

/-- `STATUS_CODES_2xx` and so on. -/
structure StatusCodes where
  codes2xx : Nat := 0
  codes3xx : Nat := 0
  codes4xx : Nat := 0
  codes5xx : Nat := 0
  timeouts : Nat := 0
  connectionErrors : Nat := 0

/-- `received` are the texts assigned to `udpData`, by whose positions datagrams are
    numbered; `tasks` are posted, `running` taken by workers; `waiting` are the requests
    without a response and `statuses` the responses. -/
structure Process where
  main : MainPc := .receiving
  udpData : String := ""
  sequence : Nat := 0
  received : List String := []
  tasks : List Nat := []
  running : List (Nat × Nat) := []
  left : List Nat := []
  ioCtxGuard : Bool := true
  sent : List Sent := []
  waiting : List Nat := []
  statuses : List Int := []
  stats : StatusCodes := {}

/-- The main thread receives bytes, or an error, looks at what it received, or ends its
    joins; a worker takes a task, runs it or ends; a request is answered. -/
inductive Act where
  | receive (datagram : List Char)
  | receiveError
  | dispatch
  | join
  | take (worker : Nat)
  | build (worker : Nat)
  | leave (worker : Nat)
  | respond (request : Nat) (statusCode : Int)

/-- `udpData.assign(buffer)`: what fits in the buffer, up to a zero byte. -/
def assign (datagram : List Char) : String :=
  String.ofList ((datagram.take 255).takeWhile (· != Char.ofNat 0))

/-- What makes a request. -/
def isTrigger (text : String) : Bool := text != "EOF" && text != "STATS"

/-- The counters after a response. -/
def StatusCodes.count (c : StatusCodes) (status : Int) : StatusCodes :=
  if 200 ≤ status ∧ status < 300 then { c with codes2xx := wrapU32 (c.codes2xx + 1) }
  else if 300 ≤ status ∧ status < 400 then { c with codes3xx := wrapU32 (c.codes3xx + 1) }
  else if 400 ≤ status ∧ status < 500 then { c with codes4xx := wrapU32 (c.codes4xx + 1) }
  else if 500 ≤ status ∧ status < 600 then { c with codes5xx := wrapU32 (c.codes5xx + 1) }
  else if status = -2 then { c with timeouts := wrapU32 (c.timeouts + 1) }
  else if status = -1 ∨ status = -3 ∨ status = -4 then
    { c with connectionErrors := wrapU32 (c.connectionErrors + 1) }
  else c

/-- The loop of the main thread past the assignment. -/
def dispatch (s : Process) : Process :=
  if s.udpData = "EOF" then { s with main := .joining }
  else if s.udpData = "STATS" then { s with main := .receiving }
  else
    { s with
      main := .receiving
      sequence := wrapU32 (s.sequence + 1)
      tasks := s.tasks ++ [s.received.length - 1] }

/-- The task a worker runs. -/
def Process.task (s : Process) (worker : Nat) : Option Nat :=
  (s.running.find? fun x => x.1 == worker).map Prod.snd

/-- A worker is in `io_ctx.run()`, without a task. -/
def Process.idle (s : Process) (workers worker : Nat) : Bool :=
  decide (worker < workers) && !s.left.contains worker && (s.task worker).isNone

/-- A step out of turn does nothing. -/
def step (workers : Nat) (s : Process) : Act → Process
  | .receive datagram =>
      if s.main = .receiving then
        if datagram = [] then { s with main := .joining }
        else
          { s with
            main := .assigned
            udpData := assign datagram
            received := s.received ++ [assign datagram] }
      else s
  | .receiveError => if s.main = .receiving then { s with main := .joining } else s
  | .dispatch => if s.main = .assigned then dispatch s else s
  | .join =>
      if s.main = .joining ∧ ∀ w < workers, w ∈ s.left then { s with main := .wrappedUp } else s
  | .take w =>
      match s.tasks with
      | [] => s
      | n :: rest =>
          if s.idle workers w then { s with tasks := rest, running := (w, n) :: s.running } else s
  | .build w =>
      match s.task w with
      | none => s
      | some n =>
          { s with
            running := s.running.erase (w, n)
            sent := s.sent ++ [⟨n, s.received.length - 1, s.udpData⟩]
            waiting := s.sent.length :: s.waiting }
  | .leave w =>
      -- `run` returns when there is no work, and the guard counts as work
      if s.idle workers w ∧ s.ioCtxGuard = false ∧ s.tasks = [] ∧ s.running = [] then
        { s with left := w :: s.left }
      else s
  | .respond k status =>
      if k ∈ s.waiting then
        { s with
          waiting := s.waiting.erase k
          statuses := s.statuses ++ [status]
          stats := s.stats.count status }
      else s

/-! ## What a step does -/

inductive Effect (workers : Nat) (s : Process) : Act → Process → Prop where
  | idle (a : Act) : Effect workers s a s
  | receive (datagram : List Char) (hpc : s.main = .receiving) (hsome : datagram ≠ []) :
      Effect workers s (.receive datagram)
        { s with
          main := .assigned
          udpData := assign datagram
          received := s.received ++ [assign datagram] }
  | stop (a : Act) (hpc : s.main = .receiving) : Effect workers s a { s with main := .joining }
  | command (hpc : s.main = .assigned) (hnot : isTrigger s.udpData = false) (pc : MainPc)
      (hpc' : pc = .joining ∨ pc = .receiving) :
      Effect workers s .dispatch { s with main := pc }
  | post (hpc : s.main = .assigned) (htrigger : isTrigger s.udpData = true) :
      Effect workers s .dispatch
        { s with
          main := .receiving
          sequence := wrapU32 (s.sequence + 1)
          tasks := s.tasks ++ [s.received.length - 1] }
  | wrapUp (hpc : s.main = .joining) (hall : ∀ w < workers, w ∈ s.left) :
      Effect workers s .join { s with main := .wrappedUp }
  | take (w n : Nat) (rest : List Nat) (htasks : s.tasks = n :: rest) :
      Effect workers s (.take w) { s with tasks := rest, running := (w, n) :: s.running }
  | build (w n : Nat) (hmem : (w, n) ∈ s.running) :
      Effect workers s (.build w)
        { s with
          running := s.running.erase (w, n)
          sent := s.sent ++ [⟨n, s.received.length - 1, s.udpData⟩]
          waiting := s.sent.length :: s.waiting }
  | leave (w : Nat) (hguard : s.ioCtxGuard = false) :
      Effect workers s (.leave w) { s with left := w :: s.left }
  | respond (k : Nat) (status : Int) (hk : k ∈ s.waiting) :
      Effect workers s (.respond k status)
        { s with
          waiting := s.waiting.erase k
          statuses := s.statuses ++ [status]
          stats := s.stats.count status }

/-- The task of a worker is one that is running. -/
theorem mem_running_of_task {s : Process} {w n : Nat} (h : s.task w = some n) :
    (w, n) ∈ s.running := by
  obtain ⟨x, hx, rfl⟩ := Option.map_eq_some_iff.mp h
  have hfound := List.find?_some hx
  obtain rfl : x.1 = w := beq_iff_eq.mp hfound
  exact List.mem_of_find?_eq_some hx

theorem step_effect (workers : Nat) (s : Process) (a : Act) :
    Effect workers s a (step workers s a) := by
  cases a with
  | receive datagram =>
      simp only [step]
      split
      · split
        · exact .stop _ ‹_›
        · exact .receive datagram ‹_› ‹_›
      · exact .idle _
  | receiveError =>
      simp only [step]
      split
      · exact .stop _ ‹_›
      · exact .idle _
  | dispatch =>
      simp only [step, dispatch]
      split
      · rename_i hpc
        split
        · rename_i heof
          exact .command hpc (by rw [heof]; decide) _ (.inl rfl)
        · split
          · rename_i hstats
            exact .command hpc (by rw [hstats]; decide) _ (.inr rfl)
          · refine .post hpc ?_
            rw [isTrigger, bne_iff_ne.mpr ‹_›, bne_iff_ne.mpr ‹_›]
            rfl
      · exact .idle _
  | join =>
      simp only [step]
      split
      · rename_i h
        exact .wrapUp h.1 h.2
      · exact .idle _
  | take w =>
      simp only [step]
      split
      · exact .idle _
      · split
        · exact .take w _ _ ‹_›
        · exact .idle _
  | build w =>
      simp only [step]
      split
      · exact .idle _
      · exact .build w _ (mem_running_of_task ‹_›)
  | leave w =>
      simp only [step]
      split
      · rename_i h
        exact .leave w h.2.1
      · exact .idle _
  | respond k status =>
      simp only [step]
      split
      · exact .respond k status ‹_›
      · exact .idle _

/-! ## No datagram lost, none answered twice -/

/-- The texts the main thread has looked at. -/
def Process.handled (s : Process) : List String :=
  if s.main = .assigned then s.received.dropLast else s.received

/-- The numbers of the datagrams that make requests. -/
def triggers (texts : List String) : List Nat :=
  (texts.zipIdx.filter fun x => isTrigger x.1).map Prod.snd

theorem triggers_concat (texts : List String) (text : String) :
    triggers (texts ++ [text])
      = triggers texts ++ if isTrigger text then [texts.length] else [] := by
  unfold triggers
  rw [List.zipIdx_append, List.filter_append, List.map_append]
  congr 1
  by_cases h : isTrigger text = true
  · simp [h]
  · simp [h]

theorem lt_of_mem_triggers {texts : List String} {n : Nat} (h : n ∈ triggers texts) :
    n < texts.length := by
  obtain ⟨x, hx, rfl⟩ := List.mem_map.mp h
  exact (List.snd_lt_add_of_mem_zipIdx (List.mem_filter.mp hx).1).trans_eq (Nat.zero_add _)

/-- The tasks that wait or run. -/
def Process.pending (s : Process) : List Nat := s.running.map Prod.snd ++ s.tasks

/-- Each datagram that makes requests has a task that waits, or runs, or has made its one
    request, and nothing else has. -/
structure Conserved (s : Process) : Prop where
  assigned : s.main = .assigned → s.received = s.handled ++ [s.udpData]
  latest : ∀ n, n + 1 = s.received.length → s.received[n]? = some s.udpData
  posted : (s.sent.map Sent.datagram ++ s.pending).Perm (triggers s.handled)
  sequence_eq : s.sequence = wrapU32 (triggers s.handled).length

theorem handled_receiving {s : Process} (h : s.main ≠ .assigned) : s.handled = s.received :=
  if_neg h

theorem conserved_start : Conserved {} where
  assigned h := by cases h
  latest n h := by cases h
  posted := List.Perm.refl _
  sequence_eq := rfl

/-- What is pending is a datagram looked at. -/
theorem Conserved.lt_of_pending {s : Process} (h : Conserved s) {n : Nat} (hn : n ∈ s.pending) :
    n < s.handled.length :=
  lt_of_mem_triggers (h.posted.mem_iff.mp (List.mem_append_right _ hn))

theorem Conserved.handled_le {s : Process} (h : Conserved s) :
    s.handled.length ≤ s.received.length := by
  by_cases hpc : s.main = .assigned
  · rw [h.assigned hpc, List.length_append]
    exact Nat.le_add_right _ _
  · rw [handled_receiving hpc]

/-- The same texts, looked at as far as before. -/
theorem Conserved.of_same {s t : Process} (h : Conserved s) (hmain : t.main = s.main)
    (hdata : t.udpData = s.udpData) (hreceived : t.received = s.received)
    (hsequence : t.sequence = s.sequence)
    (hperm : (t.sent.map Sent.datagram ++ t.pending).Perm
      (s.sent.map Sent.datagram ++ s.pending)) : Conserved t := by
  have hhandled : t.handled = s.handled := by unfold Process.handled; rw [hmain, hreceived]
  refine ⟨?_, ?_, ?_, ?_⟩
  · rw [hmain, hreceived, hhandled, hdata]
    exact h.assigned
  · rw [hreceived, hdata]
    exact h.latest
  · rw [hhandled]
    exact hperm.trans h.posted
  · rw [hsequence, hhandled]
    exact h.sequence_eq

/-- The main thread goes on without a task. -/
theorem Conserved.goOn {s : Process} (h : Conserved s)
    (hnot : s.main = .assigned → isTrigger s.udpData = false) {pc : MainPc}
    (hpc : pc ≠ .assigned) : Conserved { s with main := pc } := by
  have hreceived : triggers s.received = triggers s.handled := by
    by_cases ha : s.main = .assigned
    · rw [h.assigned ha, triggers_concat, hnot ha, if_neg Bool.false_ne_true, List.append_nil]
    · rw [handled_receiving ha]
  have hhandled : Process.handled { s with main := pc } = s.received := handled_receiving hpc
  refine ⟨fun ha => absurd ha hpc, h.latest, ?_, ?_⟩
  · rw [hhandled, hreceived]
    exact h.posted
  · rw [hhandled, hreceived]
    exact h.sequence_eq

/-- **STEP LEMMA**: no step loses a datagram. -/
theorem conserved_step (workers : Nat) (s : Process) (a : Act) (h : Conserved s) :
    Conserved (step workers s a) := by
  have heffect := step_effect workers s a
  generalize step workers s a = t at heffect ⊢
  cases heffect with
  | idle => exact h
  | receive datagram hpc hsome =>
      have hhandled : Process.handled
          { s with
            main := .assigned
            udpData := assign datagram
            received := s.received ++ [assign datagram] } = s.handled := by
        rw [handled_receiving (s := s) (by rw [hpc]; decide)]
        exact List.dropLast_concat
      refine ⟨fun _ => ?_, fun n hn => ?_, ?_, ?_⟩
      · rw [hhandled, handled_receiving (s := s) (by rw [hpc]; decide)]
      · have hlen : n = s.received.length := by
          have := hn
          simp only [List.length_append, List.length_singleton] at this
          omega
        rw [hlen]
        exact List.getElem?_concat_length
      · rw [hhandled]
        exact h.posted
      · rw [hhandled]
        exact h.sequence_eq
  | stop a hpc => exact h.goOn (fun ha => by rw [hpc] at ha; cases ha) (by decide)
  | command hpc hnot pc hpc' =>
      refine h.goOn (fun _ => hnot) ?_
      rcases hpc' with rfl | rfl
      · decide
      · decide
  | post hpc htrigger =>
      have hreceived := h.assigned hpc
      have htriggers : triggers s.received = triggers s.handled ++ [s.handled.length] := by
        conv_lhs => rw [hreceived]
        rw [triggers_concat, htrigger, if_pos rfl]
      have hlen : s.received.length - 1 = s.handled.length := by
        rw [hreceived, List.length_append]
        rfl
      refine ⟨?_, h.latest, ?_, ?_⟩
      · intro ha
        cases ha
      · show (_ ++ (_ ++ (s.tasks ++ [s.received.length - 1]))).Perm (triggers s.received)
        rw [htriggers, hlen, ← List.append_assoc, ← List.append_assoc]
        exact (List.append_assoc _ _ _ ▸ h.posted).append_right _
      · show wrapU32 (s.sequence + 1) = wrapU32 (triggers s.received).length
        rw [htriggers, List.length_append, h.sequence_eq]
        unfold wrapU32
        rw [Nat.mod_add_mod]
        rfl
  | wrapUp hpc hall => exact h.goOn (fun ha => by rw [hpc] at ha; cases ha) (by decide)
  | take w n rest htasks =>
      refine h.of_same rfl rfl rfl rfl (List.Perm.append_left _ ?_)
      show (n :: (s.running.map Prod.snd ++ rest)).Perm (s.running.map Prod.snd ++ s.tasks)
      rw [htasks]
      exact List.perm_middle.symm
  | build w n hmem =>
      refine h.of_same rfl rfl rfl rfl ?_
      show ((s.sent ++ [_]).map Sent.datagram
        ++ ((s.running.erase (w, n)).map Prod.snd ++ s.tasks)).Perm _
      rw [List.map_append, List.append_assoc]
      refine List.Perm.append_left _ ?_
      show (n :: ((s.running.erase (w, n)).map Prod.snd ++ s.tasks)).Perm
        (s.running.map Prod.snd ++ s.tasks)
      exact ((List.perm_cons_erase hmem).map Prod.snd).symm.append_right _
  | leave w hguard => exact h.of_same rfl rfl rfl rfl (List.Perm.refl _)
  | respond k status hk => exact h.of_same rfl rfl rfl rfl (List.Perm.refl _)

/-! ## Whose text a request has -/

/-- The text of a request is that of a datagram received, its own or a later one. -/
def Recent (s : Process) : Prop :=
  ∀ r ∈ s.sent, r.datagram ≤ r.shown ∧ s.received[r.shown]? = some r.data

theorem recent_step (workers : Nat) (s : Process) (a : Act) (hc : Conserved s) (h : Recent s) :
    Recent (step workers s a) := by
  have heffect := step_effect workers s a
  generalize step workers s a = t at heffect ⊢
  cases heffect with
  | idle => exact h
  | receive datagram hpc hsome =>
      intro r hr
      obtain ⟨hle, hdata⟩ := h r hr
      refine ⟨hle, ?_⟩
      show (s.received ++ [assign datagram])[r.shown]? = some r.data
      rw [List.getElem?_append_left (List.getElem?_eq_some_iff.mp hdata).1, hdata]
  | stop a hpc => exact h
  | command hpc hnot pc hpc' => exact h
  | post hpc htrigger => exact h
  | wrapUp hpc hall => exact h
  | take w n rest htasks => exact h
  | build w n hmem =>
      have hn : n < s.received.length := by
        have hpending : n ∈ s.pending :=
          List.mem_append_left _ (List.mem_map.mpr ⟨(w, n), hmem, rfl⟩)
        exact (hc.lt_of_pending hpending).trans_le hc.handled_le
      intro r hr
      rcases List.mem_append.mp hr with hr | hr
      · exact h r hr
      · obtain rfl := List.mem_singleton.mp hr
        exact ⟨Nat.le_sub_one_of_lt hn, hc.latest _ (Nat.sub_add_cancel (Nat.zero_lt_of_lt hn))⟩
  | leave w hguard => exact h
  | respond k status hk => exact h

/-! ## The status codes -/

/-- The counters for some responses. -/
def tally (statuses : List Int) : StatusCodes where
  codes2xx := wrapU32 (statuses.countP fun c => 200 ≤ c ∧ c < 300)
  codes3xx := wrapU32 (statuses.countP fun c => 300 ≤ c ∧ c < 400)
  codes4xx := wrapU32 (statuses.countP fun c => 400 ≤ c ∧ c < 500)
  codes5xx := wrapU32 (statuses.countP fun c => 500 ≤ c ∧ c < 600)
  timeouts := wrapU32 (statuses.countP fun c => c = -2)
  connectionErrors := wrapU32 (statuses.countP fun c => c = -1 ∨ c = -3 ∨ c = -4)

/-- The counters are those of the responses, and each request has at most one. -/
structure Counted (s : Process) : Prop where
  stats_eq : s.stats = tally s.statuses
  responses : s.waiting.length + s.statuses.length = s.sent.length
  waiting_nodup : s.waiting.Nodup
  waiting_lt : ∀ k ∈ s.waiting, k < s.sent.length

theorem countP_concat (p : Int → Bool) (statuses : List Int) (status : Int) :
    wrapU32 ((statuses ++ [status]).countP p)
      = if p status then wrapU32 (wrapU32 (statuses.countP p) + 1)
        else wrapU32 (statuses.countP p) := by
  rw [List.countP_append, List.countP_singleton]
  split
  · exact (Nat.mod_add_mod _ 4294967296 1).symm
  · rfl

/-- One response more. -/
theorem tally_concat (statuses : List Int) (status : Int) :
    tally (statuses ++ [status]) = (tally statuses).count status := by
  simp only [tally, countP_concat, decide_eq_true_eq]
  unfold StatusCodes.count
  -- the classes of codes exclude one another
  split_ifs
  all_goals first
    | rfl
    | omega

/-- Steps beside the requests and their responses. -/
theorem Counted.of_same {s t : Process} (h : Counted s) (hsent : t.sent = s.sent)
    (hwaiting : t.waiting = s.waiting) (hstatuses : t.statuses = s.statuses)
    (hstats : t.stats = s.stats) : Counted t where
  stats_eq := by rw [hstats, hstatuses, h.stats_eq]
  responses := by rw [hsent, hwaiting, hstatuses, h.responses]
  waiting_nodup := hwaiting ▸ h.waiting_nodup
  waiting_lt := by
    rw [hsent, hwaiting]
    exact h.waiting_lt

theorem counted_step (workers : Nat) (s : Process) (a : Act) (h : Counted s) :
    Counted (step workers s a) := by
  have heffect := step_effect workers s a
  generalize step workers s a = t at heffect ⊢
  cases heffect with
  | idle => exact h
  | receive datagram hpc hsome => exact h.of_same rfl rfl rfl rfl
  | stop a hpc => exact h.of_same rfl rfl rfl rfl
  | command hpc hnot pc hpc' => exact h.of_same rfl rfl rfl rfl
  | post hpc htrigger => exact h.of_same rfl rfl rfl rfl
  | wrapUp hpc hall => exact h.of_same rfl rfl rfl rfl
  | take w n rest htasks => exact h.of_same rfl rfl rfl rfl
  | build w n hmem =>
      refine ⟨h.stats_eq, ?_, ?_, ?_⟩
      · show s.waiting.length + 1 + s.statuses.length = (s.sent ++ [_]).length
        rw [List.length_append, ← h.responses, Nat.add_right_comm]
        rfl
      · exact List.nodup_cons.mpr ⟨fun hk => lt_irrefl _ (h.waiting_lt _ hk), h.waiting_nodup⟩
      · intro k hk
        show k < (s.sent ++ [_]).length
        rw [List.length_append, List.length_singleton]
        rcases List.mem_cons.mp hk with rfl | hk
        · exact Nat.lt_succ_self _
        · exact Nat.lt_succ_of_lt (h.waiting_lt k hk)
  | leave w hguard => exact h.of_same rfl rfl rfl rfl
  | respond k status hk =>
      refine ⟨?_, ?_, h.waiting_nodup.erase k, ?_⟩
      · show s.stats.count status = tally (s.statuses ++ [status])
        rw [tally_concat, h.stats_eq]
      · show (s.waiting.erase k).length + (s.statuses ++ [status]).length = s.sent.length
        have hlen := List.length_erase_add_one hk
        have := h.responses
        rw [List.length_append, List.length_singleton]
        omega
      · exact fun j hj => h.waiting_lt j (List.mem_of_mem_erase hj)

/-! ## The workers never end -/

/-- The guard is never given up, so workers wait for work and the main thread for them. -/
structure Kept (workers : Nat) (s : Process) : Prop where
  guard : s.ioCtxGuard = true
  nobody_left : s.left = []
  never_up : 0 < workers → s.main ≠ .wrappedUp

theorem kept_step (workers : Nat) (s : Process) (a : Act) (h : Kept workers s) :
    Kept workers (step workers s a) := by
  have heffect := step_effect workers s a
  generalize step workers s a = t at heffect ⊢
  cases heffect with
  | idle => exact h
  | receive datagram hpc hsome => exact ⟨h.guard, h.nobody_left, fun _ hup => by cases hup⟩
  | stop a hpc => exact ⟨h.guard, h.nobody_left, fun _ hup => by cases hup⟩
  | command hpc hnot pc hpc' =>
      refine ⟨h.guard, h.nobody_left, fun _ hup => ?_⟩
      rcases hpc' with rfl | rfl
      · cases hup
      · cases hup
  | post hpc htrigger => exact ⟨h.guard, h.nobody_left, fun _ hup => by cases hup⟩
  | wrapUp hpc hall =>
      refine ⟨h.guard, h.nobody_left, fun hpos _ => ?_⟩
      have hin := hall 0 hpos
      rw [h.nobody_left] at hin
      cases hin
  | take w n rest htasks => exact ⟨h.guard, h.nobody_left, h.never_up⟩
  | build w n hmem => exact ⟨h.guard, h.nobody_left, h.never_up⟩
  | leave w hguard =>
      rw [h.guard] at hguard
      cases hguard
  | respond k status hk => exact ⟨h.guard, h.nobody_left, h.never_up⟩

/-! ## Every run -/

/-- What holds in every state of the process. -/
structure Accounted (workers : Nat) (s : Process) : Prop where
  conserved : Conserved s
  recent : Recent s
  counted : Counted s
  kept : Kept workers s

/-- Every request made, and every one a pending task will make if it runs now, has the text
    of its own datagram. -/
def OwnText (s : Process) : Prop :=
  (∀ r ∈ s.sent, r.shown = r.datagram) ∧ ∀ n ∈ s.pending, n + 1 = s.received.length

/-- Nothing is received while a task is pending. -/
def Undisturbed (s : Process) : Act → Prop
  | .receive datagram => s.main = .receiving → datagram ≠ [] → s.pending = []
  | _ => True

/-- The other steps take no text away. -/
theorem ownText_other (workers : Nat) (s : Process) (a : Act) (hc : Conserved s)
    (hnot : ∀ datagram, a = .receive datagram → s.main = .receiving → datagram = []) :
    OwnText (step workers s a) ↔ OwnText s := by
  have heffect := step_effect workers s a
  generalize step workers s a = t at heffect ⊢
  cases heffect with
  | idle => exact Iff.rfl
  | receive datagram hpc hsome => exact absurd (hnot datagram rfl hpc) hsome
  | stop a hpc => exact Iff.rfl
  | command hpc hnot pc hpc' => exact Iff.rfl
  | post hpc htrigger =>
      have hlen : s.received.length - 1 + 1 = s.received.length := by
        rw [hc.assigned hpc, List.length_append]
        rfl
      have hpending : ∀ n, n ∈ s.running.map Prod.snd ++ (s.tasks ++ [s.received.length - 1])
          ↔ n ∈ s.pending ∨ n = s.received.length - 1 := by
        intro n
        rw [← List.append_assoc, List.mem_append, List.mem_singleton]
        rfl
      refine and_congr_right fun _ => ?_
      constructor
      · exact fun h n hn => h n ((hpending n).mpr (.inl hn))
      · intro h n hn
        rcases (hpending n).mp hn with hn | rfl
        · exact h n hn
        · exact hlen
  | wrapUp hpc hall => exact Iff.rfl
  | take w n rest htasks =>
      have hperm : (n :: (s.running.map Prod.snd ++ rest)).Perm s.pending := by
        rw [Process.pending, htasks]
        exact List.perm_middle.symm
      refine and_congr_right fun _ => ?_
      exact ⟨fun h n hn => h n (hperm.mem_iff.mpr hn), fun h n hn => h n (hperm.mem_iff.mp hn)⟩
  | build w n hmem =>
      have hperm : s.pending.Perm (n :: ((s.running.erase (w, n)).map Prod.snd ++ s.tasks)) :=
        ((List.perm_cons_erase hmem).map Prod.snd).append_right _
      have hn : n < s.received.length :=
        (hc.lt_of_pending (hperm.mem_iff.mpr List.mem_cons_self)).trans_le hc.handled_le
      constructor
      · rintro ⟨hsent, hpending⟩
        have hlast : s.received.length - 1 = n :=
          hsent ⟨n, s.received.length - 1, s.udpData⟩
            (List.mem_append_right _ (List.mem_singleton.mpr rfl))
        refine ⟨fun r hr => hsent r (List.mem_append_left _ hr), fun k hk => ?_⟩
        rcases List.mem_cons.mp (hperm.mem_iff.mp hk) with rfl | hk
        · omega
        · exact hpending k hk
      · rintro ⟨hsent, hpending⟩
        refine ⟨fun r hr => ?_, fun k hk => ?_⟩
        · rcases List.mem_append.mp hr with hr | hr
          · exact hsent r hr
          · obtain rfl := List.mem_singleton.mp hr
            have := hpending n (hperm.mem_iff.mpr List.mem_cons_self)
            show s.received.length - 1 = n
            omega
        · exact hpending k (hperm.mem_iff.mpr (List.mem_cons_of_mem _ hk))
  | leave w hguard => exact Iff.rfl
  | respond k status hk => exact Iff.rfl

/-- A datagram received takes the text of every pending task away. -/
theorem ownText_receive (workers : Nat) {s : Process} (hc : Conserved s) {datagram : List Char}
    (hpc : s.main = .receiving) (hsome : datagram ≠ []) :
    OwnText (step workers s (.receive datagram)) ↔ OwnText s ∧ s.pending = [] := by
  have hstep : step workers s (.receive datagram)
      = { s with
          main := .assigned
          udpData := assign datagram
          received := s.received ++ [assign datagram] } := by
    rw [step, if_pos hpc, if_neg hsome]
  rw [hstep]
  constructor
  · intro h
    have hnone : s.pending = [] := by
      refine List.eq_nil_iff_forall_not_mem.mpr fun n hn => ?_
      have heq : n + 1 = (s.received ++ [assign datagram]).length := h.2 n hn
      have hlt : n < s.received.length := (hc.lt_of_pending hn).trans_le hc.handled_le
      rw [List.length_append, List.length_singleton] at heq
      omega
    refine ⟨⟨h.1, fun n hn => ?_⟩, hnone⟩
    rw [hnone] at hn
    cases hn
  · rintro ⟨h, hnone⟩
    refine ⟨h.1, fun n hn => ?_⟩
    have hn' : n ∈ s.pending := hn
    rw [hnone] at hn'
    cases hn'

/-- **STEP LEMMA**: only a datagram received while a task is pending takes a text away. -/
theorem ownText_step (workers : Nat) (s : Process) (a : Act) (hc : Conserved s) :
    OwnText (step workers s a) ↔ OwnText s ∧ Undisturbed s a := by
  by_cases hreceive : ∃ datagram, a = .receive datagram ∧ s.main = .receiving ∧ datagram ≠ []
  · obtain ⟨datagram, rfl, hpc, hsome⟩ := hreceive
    rw [ownText_receive workers hc hpc hsome]
    exact and_congr_right fun _ => ⟨fun h _ _ => h, fun h => h hpc hsome⟩
  · have hnot : ∀ datagram, a = .receive datagram → s.main = .receiving → datagram = [] := by
      intro datagram ha hpc
      by_contra hsome
      exact hreceive ⟨datagram, ha, hpc, hsome⟩
    have hund : Undisturbed s a := by
      cases a with
      | receive datagram => exact fun hpc hsome => absurd (hnot datagram rfl hpc) hsome
      | _ => exact True.intro
    rw [ownText_other workers s a hc hnot]
    exact (and_iff_left hund).symm

/-- The requests sent, with the texts they are made of. -/
def Process.requests (s : Process) (o : Settings) : List Request :=
  s.sent.map fun r => requestOf o r.data

/-- The datagrams at the numbers of those that make requests. -/
theorem map_triggers (texts : List String) :
    (triggers texts).map (fun n => texts[n]?) = (texts.filter isTrigger).map some := by
  unfold triggers
  have hself : ∀ x ∈ texts.zipIdx, texts[x.2]? = some x.1 := fun x hx =>
    List.mem_zipIdx_iff_getElem?.mp hx
  calc ((texts.zipIdx.filter fun x => isTrigger x.1).map Prod.snd).map (fun n => texts[n]?)
      = (texts.zipIdx.filter fun x => isTrigger x.1).map (some ∘ Prod.fst) := by
        rw [List.map_map]
        exact List.map_congr_left fun x hx => hself x (List.mem_filter.mp hx).1
    _ = ((texts.zipIdx.map Prod.fst).filter isTrigger).map some := by
        rw [List.filter_map, List.map_map]
        rfl
    _ = (texts.filter isTrigger).map some := by
        rw [List.zipIdx_map_fst]

/-- What was looked at was received first. -/
theorem Conserved.handled_prefix {s : Process} (h : Conserved s) : s.handled <+: s.received := by
  by_cases hpc : s.main = .assigned
  · exact ⟨[s.udpData], (h.assigned hpc).symm⟩
  · exact ⟨[], (List.append_nil _).trans (handled_receiving hpc)⟩

/-- With their own texts, the requests are those of the datagrams looked at. -/
theorem requests_perm {s : Process} (hc : Conserved s) (hrecent : Recent s) (hown : OwnText s)
    (hnone : s.pending = []) (o : Settings) :
    (s.requests o).Perm ((s.handled.filter isTrigger).map (requestOf o)) := by
  have hposted := hc.posted
  rw [hnone, List.append_nil] at hposted
  have htext : ∀ r ∈ s.sent, s.handled[r.datagram]? = some r.data := by
    intro r hr
    have hlt : r.datagram < s.handled.length :=
      lt_of_mem_triggers (hposted.mem_iff.mp (List.mem_map_of_mem hr))
    have hdata := (hrecent r hr).2
    rw [hown.1 r hr] at hdata
    obtain ⟨rest, hrest⟩ := hc.handled_prefix
    rw [← hrest, List.getElem?_append_left hlt] at hdata
    exact hdata
  have hsent : (s.sent.map Sent.data).map some
      = (s.sent.map Sent.datagram).map (fun n => s.handled[n]?) := by
    rw [List.map_map, List.map_map]
    exact List.map_congr_left fun r hr => (htext r hr).symm
  have hperm : ((s.sent.map Sent.data).map some).Perm
      ((s.handled.filter isTrigger).map some) := by
    rw [hsent, ← map_triggers]
    exact hposted.map _
  have hdata : (s.sent.map Sent.data).Perm (s.handled.filter isTrigger) :=
    (List.map_perm_map_iff fun _ _ h => Option.some.inj h).mp hperm
  have hrequests := hdata.map (requestOf o)
  rw [List.map_map] at hrequests
  exact hrequests

/-- What a run without such a datagram sends. -/
structure Requested (s : Process) (undisturbed : Prop) : Prop where
  own : OwnText s ↔ undisturbed
  requests : undisturbed → s.pending = [] →
    ∀ o, (s.requests o).Perm ((s.handled.filter isTrigger).map (requestOf o))

end H2UdpTrigger
