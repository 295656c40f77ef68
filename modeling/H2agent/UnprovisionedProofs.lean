import H2agent.KeyIsolationProofs

/-! # Unprovisioned receptions

    A request that matches no provision is answered with 501 and stored all the same,
    as an event without states.  The search for the state of a key is to understand
    such an event as missing, but it looks at the last event only: an empty state
    there counts as `initial`, and the variables of the chain are dropped with it.

    `unprovisioned_transparent_iff` says when unprovisioned receptions between two
    others are not noticed by the later one. -/

namespace H2Unprovisioned

open H2Isolation H2Key H2Store H2Traffic H2Transformation StepRun

/-! ## What a reception sees -/

/-- The state and the variables a request finds under its key. -/
def sees (env : Env) (s : TrafficServer) (req : Request) : Option (String × TextMap String) :=
  (s.world.serverEvents.map.findLastRegisteredRequestState (s.normalizedKey env req)).map Prod.snd

theorem sees_eq_found (env : Env) (s : TrafficServer) (req : Request) :
    sees env s req
      = (view s.world.serverEvents.map (s.normalizedKey env req).getKey).found.map Prod.snd := by
  rw [sees, find_eq_found]

/-- A key left in the initial state: it is not there, or its last event has no state,
    or it has the state `initial` and no variables. -/
def LeftInitial (m : MockData MockEvent) (k : String) : Prop :=
  ∀ h, m.lookup k = some h →
    ∃ e, h.events.getLast? = some e
      ∧ (e.state = "" ∨ e.state = defaultState ∧ h.chainVariables = ∅)

/-- Such a key is the one that looks new. -/
theorem leftInitial_iff (m : MockData MockEvent) (k : String) :
    LeftInitial m k ↔ (view m k).found.map Prod.snd = some (defaultState, ∅) := by
  unfold LeftInitial view
  cases m.lookup k with
  | none =>
      refine ⟨fun _ => rfl, fun _ h hn => ?_⟩
      cases hn
  | some h =>
      simp only [Option.map_some, View.found, List.getLast?_map, Option.some.injEq, forall_eq']
      cases h.events.getLast? with
      | none => simp
      | some e =>
          simp only [Option.map_some, Option.some.injEq, exists_eq_left']
          by_cases he : e.state.isEmpty = true
          · rw [if_pos he]
            exact ⟨fun _ => rfl, fun _ => .inl (String.isEmpty_iff.mp he)⟩
          · rw [if_neg he]
            have hne : e.state ≠ "" := fun h => he (String.isEmpty_iff.mpr h)
            simp [hne]

/-! ## A run of unprovisioned receptions -/

/-- The server after an unprovisioned reception. -/
def unknown (env : Env) (s : TrafficServer) (req : Request) : TrafficServer :=
  { s with world := s.registerUnknown env req }

/-- Each of the requests in turn matches no provision. -/
def Unprovisioned (env : Env) : TrafficServer → List Request → Prop
  | _, [] => True
  | s, r :: rs =>
      (∃ c, s.process env r = .ok (.unprovisioned c)) ∧ Unprovisioned env (unknown env s r) rs

/-- Some of the requests is for the key, and is stored. -/
def Stored (env : Env) (s : TrafficServer) (rs : List Request) (k : String) : Prop :=
  s.serverData = true ∧ ∃ r ∈ rs, (s.normalizedKey env r).getKey = k

theorem found_load_unknown (x : View) :
    (x.load "" true).found = some (true, defaultState, ∅) := by
  cases x with
  | none => rfl
  | some y =>
      show View.found (some (y.1 ++ [""], y.2)) = _
      simp [View.found]

/-- **STEP LEMMA**: an unprovisioned reception makes its key look new, and leaves the
    others. -/
theorem view_unknown (env : Env) (s : TrafficServer) (r : Request) (k : String) :
    (Stored env s [r] k →
      (view (unknown env s r).world.serverEvents.map k).found = some (true, defaultState, ∅))
    ∧ (¬ Stored env s [r] k →
      view (unknown env s r).world.serverEvents.map k = view s.world.serverEvents.map k) := by
  have hview := view_registerUnknown env s r k
  constructor
  · rintro ⟨hdata, r', hr', hk⟩
    obtain rfl := List.mem_singleton.mp hr'
    show (view (s.registerUnknown env r').serverEvents.map k).found = _
    rw [hview, if_pos hk.symm, View.unknown, if_pos hdata]
    exact found_load_unknown _
  · intro hnot
    show view (s.registerUnknown env r).serverEvents.map k = _
    rw [hview]
    by_cases hk : k = (s.normalizedKey env r).getKey
    · have hdata : ¬ s.serverData = true :=
        fun h => hnot ⟨h, r, List.mem_singleton.mpr rfl, hk.symm⟩
      rw [if_pos hk, View.unknown, if_neg hdata]
    · rw [if_neg hk]

/-- **RUN LEMMA**: any number of them does the same to the keys that are stored. -/
theorem run_unprovisioned (env : Env) (rs : List Request) (s : TrafficServer)
    (h : Unprovisioned env s rs) :
    ∃ s', run (step env) (.ok s) (rs.map .receive) = .ok s' ∧ s'.matching = s.matching
      ∧ ∀ k,
        (Stored env s rs k →
          (view s'.world.serverEvents.map k).found = some (true, defaultState, ∅))
        ∧ (¬ Stored env s rs k →
          view s'.world.serverEvents.map k = view s.world.serverEvents.map k) := by
  induction rs generalizing s with
  | nil =>
      refine ⟨s, rfl, rfl, fun k => ⟨?_, fun _ => rfl⟩⟩
      rintro ⟨_, r, hr, _⟩
      cases hr
  | cons r rs ih =>
      obtain ⟨⟨c, hc⟩, hrs⟩ := h
      obtain ⟨s', hrun, hmatching, hkeys⟩ := ih (unknown env s r) hrs
      refine ⟨s', ?_, hmatching, fun k => ?_⟩
      · have hstep : step env (.ok s) (.receive r) = .ok (unknown env s r) := by
          simp only [step, act, TrafficServer.receive, hc]
          rfl
        rw [List.map_cons, run_cons, hstep]
        exact hrun
      · have hstep := view_unknown env s r k
        -- a later reception decides alone, otherwise this one does
        by_cases hlater : Stored env (unknown env s r) rs k
        · refine ⟨fun _ => (hkeys k).1 hlater, fun hnot => (hnot ?_).elim⟩
          obtain ⟨hdata, r', hr', hk⟩ := hlater
          exact ⟨hdata, r', List.mem_cons_of_mem r hr', hk⟩
        · rw [(hkeys k).2 hlater]
          have hsame : Stored env s (r :: rs) k ↔ Stored env s [r] k := by
            constructor
            · rintro ⟨hdata, r', hr', hk⟩
              rcases List.mem_cons.mp hr' with rfl | hr'
              · exact ⟨hdata, r', List.mem_singleton.mpr rfl, hk⟩
              · exact (hlater ⟨hdata, r', hr', hk⟩).elim
            · rintro ⟨hdata, r', hr', hk⟩
              obtain rfl := List.mem_singleton.mp hr'
              exact ⟨hdata, r', List.mem_cons_self .., hk⟩
          rw [hsame]
          exact hstep

/-- **TRANSPARENCY**: from every server, unprovisioned receptions leave what a later
    request sees as it was if and only if none of them is stored under its key, or
    the key was left in the initial state. -/
theorem unprovisioned_transparent_iff (env : Env) (s : TrafficServer) (rs : List Request)
    (h : Unprovisioned env s rs) (next : Request) :
    ∃ s', run (step env) (.ok s) (rs.map .receive) = .ok s'
      ∧ (sees env s' next = sees env s next
        ↔ (Stored env s rs (s.normalizedKey env next).getKey →
          LeftInitial s.world.serverEvents.map (s.normalizedKey env next).getKey)) := by
  obtain ⟨s', hrun, hmatching, hkeys⟩ := run_unprovisioned env rs s h
  obtain ⟨hstored, hother⟩ := hkeys (s.normalizedKey env next).getKey
  refine ⟨s', hrun, ?_⟩
  have hkey : s'.normalizedKey env next = s.normalizedKey env next := by
    rw [TrafficServer.normalizedKey, TrafficServer.normalizedKey, hmatching]
  rw [sees_eq_found, sees_eq_found, hkey]
  by_cases hs : Stored env s rs (s.normalizedKey env next).getKey
  · rw [hstored hs, leftInitial_iff]
    exact ⟨fun heq _ => heq.symm, fun hinit => (hinit hs).symm⟩
  · rw [hother hs]
    exact ⟨fun _ hs' => (hs hs').elim, fun _ => rfl⟩

/-- A request for `GET /a`. -/
def getA (receptionId : Nat) : Request := { method := "GET", uriPath := "/a", receptionId }

/-- A new key stays one: requests before its provision is there do not matter. -/
theorem new_key_transparent :
    ∃ s', run (step idleEnv) (.ok { world := World.blank }) ([getA 1, getA 2].map .receive) = .ok s'
      ∧ sees idleEnv s' (getA 3) = sees idleEnv { world := World.blank } (getA 3) := by
  obtain ⟨s', hrun, hiff⟩ := unprovisioned_transparent_iff idleEnv { world := World.blank }
    [getA 1, getA 2] ⟨⟨_, rfl⟩, ⟨_, rfl⟩, trivial⟩ (getA 3)
  refine ⟨s', hrun, hiff.mpr (fun _ h hlookup => ?_)⟩
  cases hlookup

/-- A server whose provision on `GET /a` has led the key to the state `next`. -/
def goneOn : TrafficServer :=
  { provisions := (⟨∅, []⟩ : AdminServerProvisionData).add goesOn,
    world := loadServerEvent World.blank (.ofServer "GET" "/a") ⟨"next", 1, .null⟩ true }

/-- The provision for the state `next`, loaded later. -/
def fromNext : Provisioned :=
  { goesOn with provision := { inState := "next", outState := "last", responseCode := 200 } }

/-- One unprovisioned request in between, and the provisioned one behind it starts from
    `initial` again in place of `next`. -/
theorem unprovisioned_restarts :
    ∃ s', run (step idleEnv) (.ok goneOn) ([getA 2].map .receive) = .ok s'
      ∧ Unprovisioned idleEnv goneOn [getA 2]
      ∧ sees idleEnv goneOn (getA 3) = some ("next", ∅)
      ∧ sees idleEnv s' (getA 3) = some ("initial", ∅)
      ∧ sees idleEnv s' (getA 3) ≠ sees idleEnv goneOn (getA 3)
      ∧ (∃ c out, ({ goneOn with provisions := goneOn.provisions.add fromNext } :
          TrafficServer).process idleEnv (getA 3) = .ok (.provisioned c fromNext out))
      ∧ ∃ c out, ({ s' with provisions := s'.provisions.add fromNext } :
          TrafficServer).process idleEnv (getA 3) = .ok (.provisioned c goesOn out) := by
  refine ⟨_, rfl, ⟨⟨_, rfl⟩, trivial⟩, rfl, rfl, ?_, ⟨_, _, rfl⟩, _, _, rfl⟩
  intro h
  have hstate : "initial" = "next" := congrArg (fun x => (x.map Prod.fst).getD "") h
  exact absurd hstate (by decide)

end H2Unprovisioned
