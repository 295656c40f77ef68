import H2agent.EventNeedProofs
import H2agent.TrafficServerProofs

/-! # States for foreign keys

    A target `outState.M[.U]` asks for the state of another key: the reception then
    stores its own event with the state of the provision, and a virtual one, with the
    state asked for, under that key.  One variable carries the state in both cases,
    and `purge` is read off it before anything else: it drops the key of the
    reception, never the other one.

    `foreign_state_effect` says what a reception leaves in each case. -/

namespace H2Foreign

open FallbackList H2Convert H2EventNeed H2Key H2ServerProvision H2Store H2Target H2Traffic
open H2Transformation JsonValue

/-! ## Who asks for a foreign state -/

/-- The state asked for, with the method and the URI it is for. -/
structure Asked where
  outState : String
  outStateMethod : String
  outStateUri : String

def asked (x : ServerState) : Asked := ⟨x.outState, x.outStateMethod, x.outStateUri⟩

/-- Asked for by an item: its texts expanded, and the text of its value. -/
def AskedBy (env : Env) (a : Asked) (t : Transformation) : Prop :=
  t.targetType = .OutState
    ∧ (∃ w, expand env w t.target t.targetPatterns = .ok a.outStateMethod
      ∧ expandNonEmpty env w t.target2 t.target2Patterns = .ok a.outStateUri)
    ∧ ∃ v : TypeConverter, v.getString env.lib = .ok a.outState

/-- Of all targets only `outState` asks for a state. -/
theorem serverTarget_asked (env : Env) (t : Transformation) (target target2 : String)
    (inc : Incoming) (x : ServerState) :
    asked (serverTarget env t target target2 inc x).2 = asked x
      ∨ t.targetType = .OutState
        ∧ ∃ value, inc.holder.getString env.lib = .ok value
          ∧ asked (serverTarget env t target target2 inc x).2 = ⟨value, target, target2⟩ := by
  simp only [serverTarget]
  split
  · exact .inl rfl
  · split
    · split <;> exact .inl rfl
    · split <;> exact .inl rfl
    · split <;> exact .inl rfl
    · next htype =>
        split
        · exact .inl rfl
        · next value hvalue => exact .inr ⟨htype, value, hvalue, rfl⟩
    · split <;> exact .inl rfl
    · split <;> exact .inl rfl
    · exact .inl rfl

theorem processTargets_asked (env : Env) (t : Transformation) (inc : Incoming) (x : ServerState) :
    asked (H2Target.AdminServerProvision.processTargets env t inc x).2 = asked x
      ∨ AskedBy env (asked (H2Target.AdminServerProvision.processTargets env t inc x).2) t := by
  unfold H2Target.AdminServerProvision.processTargets
  split
  · exact .inl rfl
  · next target htarget =>
      split
      · exact .inl rfl
      · next target2 htarget2 =>
          obtain hsame | ⟨htype, value, hvalue, hasked⟩ :=
            serverTarget_asked env t target target2 inc x
          · exact .inl hsame
          · refine .inr ⟨htype, ⟨x.world, ?_, ?_⟩, inc.holder, ?_⟩
            · rw [hasked]
              exact htarget
            · rw [hasked]
              exact htarget2
            · rw [hasked]
              exact hvalue

/-- A state for a foreign method has been asked for by some item of the provision. -/
theorem transform_asked {env : Env} {p : AdminServerProvision} {r : Reception} {w : World}
    {out : ServerState} (h : p.transform env r w = .ok out) (hmethod : out.outStateMethod ≠ "") :
    p.transformations.Somewhere (AskedBy env (asked out)) := by
  have hasked : (asked out).outStateMethod = ""
      ∨ p.transformations.Somewhere (AskedBy env (asked out)) := by
    refine transform_keeps
      (I := fun x => (asked x).outStateMethod = ""
        ∨ p.transformations.Somewhere (AskedBy env (asked x)))
      ?_ ?_ ?_ (Items.all_somewhere p.transformations) ?_ h
    · exact fun _ _ hx => hx
    · intro t ht inc x hx
      rcases processTargets_asked env t inc x with hsame | hby
      · rw [hsame]
        exact hx
      · exact .inr (ht _ hby)
    · exact fun _ _ _ hx => hx
    · exact fun _ => .inl rfl
  exact hasked.resolve_left hmethod

/-! ## What it leaves -/

/-- The last event of a key has a state, and a search for the key shows it. -/
def HasState (m : MockData MockEvent) (dataKey : DataKey) (state : String) : Prop :=
  (eventsOf m dataKey.getKey).getLast?.map MockEvent.state = some state
    ∧ nextState m dataKey = some (shown state)

theorem hasState_of_last {m : MockData MockEvent} {dataKey : DataKey} {e : MockEvent}
    (h : (eventsOf m dataKey.getKey).getLast? = some e) : HasState m dataKey e.state := by
  refine ⟨?_, nextState_of_last h⟩
  rw [h]
  rfl

/-- One more event is the last one with the history enabled, or in the place of the
    only event before. -/
theorem hasState_of_loaded {m : MockData MockEvent} {dataKey : DataKey} {l : List MockEvent}
    {e : MockEvent} {historyEnabled : Bool}
    (h : eventsOf m dataKey.getKey = loaded l e historyEnabled)
    (hlast : historyEnabled = true ∨ l.length ≤ 1) : HasState m dataKey e.state := by
  apply hasState_of_last
  rw [h, getLast_loaded, if_pos hlast]

/-- Any key but two is as it was. -/
def OthersKept (before after : MockData MockEvent) (own foreign : DataKey) : Prop :=
  ∀ k, k ≠ own.getKey → k ≠ foreign.getKey → after.lookup k = before.lookup k

/-- A state for a foreign key in full: the key of the reception goes on to the state of
    the provision and keeps its history, the foreign key has the state asked for. -/
structure ForeignStateSet (before after : MockData MockEvent) (own foreign : DataKey)
    (ownState state : String) : Prop where
  history : eventsOf before own.getKey <+: eventsOf after own.getKey
  current : HasState after own ownState
  addressed : HasState after foreign state
  others : OthersKept before after own foreign

/-- The reserved state, with its execution enabled. -/
def Purges (s : TrafficServer) (out : ServerState) : Prop :=
  s.purgeExecution = true ∧ out.outState = "purge"

section Effect

variable {env : Env} {s : TrafficServer} {req : Request} {c : Context} {p : Provisioned}
  {out : ServerState}

theorem purge_test : (s.purgeExecution && out.outState == "purge") = true ↔ Purges s out := by
  rw [Bool.and_eq_true, beq_iff_eq]
  exact Iff.rfl

variable (env req c p out) in
/-- The event of the reception itself. -/
def ownEvent : MockEvent :=
  mockServerEvent env.lib req c.inState p.provision.outState (replyOf out) none

variable (env req c out) in
/-- The virtual event, with the key it comes from. -/
def virtualEvent : MockEvent :=
  mockServerEvent env.lib req c.inState out.outState (replyOf out)
    (some (req.method, c.normalizedUri))

/-- The two events of a state for a foreign method. -/
theorem register_foreign (hmethod : out.outStateMethod ≠ "") (hpurge : ¬ Purges s out)
    (hdata : s.serverData = true) :
    s.register env req c p out
      = loadServerEvent
          (chainServerVariables
            (loadServerEvent out.world ((s.normalizedKey env req).setProvisionUri p.requestUri)
              (ownEvent env req c p out) s.serverDataKeyHistory)
            ((s.normalizedKey env req).setProvisionUri p.requestUri) out.world.vars)
          ((foreignKey c out).setProvisionUri p.requestUri) (virtualEvent env req c out)
          s.serverDataKeyHistory := by
  have hvirtual : (!out.outStateMethod.isEmpty) = true := by
    rw [Bool.not_eq_true', Bool.eq_false_iff, Ne, String.isEmpty_iff]
    exact hmethod
  simp only [TrafficServer.register]
  rw [if_neg (fun h => hpurge (purge_test.mp h)), if_pos hdata, if_pos hvirtual, if_pos hvirtual]
  rfl

section Stored

variable (hmethod : out.outStateMethod ≠ "") (hpurge : ¬ Purges s out)
  (hdata : s.serverData = true)
  (hkey : (foreignKey c out).getKey ≠ (s.normalizedKey env req).getKey)

include hmethod hpurge hdata

include hkey in
/-- The key of the reception has one more event, with the state of the provision. -/
theorem eventsOf_own :
    eventsOf (s.register env req c p out).serverEvents.map (s.normalizedKey env req).getKey
      = loaded (eventsOf out.world.serverEvents.map (s.normalizedKey env req).getKey)
          (ownEvent env req c p out) s.serverDataKeyHistory := by
  rw [register_foreign hmethod hpurge hdata, eventsOf_loadEvent, DataKey.getKey_setProvisionUri,
    if_neg hkey.symm, eventsOf_chainVariables, eventsOf_loadEvent, DataKey.getKey_setProvisionUri,
    if_pos rfl]

include hkey in
/-- The foreign key has one more event, with the state asked for. -/
theorem eventsOf_foreign :
    eventsOf (s.register env req c p out).serverEvents.map (foreignKey c out).getKey
      = loaded (eventsOf out.world.serverEvents.map (foreignKey c out).getKey)
          (virtualEvent env req c out) s.serverDataKeyHistory := by
  rw [register_foreign hmethod hpurge hdata, eventsOf_loadEvent, DataKey.getKey_setProvisionUri,
    if_pos rfl, eventsOf_chainVariables, eventsOf_loadEvent, DataKey.getKey_setProvisionUri,
    if_neg hkey]

theorem others_kept :
    OthersKept out.world.serverEvents.map (s.register env req c p out).serverEvents.map
      (s.normalizedKey env req) (foreignKey c out) := by
  intro k hown hforeign
  rw [register_foreign hmethod hpurge hdata, lookup_loadServerEvent,
    DataKey.getKey_setProvisionUri, if_neg hforeign, lookup_chainServerVariables,
    DataKey.getKey_setProvisionUri, if_neg hown, lookup_loadServerEvent,
    DataKey.getKey_setProvisionUri, if_neg hown]

end Stored

/-- **THE EFFECT OF A FOREIGN STATE** on the stored events, from how the items of the
    provision leave them: `before`. -/
structure ForeignEffect (env : Env) (s : TrafficServer) (req : Request) (c : Context)
    (p : Provisioned) (out : ServerState) (before after : MockServerData MockEvent) : Prop where
  /-- With the history of the keys, the state is set in full. -/
  stored : ¬ Purges s out → s.serverData = true → s.serverDataKeyHistory = true →
    ForeignStateSet before.map after.map (s.normalizedKey env req) (foreignKey c out)
      p.provision.outState out.outState
  /-- Without it, an event takes the place of the only one before it. -/
  overwritten : ¬ Purges s out → s.serverData = true → s.serverDataKeyHistory = false →
    ((eventsOf before.map (s.normalizedKey env req).getKey).length ≤ 1 →
      HasState after.map (s.normalizedKey env req) p.provision.outState)
    ∧ ((eventsOf before.map (foreignKey c out).getKey).length ≤ 1 →
      HasState after.map (foreignKey c out) out.outState)
    ∧ OthersKept before.map after.map (s.normalizedKey env req) (foreignKey c out)
  /-- `purge` drops the key of the reception, and sets no state anywhere. -/
  purged : Purges s out → req.method ≠ "" →
    ∀ k, after.map.lookup k
      = if k = (s.normalizedKey env req).getKey ∧ c.normalizedUri ≠ "" then none
        else before.map.lookup k
  /-- A server that discards its events changes nothing. -/
  discarded : ¬ Purges s out → s.serverData = false → after = before

theorem register_effect (hmethod : out.outStateMethod ≠ "")
    (huri : c.normalizedUri = (normalize env.lib s.matching req).1)
    (hkey : (foreignKey c out).getKey ≠ (s.normalizedKey env req).getKey) :
    ForeignEffect env s req c p out out.world.serverEvents
      (s.register env req c p out).serverEvents where
  stored hpurge hdata hhistory := by
    have hown := eventsOf_own hmethod hpurge hdata hkey (p := p)
    have hforeign := eventsOf_foreign hmethod hpurge hdata hkey (p := p)
    refine ⟨?_, hasState_of_loaded hown (.inl hhistory),
      hasState_of_loaded hforeign (.inl hhistory), others_kept hmethod hpurge hdata⟩
    rw [hown, hhistory]
    exact ⟨[ownEvent env req c p out], rfl⟩
  overwritten hpurge hdata _ := by
    have hown := eventsOf_own hmethod hpurge hdata hkey (p := p)
    have hforeign := eventsOf_foreign hmethod hpurge hdata hkey (p := p)
    exact ⟨fun hone => hasState_of_loaded hown (.inr hone),
      fun hone => hasState_of_loaded hforeign (.inr hone), others_kept hmethod hpurge hdata⟩
  purged hpurge hreq k := by
    have hregister : s.register env req c p out
        = clearServerKey out.world (s.normalizedKey env req) := by
      simp only [TrafficServer.register]
      rw [if_pos (purge_test.mpr hpurge)]
    rw [hregister, TrafficServer.normalizedKey, lookup_clearServerKey _ hreq, huri]
  discarded hpurge hdata := by
    simp only [TrafficServer.register]
    rw [if_neg (fun h => hpurge (purge_test.mp h)), hdata, if_neg Bool.false_ne_true]

end Effect

/-- A provisioned reception up to its end: the context, and the transformation. -/
theorem process_provisioned {env : Env} {s : TrafficServer} {req : Request} {c : Context}
    {p : Provisioned} {out : ServerState}
    (h : s.process env req = .ok (.provisioned c p out)) :
    c.normalizedUri = (normalize env.lib s.matching req).1
      ∧ p.provision.transform env
          ⟨c.normalizedUri, req.uriPath, c.qmap, { str := req.body }, req.headers,
            req.receptionId⟩
          { s.world with vars := c.chainVariables } = .ok out := by
  simp only [TrafficServer.process] at h
  split at h
  · cases h
  · next context hcontext =>
      split at h
      · cases h
      · split at h
        · cases h
        · next htransform =>
            cases h
            refine ⟨?_, htransform⟩
            simp only [TrafficServer.context] at hcontext
            split at hcontext
            · cases hcontext
            · cases hcontext
              rfl

/-- A provision on `DELETE /a` that asks for a state of `GET /a`. -/
def deletes (state : String) : Provisioned :=
  { requestMethod := "DELETE", requestUri := "/a",
    provision :=
      { outState := "gone", responseCode := 200,
        transformations := .cons
          { sourceType := .Value, source := state, targetType := .OutState, target := "GET" }
          .nil .nil } }

/-- A server with that provision, and one event of the key. -/
def deleting (state : String) : TrafficServer :=
  { world := loadServerEvent World.blank (.ofServer "DELETE" "/a") ⟨"initial", 1, .null⟩ true,
    provisions := (⟨∅, []⟩ : AdminServerProvisionData).add (deletes state) }

def deleteRequest : Request := { method := "DELETE", uriPath := "/a", receptionId := 2 }

end H2Foreign
