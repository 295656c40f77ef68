import H2agent.ClientProvisionProofs
import H2agent.ServerProvisionProofs

/-! # Provisions and stored events

    `needsStorage` tells whether a provision works on stored events, so that one may
    warn about a configuration that discards them.  It walks the outermost list of
    items; fallback lists, which may hold such items too, are not looked at:
    `needsStorage_exact_iff`.

    What items do to the stored events of the server is the other half:
    `transform_serverEvents` says that without purge targets, at any depth, a
    transformation leaves them alone. -/

namespace H2EventNeed

open FallbackList H2Convert H2Key H2Source H2Target H2Transformation JsonValue

/-! ## What needs them -/

/-- A server or client event as source, or one to purge as target. -/
def usesEvents (t : Transformation) : Bool :=
  t.sourceType == .ServerEvent || t.sourceType == .ClientEvent
    || t.targetType == .ServerEventToPurge || t.targetType == .ClientEventToPurge

/-- `AdminServerProvision::needsStorage`. -/
def AdminServerProvision.needsStorage (p : H2ServerProvision.AdminServerProvision) : Bool :=
  p.transformations.outer.any usesEvents

/-- `AdminClientProvision::needsStorage`: the items of both lists. -/
def AdminClientProvision.needsStorage (p : H2ClientProvision.AdminClientProvision) : Bool :=
  p.transformations.outer.any usesEvents || p.onResponseTransformations.outer.any usesEvents

/-- Some item of the outermost list uses events. -/
def OuterUse (l : Transformations) : Prop := ∃ t ∈ l.outer, usesEvents t = true

/-- Some item at any depth does. -/
def AnyUse (l : Transformations) : Prop := l.Somewhere (fun t => usesEvents t = true)

/-- Some item of a fallback list, at any depth, does. -/
def NestedUse (l : Transformations) : Prop := l.Nested (fun t => usesEvents t = true)

theorem outer_any_iff (l : Transformations) : l.outer.any usesEvents = true ↔ OuterUse l :=
  List.any_eq_true

/-- A test for one of two alternatives tests for both exactly when the other implies
    it. -/
theorem iff_or_self_iff {p q : Prop} : (p ↔ p ∨ q) ↔ (q → p) := by
  constructor
  · intro h hq
    exact h.mpr (.inr hq)
  · intro h
    exact ⟨.inl, fun hpq => hpq.elim id h⟩

/-- **WHO NEEDS STORED EVENTS**: for every server and every client provision,
    `needsStorage` tells whether some item at any depth has an event as source or to
    purge, if and only if such items of fallback lists are never the only ones. -/
theorem needsStorage_exact_iff (p : H2ServerProvision.AdminServerProvision)
    (q : H2ClientProvision.AdminClientProvision) :
    ((AdminServerProvision.needsStorage p = true ↔ AnyUse p.transformations)
        ↔ (NestedUse p.transformations → OuterUse p.transformations))
    ∧ ((AdminClientProvision.needsStorage q = true
          ↔ AnyUse q.transformations ∨ AnyUse q.onResponseTransformations)
        ↔ (NestedUse q.transformations ∨ NestedUse q.onResponseTransformations →
          OuterUse q.transformations ∨ OuterUse q.onResponseTransformations)) := by
  have hany : ∀ l : Transformations, AnyUse l ↔ OuterUse l ∨ NestedUse l :=
    fun l => Items.somewhere_iff _ l
  constructor
  · rw [AdminServerProvision.needsStorage, outer_any_iff, hany]
    exact iff_or_self_iff
  · rw [AdminClientProvision.needsStorage, Bool.or_eq_true, outer_any_iff, outer_any_iff, hany,
      hany, or_or_or_comm]
    exact iff_or_self_iff

/-- An item that reads a stored event. -/
def readsEvent : Transformation :=
  { sourceType := .ServerEvent, sourceTokenized := ["GET", "/a", "", "", ""],
    targetType := .TVar, target := "event" }

/-- An item that falls back to reading one. -/
def fallsBack : Transformation :=
  { sourceType := .Value, source := "1", targetType := .TVar, target := "v", hasFilter := true,
    filterType := .EqualTo, filter := "2" }

/-- A provision that reads stored events in a fallback list only. -/
def readsInFallback : H2ServerProvision.AdminServerProvision :=
  { responseCode := 200, transformations := .cons fallsBack (.cons readsEvent .nil .nil) .nil }

/-- `needsStorage` does not see it. -/
theorem fallback_read_unseen :
    AnyUse readsInFallback.transformations
      ∧ AdminServerProvision.needsStorage readsInFallback = false
      ∧ ¬ (AdminServerProvision.needsStorage readsInFallback = true
        ↔ AnyUse readsInFallback.transformations) := by
  have hany : AnyUse readsInFallback.transformations := .inr (.inl (.inl rfl))
  refine ⟨hany, rfl, fun h => ?_⟩
  have hneeds := h.mpr hany
  cases hneeds

/-! ## What touches those of the server -/

/-- No item, at any depth, purges stored events of the server. -/
def PurgesNothing (p : H2ServerProvision.AdminServerProvision) : Prop :=
  p.transformations.All (fun t => t.targetType ≠ .ServerEventToPurge)

section Frame

open H2ServerProvision

variable {env : Env} {t : Transformation}

/-- A target that does not purge leaves the stored events alone. -/
theorem serverTarget_serverEvents (ht : t.targetType ≠ .ServerEventToPurge)
    (target target2 : String) (inc : Incoming) (s : ServerState) :
    (serverTarget env t target target2 inc s).2.world.serverEvents = s.world.serverEvents := by
  rcases serverTarget_world env t target target2 inc s with hworld | ⟨hpurge, -⟩ | hworld
  · rw [hworld]
  · exact absurd hpurge ht
  · rw [hworld, (worldTarget_stores env t target inc s.world).1]

theorem processTargets_serverEvents (ht : t.targetType ≠ .ServerEventToPurge) (inc : Incoming)
    (s : ServerState) :
    (H2Target.AdminServerProvision.processTargets env t inc s).2.world.serverEvents
      = s.world.serverEvents := by
  unfold H2Target.AdminServerProvision.processTargets
  split
  · rfl
  · split
    · rfl
    · exact serverTarget_serverEvents ht _ _ _ _

/-- A transformation without purge targets leaves the stored events of the server
    alone. -/
theorem transform_serverEvents {p : H2ServerProvision.AdminServerProvision} {r : Reception}
    {w : World} {out : ServerState} (hp : PurgesNothing p) (h : p.transform env r w = .ok out) :
    out.world.serverEvents = w.serverEvents := by
  refine transform_keeps (I := fun x => x.world.serverEvents = w.serverEvents) ?_ ?_ ?_ hp ?_ h
  · exact fun _ _ hx => hx
  · exact fun _ ht inc x hx => (processTargets_serverEvents ht inc x).trans hx
  · exact fun _ _ _ hx => hx
  · exact fun _ => rfl

end Frame

end H2EventNeed
