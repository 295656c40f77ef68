import H2agent.ClientFlowProofs
import H2agent.LookupKeyProofs

/-! # Aggregated keys

    The maps of provisions and events are indexed by joined texts.  The last part of a key is
    free to contain the mark, and to be empty: an empty third part leaves no mark, so the key has
    the shape of one with two parts.  Among keys with the same number of parts nothing is
    confused, because the parts before the last one are without marks.

    * `calculateStringKey_eq_iff`, `calculateStringKey_pair_eq_iff`: keys of three parts, and
      of two;
    * `aggregated_keys_injective`: the keys of the four maps that are built on them. -/

namespace H2AggregatedKey

open H2ClientFlow H2Key H2Lookup H2Traffic

/-! ## Parts -/

/-- A text that may stand before the last part: the schemas ask the pattern `^[^#]*$` of states
    and of the names of client endpoints, and no method has a mark (`plain_of_keySchema`). -/
abbrev PlainText := { s : String // Plain s }

/-! ## Keys -/

/-- **THREE PARTS**: equal keys have equal parts, one by one; the last one is any text. -/
theorem calculateStringKey_eq_iff (k1 k2 : PlainText) (k3 : String) (k1' k2' : PlainText)
    (k3' : String) :
    calculateStringKey k1 k2 k3 = calculateStringKey k1' k2' k3'
      ↔ k1 = k1' ∧ k2 = k2' ∧ k3 = k3' := by
  constructor
  · intro h
    obtain ⟨h1, h2, h3⟩ := calculateStringKey_inj k1.2 k2.2 k1'.2 k2'.2 h
    exact ⟨Subtype.ext h1, Subtype.ext h2, h3⟩
  · rintro ⟨rfl, rfl, rfl⟩
    rfl

/-- **TWO PARTS**: the same, without a third part. -/
theorem calculateStringKey_pair_eq_iff (k1 : PlainText) (k2 : String) (k1' : PlainText)
    (k2' : String) :
    calculateStringKey k1 k2 "" = calculateStringKey k1' k2' "" ↔ k1 = k1' ∧ k2 = k2' := by
  constructor
  · intro h
    obtain ⟨h1, h2⟩ := calculateStringKey_pair_inj k1.2 k1'.2 h
    exact ⟨Subtype.ext h1, h2⟩
  · rintro ⟨rfl, rfl⟩
    rfl

/-- A server provision whose state and method are without marks, and a client provision whose
    state is. -/
abbrev PlainServerProvision := { p : Provisioned // PlainProvision p }

abbrev PlainClientProvision := { doc : ProvisionDocument // Plain doc.loaded.inState }

/-- The keys of the program tell the parts they are made of. -/
structure KeysTellParts : Prop where
  three : ∀ (k1 k2 : PlainText) (k3 : String) (k1' k2' : PlainText) (k3' : String),
    calculateStringKey k1 k2 k3 = calculateStringKey k1' k2' k3'
      ↔ k1 = k1' ∧ k2 = k2' ∧ k3 = k3'
  two : ∀ (k1 : PlainText) (k2 : String) (k1' : PlainText) (k2' : String),
    calculateStringKey k1 k2 "" = calculateStringKey k1' k2' "" ↔ k1 = k1' ∧ k2 = k2'
  serverProvision : ∀ p q : PlainServerProvision,
    p.1.getKey = q.1.getKey
      ↔ p.1.provision.inState = q.1.provision.inState
        ∧ p.1.requestMethod = q.1.requestMethod ∧ p.1.requestUri = q.1.requestUri
  clientProvision : ∀ p q : PlainClientProvision,
    p.1.key = q.1.key
      ↔ p.1.loaded.inState = q.1.loaded.inState ∧ p.1.clientProvisionId = q.1.clientProvisionId
  serverEvents : ∀ (method : PlainText) (uri : String) (method' : PlainText) (uri' : String),
    (DataKey.ofServer method uri).getKey = (DataKey.ofServer method' uri').getKey
      ↔ method = method' ∧ uri = uri'
  clientEvents : ∀ (endpoint method : PlainText) (uri : String) (endpoint' method' : PlainText)
      (uri' : String),
    (DataKey.ofClient endpoint method uri).getKey
        = (DataKey.ofClient endpoint' method' uri').getKey
      ↔ endpoint = endpoint' ∧ method = method' ∧ uri = uri'

/-- **AGGREGATED KEYS**: keys with the same number of parts are equal if and only if their parts
    are, whatever the last part holds; so it is for server provisions, client provisions, and
    the events of a server and of a client. -/
theorem aggregated_keys_injective : KeysTellParts where
  three := calculateStringKey_eq_iff
  two := calculateStringKey_pair_eq_iff
  serverProvision := by
    rintro ⟨p, hp⟩ ⟨q, hq⟩
    have h := calculateStringKey_eq_iff ⟨_, hp.1⟩ ⟨_, hp.2⟩ p.requestUri ⟨_, hq.1⟩ ⟨_, hq.2⟩
      q.requestUri
    rw [Subtype.mk.injEq, Subtype.mk.injEq] at h
    exact h
  clientProvision := by
    rintro ⟨p, hp⟩ ⟨q, hq⟩
    have h := calculateStringKey_pair_eq_iff ⟨_, hp⟩ p.clientProvisionId ⟨_, hq⟩
      q.clientProvisionId
    rw [Subtype.mk.injEq] at h
    exact h
  serverEvents := by
    intro method uri method' uri'
    rw [getKey_of_two rfl, getKey_of_two rfl]
    exact calculateStringKey_pair_eq_iff method uri method' uri'
  clientEvents := by
    intro endpoint method uri endpoint' method' uri'
    rw [getKey_of_three rfl, getKey_of_three rfl]
    exact calculateStringKey_eq_iff endpoint method uri endpoint' method' uri'

/-- With a mark in an inner part two keys fall together. -/
example : calculateStringKey "ab#c" "de" "" = calculateStringKey "ab" "c#de" "" := by decide

end H2AggregatedKey
