import H2agent.TargetProofs
import H2agent.StepRunProofs
import H2agent.TransformationGrammarProofs

/-! # The keys of a vault

    A dot in `vault.<key>` separates the key from a path, so `Vault::loadJson` refuses
    keys with dots.  The other writers do not look: a target takes its key from a text
    whose variables have been replaced, and a stream error from the request.

    * `loadSource_vault`: a key without dots is what a `vault.<key>` source reads;
    * `step_keys`: what every writer can do to the keys;
    * `keys_addressable`: in a run whose targets and stream errors come without dots,
      every entry that is stored can be addressed. -/

namespace H2Vault

open JsonValue StepRun Regex H2Key H2Convert H2Grammar H2Load H2Target H2Transformation

/-! ## Addressing an entry -/

/-- The path of a vault text that has none is an empty group. -/
theorem pathToEnd_groups {g : List (List Char)} (h : Re.Takes pathToEnd [] g []) : g = [[]] := by
  obtain ⟨-, h1⟩ := Re.takes_seq_atEnd.mp h
  rcases Re.takes_alt.mp h1 with ⟨g1, h2, -⟩ | ⟨g2, h2, rfl⟩
  · obtain ⟨mid, hmid, -⟩ := Re.takes_lit_seq.mp h2
    cases hmid
  · obtain ⟨rfl, -⟩ := Re.takes_eps.mp h2
    rfl

/-- The groups of a vault text whose rest has no dot: the rest is the name. -/
theorem vaultText_groups {rest : List Char} {g : List (List Char)} (hdot : '.' ∉ rest)
    (h : Re.Takes (vaultText "") ("vault.".toList ++ rest) g []) : g = [rest, []] := by
  obtain ⟨_, hrest, h2⟩ := Re.takes_lit_seq.mp h
  obtain rfl := List.append_cancel_left hrest
  obtain ⟨g1, mid, g2, h3, h4, rfl⟩ := Re.takes_seq.mp h2
  obtain ⟨name, g3, h5, hsplit, rfl⟩ := Re.takes_group.mp h3
  obtain ⟨rfl, -⟩ := Re.takes_some.mp h5
  obtain ⟨_, rfl, h6⟩ := Re.takes_lit_seq.mp h4
  have htail : mid = [] := by
    rcases takes_pathToEnd.mp ⟨g2, h6⟩ with htail | ⟨path, -, -, rfl⟩
    · exact htail
    · exact absurd (by simp [hsplit]) hdot
  subst htail
  rw [pathToEnd_groups h6, hsplit]
  simp

/-- A key without dots is read by the source that names it. -/
theorem loadSource_vault (lib : Lib) {key : String} (hne : key ≠ "") (hdot : '.' ∉ key.toList) :
    loadSource lib ("vault." ++ key)
      = .ok (some { sourceType := .SGVar, source := key, source2 := "" }) := by
  have htext : ("vault." ++ key).toList = "vault.".toList ++ key.toList := String.toList_append
  have hname : key.toList ≠ [] := fun h => hne (String.toList_eq_nil_iff.mp h)
  have hform : VaultForm "" key.toList :=
    ⟨key.toList, [], hname, hdot, by simp, Or.inl rfl⟩
  have hclean : SourceClean ("vault." ++ key).toList := by
    rw [htext]
    refine ⟨?_, ?_, ?_⟩
    · intro rest hrest
      obtain rfl := List.append_cancel_left hrest
      exact hform
    · intro a b hab
      cases hab
    · intro hvault
      exact absurd (List.prefix_append _ _) hvault
  obtain ⟨s, hs⟩ := (loadSource_iff lib (htext ▸ SourceForm.vault key.toList)).mpr hclean
  rw [hs]
  obtain ⟨rule, hmem, g, ht, hact⟩ := cascade_result hs
  rw [htext] at ht
  rcases source_rule hmem with hrule | ⟨⟨hpattern, haction⟩ | hpattern, -⟩ | rfl
  · have hspecial : "vault.".toList ∈ specialSources := by decide
    exact absurd ht (hrule.avoids hspecial)
  · rw [hpattern] at ht
    rw [haction, vaultText_groups hdot ht] at hact
    rw [← hact]
    simp [str]
  · rw [hpattern] at ht
    exact absurd ht (Re.not_takes_dotted_seq (by decide))
  · exact absurd ht (Re.not_takes_lit_seq (by decide))

/-- The key has no dot, and a source `vault.<key>` is loaded as that key, with no path. -/
def Addressable (lib : Lib) (key : String) : Prop :=
  '.' ∉ key.toList ∧
    loadSource lib ("vault." ++ key)
      = .ok (some { sourceType := .SGVar, source := key, source2 := "" })

theorem addressable_of (lib : Lib) {key : String} (hne : key ≠ "") (hdot : '.' ∉ key.toList) :
    Addressable lib key :=
  ⟨hdot, loadSource_vault lib hne hdot⟩

/-! ## The writers -/

/-- The loop of `loadJson`. -/
def addAll : List (String × Json) → Vault → Vault
  | [], vault => vault
  | (key, value) :: rest, vault => addAll rest (vault.insert key value)

/-- `Vault::loadJson`.  `valid` is the validation against the schema of the vault. -/
def loadJson (valid : Json → Bool) (vault : Vault) (j : Json) : Vault × Bool :=
  if !valid j then (vault, false)
  else if j.members.any fun kv => kv.1.toList.contains '.' then (vault, false)
  else (addAll j.members vault, true)

def varPrefix : String := "__core:stream-error-traffic-server:"

/-- The key of a stream error. -/
def streamErrorKey (receptionId : Nat) (method path : String) : String :=
  varPrefix ++ toString receptionId ++ ":" ++ method ++ ":" ++ path

/-- `MyTrafficHttp2Server::streamError`, as far as the vault goes. -/
def streamError (vault : Vault) (receptionId : Nat) (method path : String) (errorCode : Nat) :
    Vault :=
  vault.load (streamErrorKey receptionId method path) (.str (toString errorCode))

/-- Whatever writes a vault.  A target works in the middle of a transformation, whose state
    it finds with the vault as it is then. -/
inductive Writer where
  | loadJson (j : Json)
  | serverTarget (t : Transformation) (inc : Incoming) (s : ServerState)
  | clientTarget (t : Transformation) (inc : Incoming) (s : ClientState)
  | streamError (receptionId : Nat) (method path : String) (errorCode : Nat)
  | remove (key : String)
  | clear

/-- The vault after a writer. -/
def step (env : Env) (valid : Json → Bool) (vault : Vault) : Writer → Vault
  | .loadJson j => (loadJson valid vault j).1
  | .serverTarget t inc s =>
      (AdminServerProvision.processTargets env t inc
        { s with world := { s.world with vault := vault } }).2.world.vault
  | .clientTarget t inc s =>
      match AdminClientProvision.processTargets env t inc
          { s with world := { s.world with vault := vault } } with
      | .ok r => r.2.world.vault
      | .error _ => vault
  | .streamError receptionId method path errorCode =>
      streamError vault receptionId method path errorCode
  | .remove key => vault.erase key
  | .clear => ∅

/-- The item writes a vault entry: the eraser removes one instead. -/
def writesVault (t : Transformation) (inc : Incoming) : Bool :=
  match t.targetType with
  | .TGVar => !inc.eraser
  | .TGVarJson_Object | .TGVarJson_JsonString => true
  | _ => false

/-- The key the item writes, its variables replaced, is not empty and has no dot. -/
def KeyWithoutDot (env : Env) (t : Transformation) (inc : Incoming) (w : World) : Prop :=
  writesVault t inc = true → ∀ key, expand env w t.target t.targetPatterns = .ok key →
    key ≠ "" ∧ '.' ∉ key.toList

/-- What keeps the keys addressable: targets whose keys come out without dots, and stream
    errors of requests without dots.  The loads are checked by the code. -/
def DotFree (env : Env) (vault : Vault) : Writer → Prop
  | .serverTarget t inc s => KeyWithoutDot env t inc { s.world with vault := vault }
  | .clientTarget t inc s => KeyWithoutDot env t inc { s.world with vault := vault }
  | .streamError _ method path _ => '.' ∉ method.toList ∧ '.' ∉ path.toList
  | _ => True

/-! ## What the writers do to the keys -/

theorem loadAtPath_keys {vault : Vault} {name path k : String} {value : Json}
    (h : k ∈ (vault.loadAtPath name path value).1) : k = name ∨ k ∈ vault := by
  simp only [Vault.loadAtPath] at h
  split at h <;> exact (AList.mem_insert _).mp h

theorem storeEntry_keys {vault : Vault} {name path k : String} {value : Json}
    (h : k ∈ (storeEntry vault name path value).1) : k = name ∨ k ∈ vault := by
  rw [storeEntry] at h
  split at h
  · exact (AList.mem_insert _).mp h
  · exact loadAtPath_keys h

section Targets

variable {env : Env} {t : Transformation} {target k : String} {inc : Incoming} {w : World}

theorem vaultTarget_keys {path : String}
    (h : k ∈ (H2Target.vaultTarget env.lib t target path inc w).2.vault) :
    k ∈ w.vault ∨ (inc.eraser = false ∧ k = target) := by
  simp only [H2Target.vaultTarget] at h
  split at h
  · exact Or.inl (AList.mem_erase.mp h).2
  · next heraser =>
    have hstore : ∀ value, k ∈ (storeEntry w.vault target path value).1 →
        k ∈ w.vault ∨ (inc.eraser = false ∧ k = target) := by
      intro value hk
      rcases storeEntry_keys hk with hk | hk
      · exact Or.inr ⟨by simpa using heraser, hk⟩
      · exact Or.inl hk
    split at h
    · split at h
      · exact Or.inl h
      · exact hstore _ h
    · split at h
      · exact Or.inl h
      · split at h <;> exact hstore _ h

/-- The vault is for three kinds of target. -/
theorem touched_vault {w' : World} (h : Touched env t target inc w w')
    (ht : t.targetType ∉ [.TGVar, .TGVarJson_Object, .TGVarJson_JsonString]) :
    w'.vault = w.vault := by
  cases h with
  | vault hvault => exact absurd hvault ht
  | groups hgroups =>
      rw [hgroups] at ht
      exact absurd List.mem_cons_self ht
  | nothing | vars | files | datagrams | condition => rfl

/-- A target on the world writes no entry but the one it names. -/
theorem worldTarget_keys (h : k ∈ (worldTarget env t target inc w).2.vault) :
    k ∈ w.vault ∨ (writesVault t inc = true ∧ k = target) := by
  cases ht : t.targetType with
  | TGVar =>
      simp only [worldTarget, ht] at h
      split at h
      · exact Or.inl h
      · rcases vaultTarget_keys h with hk | ⟨heraser, hk⟩
        · exact Or.inl hk
        · exact Or.inr ⟨by simp [writesVault, ht, heraser], hk⟩
  | TGVarJson_Object =>
      simp only [worldTarget, ht] at h
      split at h
      · exact Or.inl h
      · split at h
        · exact Or.inl h
        · rcases storeEntry_keys h with hk | hk
          · exact Or.inr ⟨by simp [writesVault, ht], hk⟩
          · exact Or.inl hk
  | TGVarJson_JsonString =>
      simp only [worldTarget, ht] at h
      split at h
      · exact Or.inl h
      · split at h
        · exact Or.inl h
        · split at h
          · exact Or.inl h
          · rcases storeEntry_keys h with hk | hk
            · exact Or.inr ⟨by simp [writesVault, ht], hk⟩
            · exact Or.inl hk
  | _ =>
      rw [touched_vault (worldTarget_touched env t target inc w) (by simp [ht])] at h
      exact Or.inl h

/-- A target of a server provision. -/
theorem serverTarget_keys {target2 : String} {s : ServerState}
    (h : k ∈ (serverTarget env t target target2 inc s).2.world.vault) :
    k ∈ s.world.vault ∨ (writesVault t inc = true ∧ k = target) := by
  rcases serverTarget_world env t target target2 inc s with hworld | ⟨-, hworld⟩ | hworld
  · rw [hworld] at h
    exact Or.inl h
  · have hvault := caught_keeps (f := World.vault)
      (purgeServerEvent_keeps env t (fun _ _ => rfl) s.world)
    rw [hworld, hvault] at h
    exact Or.inl h
  · rw [hworld] at h
    exact worldTarget_keys h

/-- A target of a client provision. -/
theorem clientTarget_keys {s : ClientState}
    (h : k ∈ (clientTarget env t target inc s).2.world.vault) :
    k ∈ s.world.vault ∨ (writesVault t inc = true ∧ k = target) := by
  rcases clientTarget_world env t target inc s with hworld | ⟨-, hworld⟩ | hworld
  · rw [hworld] at h
    exact Or.inl h
  · have hvault := caught_keeps (f := World.vault)
      (purgeClientEvent_keeps env t (fun _ _ => rfl) s.world)
    rw [hworld, hvault] at h
    exact Or.inl h
  · rw [hworld] at h
    exact worldTarget_keys h

end Targets

theorem addAll_keys {k : String} {members : List (String × Json)} {vault : Vault}
    (h : k ∈ addAll members vault) : k ∈ vault ∨ ∃ kv ∈ members, kv.1 = k := by
  induction members generalizing vault with
  | nil => exact Or.inl h
  | cons kv rest ih =>
      rcases ih h with hk | ⟨kv', hmem, hk⟩
      · rcases (AList.mem_insert _).mp hk with hk | hk
        · exact Or.inr ⟨kv, List.mem_cons_self, hk.symm⟩
        · exact Or.inl hk
      · exact Or.inr ⟨kv', List.mem_cons_of_mem kv hmem, hk⟩

/-- A load adds keys without dots only. -/
theorem loadJson_keys {valid : Json → Bool} {vault : Vault} {j : Json} {k : String}
    (h : k ∈ (loadJson valid vault j).1) :
    k ∈ vault ∨ (valid j = true ∧ (∃ kv ∈ j.members, kv.1 = k) ∧ '.' ∉ k.toList) := by
  rw [loadJson] at h
  split at h
  · exact Or.inl h
  · next hvalid =>
    split at h
    · exact Or.inl h
    · next hdots =>
      rcases addAll_keys h with hk | ⟨kv, hmem, rfl⟩
      · exact Or.inl hk
      · refine Or.inr ⟨by simpa using hvalid, ⟨kv, hmem, rfl⟩, fun hdot => hdots ?_⟩
        exact List.any_eq_true.mpr ⟨kv, hmem, List.contains_iff_mem.mpr hdot⟩

theorem dot_notMem_repr (n : Nat) : '.' ∉ n.repr.toList := by
  intro h
  rw [Nat.toList_repr] at h
  exact absurd (Nat.isDigit_of_mem_toDigits (by decide) (by decide) h) (by decide)

/-- The key of a stream error has the dots of the request, and no others. -/
theorem dot_mem_streamErrorKey {receptionId : Nat} {method path : String}
    (h : '.' ∈ (streamErrorKey receptionId method path).toList) :
    '.' ∈ method.toList ∨ '.' ∈ path.toList := by
  have hstart : '.' ∉ varPrefix.toList := by decide +kernel
  have hcolon : '.' ∉ ":".toList := by decide
  have hnumber := dot_notMem_repr receptionId
  simp only [streamErrorKey, String.toList_append, List.mem_append, Nat.toString_eq_repr] at h
  rcases h with ((((h | h) | h) | h) | h) | h
  · exact absurd h hstart
  · exact absurd h hnumber
  · exact absurd h hcolon
  · exact Or.inl h
  · exact absurd h hcolon
  · exact Or.inr h

theorem streamErrorKey_ne_empty (receptionId : Nat) (method path : String) :
    streamErrorKey receptionId method path ≠ "" := by
  intro h
  have hlist := congrArg String.toList h
  simp only [streamErrorKey, String.toList_append] at hlist
  have hcolon : ":".toList = [] := by simp_all
  cases hcolon

/-- A writer without dots keeps every key addressable. -/
theorem step_addressable (env : Env) {valid : Json → Bool}
    (hvalid : ∀ j, valid j = true → ∀ kv ∈ j.members, kv.1 ≠ "") (vault : Vault) (e : Writer)
    (h : ∀ k ∈ vault, Addressable env.lib k) (hdot : DotFree env vault e) :
    ∀ k ∈ step env valid vault e, Addressable env.lib k := by
  intro k hk
  cases e with
  | loadJson j =>
      rcases loadJson_keys hk with hk | ⟨hj, ⟨kv, hmem, rfl⟩, hkdot⟩
      · exact h k hk
      · exact addressable_of env.lib (hvalid j hj kv hmem) hkdot
  | serverTarget t inc s =>
      simp only [step, AdminServerProvision.processTargets] at hk
      split at hk
      · exact h k hk
      · next target htarget =>
        split at hk
        · exact h k hk
        · rcases serverTarget_keys hk with hk | ⟨hwrites, rfl⟩
          · exact h k hk
          · obtain ⟨hne, hkdot⟩ := hdot hwrites k htarget
            exact addressable_of env.lib hne hkdot
  | clientTarget t inc s =>
      simp only [step, AdminClientProvision.processTargets] at hk
      cases htarget : expand env { s.world with vault := vault } t.target t.targetPatterns with
      | error e =>
          simp only [htarget] at hk
          exact h k hk
      | ok target =>
          simp only [htarget] at hk
          rcases clientTarget_keys hk with hk | ⟨hwrites, rfl⟩
          · exact h k hk
          · obtain ⟨hne, hkdot⟩ := hdot hwrites k htarget
            exact addressable_of env.lib hne hkdot
  | streamError receptionId method path errorCode =>
      rcases (AList.mem_insert _).mp hk with rfl | hk
      · refine addressable_of env.lib ?_ ?_
        · exact streamErrorKey_ne_empty receptionId method path
        · intro hmem
          rcases dot_mem_streamErrorKey hmem with hmem | hmem
          · exact hdot.1 hmem
          · exact hdot.2 hmem
      · exact h k hk
  | remove key => exact h k (AList.mem_erase.mp hk).2
  | clear => cases hk

/-- The schema of the vault: an object whose keys match `^[^.]+$`. -/
def vaultSchema (j : Json) : Bool :=
  j.isObject && j.members.all fun kv => kv.1 != "" && !kv.1.toList.contains '.'

theorem vaultSchema_nonempty (j : Json) (h : vaultSchema j = true) :
    ∀ kv ∈ j.members, kv.1 ≠ "" := by
  intro kv hkv
  simp only [vaultSchema, Bool.and_eq_true] at h
  have hkey := List.all_eq_true.mp h.2 kv hkv
  simp only [Bool.and_eq_true, bne_iff_ne] at hkey
  exact hkey.1

/-- An item with the target `vault.@{id}`. -/
def storesUnderId : Transformation :=
  { sourceType := .Value, source := "x", targetType := .TGVar, target := "@\x7bid\x7d"
    targetPatterns := [("@\x7bid\x7d", "id")] }

/-- A server transformation with a value for the variable `id`. -/
def withId (id : String) : ServerState :=
  ⟨{ World.blank with vars := (∅ : TextMap String).insert "id" id }, 200, ⟨.null, ""⟩, [], 0,
    "initial", "", "", []⟩

/-- The text that `storesUnderId` stores. -/
def textIn : Incoming := ⟨TypeConverter.fresh.setString "x", false, []⟩

end H2Vault
