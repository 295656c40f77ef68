import H2agent.TransformationProofs

/-! # The filters of server and client provisions

    `AdminServerProvision::processFilters` and
    `AdminClientProvision::processFilters` are two copies of one interpreter.
    Twelve kinds of filter are the same in both (`sharedFilter`); the other five
    have drifted apart:

    * `ConditionVar` looks a name up in the vault too on the server, in the local
      variables alone on the client;
    * the server puts the text of a value that passes `ConditionVar`, `EqualTo`
      or `DifferentFrom` back into the holder, the client leaves the holder alone;
    * for `JsonConstraint` and `SchemaId` the server takes the JSON member of the
      holder, the client parses the text of the value and fails when it cannot,
      or when the schema is missing.

    `filters_agree_iff` says exactly when the two give the same result. -/

namespace H2Filter

open CppText H2Convert H2Key H2Transformation JsonValue

/-- What `processFilters` leaves: its result, the regex matches and the holder. -/
structure Filtered where
  passed : Bool
  groups : List String
  holder : TypeConverter

/-- The filter passed, without matches. -/
def passes (v : TypeConverter) : Except Fault Filtered := .ok ⟨true, [], v⟩

/-- The filter did not pass; the holder is as it was. -/
def fails (v : TypeConverter) : Except Fault Filtered := .ok ⟨false, [], v⟩

/-! ## The pieces -/

/-- The filters that start from the text of the value. -/
def needsString : FilterType → Bool
  | .Sum | .Multiply | .FStrftime | .RegexKey | .Size => false
  | _ => true

/-- The text of the value first, where the filter needs one. -/
def withSource (lib : Lib) (t : Transformation) (v : TypeConverter)
    (body : String → Except Fault Filtered) : Except Fault Filtered :=
  if needsString t.filterType then
    match v.getString lib with
    | .error e => .error e
    | .ok source => body source
  else body ""

/-- The filter text with its variables replaced. -/
def filterText (env : Env) (vars : TextMap String) (vault : Vault) (t : Transformation) :
    Except Fault String :=
  replaceVariables env.lib t.filter t.filterPatterns vars vault

/-- `Sum` and `Multiply`: an operation on the number kind of the filter.  A value
    that is no number counts as zero and is stored without the operation. -/
def numberFilter (lib : Lib) (t : Transformation) (v : TypeConverter)
    (onInteger : Int → Int → Int) (onUnsigned : Nat → Nat → Nat)
    (onFloat : Float → Float → Float) : TypeConverter :=
  match t.filterNumberType with
  | 0 =>
      v.setInteger (match v.getInteger lib with
        | some i => wrapI64 (onInteger i t.filterI)
        | none => 0)
  | 1 =>
      v.setUnsigned (match v.getUnsigned lib with
        | some u => wrapU64 (onUnsigned u t.filterU)
        | none => 0)
  | 2 =>
      v.setFloat (match v.getFloat lib with
        | some f => onFloat f t.filterF
        | none => 0)
  | _ => v

/-- `Split`: the text cut, or padded with copies of the filler, on the left. -/
def padLeft (filler : List Char) (totalLen : Nat) (text : List Char) : List Char :=
  if text.length > totalLen then text.drop (text.length - totalLen)
  else if text.length < totalLen && !filler.isEmpty then
    -- as many fillers as it takes to reach the length
    let times := (totalLen - text.length + filler.length - 1) / filler.length
    let padding := (List.replicate times filler).flatten
    padding.drop (padding.length + text.length - totalLen) ++ text
  else text

/-- A group, without leading zeroes when it is numeric. -/
def groupText (numeric : Bool) (group : String) : String :=
  if numeric then
    match stoull group with
    | some n => toString n
    | none => group
  else group

/-- The loop of `Split` from group `i` on; a group beyond the text throws. -/
def splitLoop (numeric : Bool) (sep : String) (size : Nat) (padded : List Char) :
    Nat → Nat → String → Except Fault String
  | 0, _, acc => .ok acc
  | remaining + 1, i, acc =>
      let pos := wrapU64 (i * size)
      if pos > padded.length then .error .outOfRange
      else
        let group := String.ofList ((padded.drop pos).take size)
        splitLoop numeric sep size padded remaining (i + 1)
          ((if i > 0 then acc ++ sep else acc) ++ groupText numeric group)

/-- `Split`. -/
def splitText (t : Transformation) (source : String) : Except Fault String :=
  let size := toU64 t.filterI
  let totalLen := wrapU64 (size * t.filterU)
  let padded := padLeft t.filterFiller.toList totalLen source.toList
  splitLoop (t.filterNumberType != 0) t.filter size padded t.filterU 0 ""

/-- The base `strtoull` finds in the text when it is given none. -/
def baseOfText (s : String) : Nat :=
  let cs := match s.toList.dropWhile isSpace with
    | '-' :: r => r
    | '+' :: r => r
    | r => r
  match cs with
  | '0' :: x :: rest =>
      if (x = 'x' ∨ x = 'X') ∧ digitsOf 16 rest ≠ [] then 16 else 8
  | _ => 10

/-- `std::stoull(source, nullptr, base)` for a base of type `int`. -/
def readInBase (s : String) (base : Int) : Option Nat :=
  if base = 0 then stoullBase s (baseOfText s)
  else if 2 ≤ base ∧ base ≤ 36 then stoullBase s base.toNat
  else none

/-- The character of a digit; letters from ten on. -/
def baseDigit (capital : Bool) (d : Int) : Char :=
  if d < 10 then Char.ofNat ((48 + d) % 256).toNat
  else Char.ofNat (((if capital then 65 else 97) + d - 10) % 256).toNat

/-- The digits of a number, least significant first in the source's loop. -/
def digitsLoop (capital : Bool) (base : Nat) : Nat → Nat → List Char → List Char
  | 0, _, acc => acc
  | fuel + 1, val, acc =>
      if val = 0 then acc
      else
        digitsLoop capital base fuel (val / base)
          (baseDigit capital (wrapI32 (val % base : Nat)) :: acc)

/-- `BaseConvert`: a text that cannot be read stays as it is.  The schema admits
    bases from 2 to 36; beyond it a base of zero divides by zero and a base of
    one never ends. -/
def baseConvert (t : Transformation) (source : String) : Except Fault String :=
  match readInBase source (wrapI32 t.filterI) with
  | none => .ok source
  | some val =>
      let baseOut := wrapI32 t.filterU
      if baseOut = 10 then .ok (toString val)
      else if val = 0 then .ok "0"
      else if toU64 baseOut = 0 then .error .arithmetic
      else if toU64 baseOut = 1 then .error .endless
      else
        -- a 64-bit value has at most 64 digits
        .ok (String.ofList (digitsLoop (t.filterNumberType != 0) (toU64 baseOut) 64 val []))

/-- Seconds to the unit of `Strptime` and `Strftime`. -/
def unitFactor : Nat → Int
  | 1 => 1000
  | 2 => 1000000
  | 3 => 1000000000
  | _ => 1

/-- `RegexKey`: the first member whose key matches. -/
def firstKey (lib : Lib) (regex : String) :
    List (String × Json) → Option (List String × Json)
  | [] => none
  | (key, value) :: rest =>
      match lib.regexMatch regex key with
      | some groups => some (groups, value)
      | none => firstKey lib regex rest

/-- `Size`: of a container its elements, of anything else its text. -/
def sizeText (lib : Lib) (v : TypeConverter) : Except Fault String :=
  match v.checkedObject with
  | some (.obj fields) => .ok (toString (Json.obj fields).size)
  | some (.arr l) => .ok (toString (Json.arr l).size)
  | _ =>
      match v.getString lib with
      | .error e => .error e
      | .ok source => .ok (toString source.length)

/-- A text put into the holder. -/
def passesText (v : TypeConverter) : Except Fault String → Except Fault Filtered
  | .error e => .error e
  | .ok text => passes (v.setString text)

/-- The kinds of filter both provisions treat alike. -/
def sharedFilter (env : Env) (vars : TextMap String) (vault : Vault)
    (t : Transformation) (v : TypeConverter) (source : String) : Except Fault Filtered :=
  match t.filterType with
  | .RegexCapture =>
      match env.lib.regexMatch t.filterRegex source with
      | some (whole :: groups) => .ok ⟨true, whole :: groups, v.setString whole⟩
      | _ => fails v
  | .RegexReplace => passes (v.setString (env.lib.regexReplace t.filterRegex source t.filter))
  | .Append => passesText v ((filterText env vars vault t).map (source ++ ·))
  | .Prepend => passesText v ((filterText env vars vault t).map (· ++ source))
  | .Sum => passes (numberFilter env.lib t v (· + ·) (· + ·) (· + ·))
  | .Multiply => passes (numberFilter env.lib t v (· * ·) (· * ·) (· * ·))
  | .Split => passesText v (splitText t source)
  | .BaseConvert => passesText v (baseConvert t source)
  | .FStrptime =>
      match env.lib.strptime source t.filter with
      | none => fails v
      | some epoch => passes (v.setInteger (wrapI64 (epoch * unitFactor t.filterNumberType)))
  | .FStrftime =>
      match v.getInteger env.lib with
      | none => fails v
      | some epoch =>
          match env.lib.strftime t.filter (epoch.tdiv (unitFactor t.filterNumberType)) with
          | none => fails v
          | some text => passes (v.setString text)
  | .RegexKey =>
      match v.checkedObject with
      | some (.obj fields) =>
          match firstKey env.lib t.filterRegex fields with
          | some (groups, value) => .ok ⟨true, groups, (v.setObject value "").2⟩
          | none => fails v
      | _ => fails v
  | .Size => passesText v (sizeText env.lib v)
  -- each provision has its own
  | .ConditionVar | .EqualTo | .DifferentFrom | .JsonConstraint | .SchemaId => fails v

/-! ## `ConditionVar` -/

/-- Whether the condition is inverted, and the name it asks for. -/
def conditionName (t : Transformation) : Bool × String :=
  match t.filter.toList with
  | '!' :: name => (true, String.ofList name)
  | _ => (false, t.filter)

/-- The condition on the local variables. -/
def localCondition (vars : TextMap String) (name : String) : Bool :=
  match vars.lookup name with
  | some value => !value.isEmpty
  | none => false

/-- The condition on the local variables, and on the vault after them. -/
def vaultCondition (lib : Lib) (vars : TextMap String) (vault : Vault) (name : String) :
    Except Fault Bool :=
  match vars.lookup name with
  | some value => .ok (!value.isEmpty)
  | none =>
      match vault.lookup name with
      | none => .ok false
      | some j => (jsonToString lib j).map (fun value => !value.isEmpty)

/-! ## The two interpreters -/

/-- `EqualTo` and `DifferentFrom` on the server: the text goes back into the
    holder. -/
def serverCompare (env : Env) (vars : TextMap String) (vault : Vault) (t : Transformation)
    (v : TypeConverter) (source : String) (wanted : Bool) : Except Fault Filtered :=
  match filterText env vars vault t with
  | .error e => .error e
  | .ok filter =>
      if decide (source = filter) = wanted then passes (v.setString source) else fails v

/-- `AdminServerProvision::processFilters`. -/
def AdminServerProvision.processFilters (env : Env) (vars : TextMap String) (vault : Vault)
    (t : Transformation) (v : TypeConverter) : Except Fault Filtered :=
  withSource env.lib t v fun source =>
    match t.filterType with
    | .ConditionVar =>
        let (reverse, name) := conditionName t
        match vaultCondition env.lib vars vault name with
        | .error e => .error e
        | .ok condition =>
            if condition = !reverse then passes (v.setString source) else fails v
    | .EqualTo => serverCompare env vars vault t v source true
    | .DifferentFrom => serverCompare env vars vault t v source false
    | .JsonConstraint =>
        -- the success of the getter is not looked at
        passes (v.setString ((jsonConstraint env.lib v.getObject.2 t.filterObject).getD "1"))
    | .SchemaId =>
        match env.schemas.lookup t.filter with
        | some schema =>
            passes (v.setString ((env.lib.validate schema v.getObject.2).getD "1"))
        | none => passes v
    | _ => sharedFilter env vars vault t v source

/-- `EqualTo` and `DifferentFrom` on the client. -/
def clientCompare (env : Env) (vars : TextMap String) (vault : Vault) (t : Transformation)
    (v : TypeConverter) (source : String) (wanted : Bool) : Except Fault Filtered :=
  match filterText env vars vault t with
  | .error e => .error e
  | .ok filter => if decide (source = filter) = wanted then passes v else fails v

/-- `AdminClientProvision::processFilters`. -/
def AdminClientProvision.processFilters (env : Env) (vars : TextMap String) (vault : Vault)
    (t : Transformation) (v : TypeConverter) : Except Fault Filtered :=
  withSource env.lib t v fun source =>
    match t.filterType with
    | .ConditionVar =>
        let (negate, name) := conditionName t
        if localCondition vars name = !negate then passes v else fails v
    | .EqualTo => clientCompare env vars vault t v source true
    | .DifferentFrom => clientCompare env vars vault t v source false
    | .JsonConstraint =>
        match env.lib.parse source with
        | none => fails v
        | some sourceJson =>
            passes (v.setString ((jsonConstraint env.lib sourceJson t.filterObject).getD "1"))
    | .SchemaId =>
        match env.schemas.lookup t.filter with
        | none => fails v
        | some schema =>
            match env.lib.parse source with
            | none => fails v
            | some sourceJson =>
                passes (v.setString ((env.lib.validate schema sourceJson).getD "1"))
    | _ => sharedFilter env vars vault t v source

/-! ## When they agree -/

/-- The same result: flag, matches, and what can be seen of the holder. -/
inductive SameFiltered : Except Fault Filtered → Except Fault Filtered → Prop
  | ok (passed : Bool) (groups : List String) {v w : TypeConverter} (h : SameView v w) :
      SameFiltered (.ok ⟨passed, groups, v⟩) (.ok ⟨passed, groups, w⟩)
  | error (e : Fault) : SameFiltered (.error e) (.error e)

theorem SameFiltered.refl (r : Except Fault Filtered) : SameFiltered r r := by
  cases r with
  | error e => exact .error e
  | ok f => exact .ok f.passed f.groups (SameView.refl f.holder)

/-- A local variable has the name, or the vault gives the empty text under it. -/
def LocalDecides (lib : Lib) (vars : TextMap String) (vault : Vault) (name : String) : Prop :=
  vars.lookup name = none → ∀ j, vault.lookup name = some j → jsonToString lib j = .ok ""

/-- The condition under which the two interpreters agree on a value whose text
    is `source`. -/
def AgreeOn (env : Env) (vars : TextMap String) (vault : Vault) (t : Transformation)
    (v : TypeConverter) (source : String) : Prop :=
  match t.filterType with
  | .ConditionVar =>
      LocalDecides env.lib vars vault (conditionName t).2
        ∧ (localCondition vars (conditionName t).2 = !(conditionName t).1 →
            v.native = .string source)
  | .EqualTo =>
      filterText env vars vault t = .ok source → v.native = .string source
  | .DifferentFrom =>
      ∀ filter, filterText env vars vault t = .ok filter → source ≠ filter →
        v.native = .string source
  | .JsonConstraint =>
      ∃ j, env.lib.parse source = some j
        ∧ (jsonConstraint env.lib j t.filterObject).getD "1"
          = (jsonConstraint env.lib v.json t.filterObject).getD "1"
  | .SchemaId =>
      ∃ schema, env.schemas.lookup t.filter = some schema
        ∧ ∃ j, env.lib.parse source = some j
          ∧ (env.lib.validate schema j).getD "1" = (env.lib.validate schema v.json).getD "1"
  | _ => True

/-! ### Results side by side -/

/-- A text put into a holder can be told from the holder as it was, unless it was
    that text. -/
theorem sameView_setString_self_iff (v : TypeConverter) (s : String) :
    SameView (v.setString s) v ↔ v.native = .string s := by
  constructor
  · intro h
    exact h.native_eq.symm
  · intro h
    exact sameView_of_native h.symm (nomatch ·)

theorem sameView_setString_iff (v w : TypeConverter) (s s' : String) :
    SameView (v.setString s) (w.setString s') ↔ s = s' := by
  constructor
  · intro h
    exact NativeValue.string.inj h.native_eq
  · rintro rfl
    exact sameView_setString v w s

theorem sameFiltered_passes_iff (v w : TypeConverter) :
    SameFiltered (passes v) (passes w) ↔ SameView v w := by
  constructor
  · intro h
    cases h with
    | ok _ _ h => exact h
  · exact fun h => .ok true [] h

theorem not_passes_fails (v w : TypeConverter) : ¬ SameFiltered (passes v) (fails w) :=
  fun h => nomatch h

/-- Two interpreters agree when they do on the text of the value. -/
theorem withSource_same_iff {lib : Lib} {t : Transformation} {v : TypeConverter}
    (ht : needsString t.filterType = true) (f g : String → Except Fault Filtered) :
    SameFiltered (withSource lib t v f) (withSource lib t v g)
      ↔ ∀ source, v.getString lib = .ok source → SameFiltered (f source) (g source) := by
  simp only [withSource, if_pos ht]
  cases v.getString lib with
  | error e => exact ⟨fun _ _ h => (nomatch h), fun _ => .error e⟩
  | ok source =>
      constructor
      · intro h s hs
        cases hs
        exact h
      · intro h
        exact h source rfl

section Kinds

variable (env : Env) (vars : TextMap String) (vault : Vault) (t : Transformation)
  (v : TypeConverter) (source : String)

/-- Without a say of the vault the two conditions are one. -/
theorem vaultCondition_eq_iff (name : String) (b : Bool) (hb : b = localCondition vars name) :
    vaultCondition env.lib vars vault name = .ok b
      ↔ LocalDecides env.lib vars vault name := by
  subst hb
  simp only [vaultCondition, localCondition, LocalDecides]
  cases vars.lookup name with
  | some value => exact ⟨fun _ h => (nomatch h), fun _ => rfl⟩
  | none =>
      cases vault.lookup name with
      | none => exact ⟨fun _ _ _ h => (nomatch h), fun _ => rfl⟩
      | some j =>
          constructor
          · intro (h : (jsonToString env.lib j).map (fun value => !value.isEmpty) = .ok false)
              _ j' hj'
            cases hj'
            cases hs : jsonToString env.lib j with
            | error e =>
                rw [hs] at h
                exact nomatch h
            | ok text =>
                rw [hs] at h
                have hempty : (!text.isEmpty) = false := Except.ok.inj h
                rw [Bool.not_eq_false', String.isEmpty_iff] at hempty
                rw [hempty]
          · intro h
            show (jsonToString env.lib j).map (fun value => !value.isEmpty) = .ok false
            rw [h rfl j rfl]
            rfl

theorem conditionVar_agree_iff :
    SameFiltered
        (match vaultCondition env.lib vars vault (conditionName t).2 with
          | .error e => .error e
          | .ok condition =>
              if condition = !(conditionName t).1 then passes (v.setString source) else fails v)
        (if localCondition vars (conditionName t).2 = !(conditionName t).1 then passes v
          else fails v)
      ↔ LocalDecides env.lib vars vault (conditionName t).2
        ∧ (localCondition vars (conditionName t).2 = !(conditionName t).1 →
            v.native = .string source) := by
  generalize (conditionName t).2 = name
  generalize (conditionName t).1 = reverse
  rw [← vaultCondition_eq_iff env vars vault name (localCondition vars name) rfl]
  cases vaultCondition env.lib vars vault name with
  | error e =>
      constructor
      · intro h
        by_cases hl : localCondition vars name = !reverse
        · rw [if_pos hl] at h
          exact nomatch h
        · rw [if_neg hl] at h
          exact nomatch h
      · rintro ⟨h, _⟩
        exact nomatch h
  | ok condition =>
      by_cases hl : localCondition vars name = !reverse
      · rw [if_pos hl]
        by_cases hc : condition = !reverse
        · simp only [if_pos hc]
          rw [sameFiltered_passes_iff, sameView_setString_self_iff]
          exact ⟨fun h => ⟨by rw [hc, hl], fun _ => h⟩, fun h => h.2 hl⟩
        · simp only [if_neg hc]
          constructor
          · intro h
            exact nomatch h
          · rintro ⟨h, _⟩
            exact (hc ((Except.ok.inj h).trans hl)).elim
      · rw [if_neg hl]
        by_cases hc : condition = !reverse
        · simp only [if_pos hc]
          constructor
          · intro h
            exact nomatch h
          · rintro ⟨h, _⟩
            exact (hl ((Except.ok.inj h).symm.trans hc)).elim
        · simp only [if_neg hc]
          have heq : condition = localCondition vars name :=
            (Bool.eq_not.mpr hc).trans (Bool.eq_not.mpr hl).symm
          exact ⟨fun _ => ⟨by rw [heq], fun h => (hl h).elim⟩, fun _ => .refl _⟩

/-- A comparison that comes out as wanted passes on both sides, with the text
    back in the holder on the server. -/
theorem compare_agree_iff (wanted : Bool) :
    SameFiltered (serverCompare env vars vault t v source wanted)
        (clientCompare env vars vault t v source wanted)
      ↔ ∀ filter, filterText env vars vault t = .ok filter →
          decide (source = filter) = wanted → v.native = .string source := by
  simp only [serverCompare, clientCompare]
  cases filterText env vars vault t with
  | error e => exact ⟨fun _ _ h => (nomatch h), fun _ => .error e⟩
  | ok filter =>
      by_cases hc : decide (source = filter) = wanted
      · simp only [if_pos hc]
        rw [sameFiltered_passes_iff, sameView_setString_self_iff]
        constructor
        · intro h _ _ _
          exact h
        · intro h
          exact h filter rfl hc
      · simp only [if_neg hc]
        constructor
        · intro _ f hf hc'
          cases hf
          exact (hc hc').elim
        · intro _
          exact .refl _

/-- The reports on the JSON member and on the parsed text. -/
theorem report_agree_iff (report : Json → String) :
    SameFiltered (passes (v.setString (report v.json)))
        (match env.lib.parse source with
          | none => fails v
          | some j => passes (v.setString (report j)))
      ↔ ∃ j, env.lib.parse source = some j ∧ report j = report v.json := by
  cases env.lib.parse source with
  | none =>
      constructor
      · intro h
        exact nomatch h
      · rintro ⟨_, h, _⟩
        exact nomatch h
  | some j =>
      show SameFiltered (passes _) (passes _) ↔ _
      rw [sameFiltered_passes_iff, sameView_setString_iff]
      constructor
      · intro h
        exact ⟨j, rfl, h.symm⟩
      · rintro ⟨j', hj, h⟩
        cases hj
        exact h.symm

end Kinds

/-- The getter returns the JSON member whatever the native type. -/
theorem getObject_snd (v : TypeConverter) : v.getObject.2 = v.json := by
  simp only [TypeConverter.getObject]
  cases v.native <;> rfl

/-! ## What a filter sees of the holder -/

section Congruence

variable {env : Env} {vars : TextMap String} {vault : Vault} {t : Transformation}
  {v w : TypeConverter}

theorem passesText_congr (text : Except Fault String) :
    SameFiltered (passesText v text) (passesText w text) := by
  cases text with
  | error e => exact .error e
  | ok s => exact .ok true [] (sameView_setString v w s)

theorem numberFilter_congr (h : SameView v w) (onI : Int → Int → Int)
    (onU : Nat → Nat → Nat) (onF : Float → Float → Float) :
    SameView (numberFilter env.lib t v onI onU onF) (numberFilter env.lib t w onI onU onF) := by
  simp only [numberFilter, getInteger_congr env.lib h, getUnsigned_congr env.lib h,
    getFloat_congr env.lib h]
  split
  · exact sameView_setInteger v w _
  · exact sameView_setUnsigned v w _
  · exact sameView_setFloat v w _
  · exact h

/-- The filters both provisions share see the view of the holder only. -/
theorem sharedFilter_congr (h : SameView v w) (source : String) :
    SameFiltered (sharedFilter env vars vault t v source)
      (sharedFilter env vars vault t w source) := by
  have hfails : SameFiltered (fails v) (fails w) := .ok false [] h
  simp only [sharedFilter]
  cases t.filterType with
  | RegexCapture =>
      dsimp only
      split
      · exact .ok true _ (sameView_setString v w _)
      · exact hfails
  | RegexReplace => exact .ok true [] (sameView_setString v w _)
  | Append => exact passesText_congr _
  | Prepend => exact passesText_congr _
  | Sum => exact .ok true [] (numberFilter_congr h _ _ _)
  | Multiply => exact .ok true [] (numberFilter_congr h _ _ _)
  | Split => exact passesText_congr _
  | BaseConvert => exact passesText_congr _
  | FStrptime =>
      dsimp only
      split
      · exact hfails
      · exact .ok true [] (sameView_setInteger v w _)
  | FStrftime =>
      simp only [getInteger_congr env.lib h]
      split
      · exact hfails
      · split
        · exact hfails
        · exact .ok true [] (sameView_setString v w _)
  | RegexKey =>
      simp only [checkedObject_congr h]
      split
      · split
        · exact .ok true _ (setObject_sameView v w _ _).2
        · exact hfails
      · exact hfails
  | Size =>
      simp only [sizeText, checkedObject_congr h, getString_congr env.lib h]
      exact passesText_congr _
  | ConditionVar => exact hfails
  | EqualTo => exact hfails
  | DifferentFrom => exact hfails
  | JsonConstraint => exact hfails
  | SchemaId => exact hfails

/-- What `JsonConstraint` and `SchemaId` report on the JSON member, which the
    server takes whatever the native type. -/
def memberReport (env : Env) (t : Transformation) (j : Json) : String :=
  match t.filterType with
  | .JsonConstraint => (jsonConstraint env.lib j t.filterObject).getD "1"
  | .SchemaId =>
      match env.schemas.lookup t.filter with
      | some schema => (env.lib.validate schema j).getD "1"
      | none => ""
  | _ => ""

theorem serverCompare_congr (h : SameView v w) (source : String) (wanted : Bool) :
    SameFiltered (serverCompare env vars vault t v source wanted)
      (serverCompare env vars vault t w source wanted) := by
  simp only [serverCompare]
  split
  · exact .error _
  · split
    · exact .ok true [] (sameView_setString v w source)
    · exact .ok false [] h

/-- The server's filters see the view of the holder and, through the reports,
    its JSON member. -/
theorem processFilters_congr (vars : TextMap String) (vault : Vault) (h : SameView v w)
    (hreport : memberReport env t v.json = memberReport env t w.json) :
    SameFiltered (AdminServerProvision.processFilters env vars vault t v)
      (AdminServerProvision.processFilters env vars vault t w) := by
  -- whatever the text of the value, the bodies agree on it
  suffices hbody : ∀ f g : String → Except Fault Filtered,
      (∀ source, SameFiltered (f source) (g source)) →
        SameFiltered (withSource env.lib t v f) (withSource env.lib t w g) by
    refine hbody _ _ (fun source => ?_)
    simp only [memberReport] at hreport
    cases ht : t.filterType with
    | ConditionVar =>
        dsimp only
        split
        · exact .error _
        · split
          · exact .ok true [] (sameView_setString v w source)
          · exact .ok false [] h
    | EqualTo => exact serverCompare_congr h source true
    | DifferentFrom => exact serverCompare_congr h source false
    | JsonConstraint =>
        simp only [ht] at hreport
        simp only [getObject_snd, hreport]
        exact .ok true [] (sameView_setString v w _)
    | SchemaId =>
        simp only [ht] at hreport
        cases hs : env.schemas.lookup t.filter with
        | none => exact .ok true [] h
        | some schema =>
            simp only [hs] at hreport
            simp only [getObject_snd, hreport]
            exact .ok true [] (sameView_setString v w _)
    | RegexCapture | RegexReplace | Append | Prepend | Sum | Multiply | Split | BaseConvert
    | FStrptime | FStrftime | RegexKey | Size => exact sharedFilter_congr h source
  intro f g hfg
  simp only [withSource, getString_congr env.lib h]
  split
  · split
    · exact .error _
    · exact hfg _
  · exact hfg ""

end Congruence

/-! ## Server and client -/

/-- **SERVER AND CLIENT FILTERS**: for every filter, value, variables, vault and
    schemas, the two interpreters give the same flag and matches and leave the
    same value and native type exactly under `AgreeOn`. -/
theorem filters_agree_iff (env : Env) (vars : TextMap String) (vault : Vault)
    (t : Transformation) (v : TypeConverter) :
    SameFiltered (AdminServerProvision.processFilters env vars vault t v)
        (AdminClientProvision.processFilters env vars vault t v)
      ↔ ∀ source, v.getString env.lib = .ok source → AgreeOn env vars vault t v source := by
  -- the kinds that have not drifted apart are one definition
  have hshared : AdminServerProvision.processFilters env vars vault t v
      = AdminClientProvision.processFilters env vars vault t v →
      (∀ source, AgreeOn env vars vault t v source) →
      (SameFiltered (AdminServerProvision.processFilters env vars vault t v)
          (AdminClientProvision.processFilters env vars vault t v)
        ↔ ∀ source, v.getString env.lib = .ok source → AgreeOn env vars vault t v source) :=
    fun heq hall => ⟨fun _ source _ => hall source, fun _ => heq ▸ .refl _⟩
  cases ht : t.filterType with
  | ConditionVar =>
      simp only [AdminServerProvision.processFilters, AdminClientProvision.processFilters, ht,
        AgreeOn]
      rw [withSource_same_iff (by rw [ht]; rfl)]
      exact forall₂_congr fun source _ => conditionVar_agree_iff env vars vault t v source
  | EqualTo =>
      simp only [AdminServerProvision.processFilters, AdminClientProvision.processFilters, ht,
        AgreeOn]
      rw [withSource_same_iff (by rw [ht]; rfl)]
      refine forall₂_congr fun source _ => ?_
      rw [compare_agree_iff]
      constructor
      · intro h hf
        exact h source hf (decide_eq_true rfl)
      · intro h filter hf hc
        rw [of_decide_eq_true hc] at h ⊢
        exact h hf
  | DifferentFrom =>
      simp only [AdminServerProvision.processFilters, AdminClientProvision.processFilters, ht,
        AgreeOn]
      rw [withSource_same_iff (by rw [ht]; rfl)]
      refine forall₂_congr fun source _ => ?_
      rw [compare_agree_iff]
      simp only [decide_eq_false_iff_not, ne_eq]
  | JsonConstraint =>
      simp only [AdminServerProvision.processFilters, AdminClientProvision.processFilters, ht,
        AgreeOn, getObject_snd]
      rw [withSource_same_iff (by rw [ht]; rfl)]
      exact forall₂_congr fun source _ => report_agree_iff env v source
        (fun j => (jsonConstraint env.lib j t.filterObject).getD "1")
  | SchemaId =>
      simp only [AdminServerProvision.processFilters, AdminClientProvision.processFilters, ht,
        AgreeOn, getObject_snd]
      rw [withSource_same_iff (by rw [ht]; rfl)]
      refine forall₂_congr fun source _ => ?_
      cases hs : env.schemas.lookup t.filter with
      | none =>
          constructor
          · intro h
            exact nomatch h
          · rintro ⟨_, h, _⟩
            exact nomatch h
      | some schema =>
          have hreport := report_agree_iff env v source
            (fun j => (env.lib.validate schema j).getD "1")
          constructor
          · intro h
            exact ⟨schema, rfl, hreport.mp h⟩
          · rintro ⟨schema', hschema, h⟩
            cases hschema
            exact hreport.mpr h
  | RegexCapture | RegexReplace | Append | Prepend | Sum | Multiply | Split | BaseConvert
  | FStrptime | FStrftime | RegexKey | Size =>
      refine hshared ?_ ?_
      · simp only [AdminServerProvision.processFilters, AdminClientProvision.processFilters, ht]
      · intro source
        simp only [AgreeOn, ht]

/-- An item with the filter `ConditionVar: flag`. -/
def conditionFlag : Transformation :=
  { sourceType := .Value, targetType := .TVar, hasFilter := true,
    filterType := .ConditionVar, filter := "flag" }

/-- A vault with the entry `flag`. -/
def flagVault : Vault := Vault.load ∅ "flag" (.str "on")

/-- With `flag` in the vault alone, the server lets a value pass that the client
    turns down. -/
theorem vault_flag_divides :
    ¬ SameFiltered
        (AdminServerProvision.processFilters idleEnv ∅ flagVault conditionFlag
          (TypeConverter.fresh.setString "x"))
        (AdminClientProvision.processFilters idleEnv ∅ flagVault conditionFlag
          (TypeConverter.fresh.setString "x")) := by
  intro h
  have hserver : AdminServerProvision.processFilters idleEnv ∅ flagVault conditionFlag
      (TypeConverter.fresh.setString "x") = passes (TypeConverter.fresh.setString "x") := by
    rfl
  have hclient : AdminClientProvision.processFilters idleEnv ∅ flagVault conditionFlag
      (TypeConverter.fresh.setString "x") = fails (TypeConverter.fresh.setString "x") := by
    rfl
  rw [hserver, hclient] at h
  exact not_passes_fails _ _ h

end H2Filter
