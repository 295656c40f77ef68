import H2agent.NumberFilterProofs
import H2agent.SourceProofs
import H2agent.TargetProofs
import H2agent.TransformationGrammarProofs

/-! # Random numbers and delays

    The schemas let in numerals of any length and any order.  `load` converts them with
    `std::stoi`, which throws beyond `int`, and the range is computed in `int`, where it
    can overflow, be zero or be negative.

    * `random_safe_iff`: a source is loaded and yields a number between its bounds,
      whatever `rand` gives, exactly when both bounds are values of `int`, they are in
      order, and the number of values between them is a value of `int` too.

    A number can be the delay of the response, which is documented to take the absolute value,
    in case a random one is negative.  The target reads it as unsigned and stores 32 bits.

    * `delay_absolute_iff`: a number within 32 bits becomes the delay of its absolute value
      exactly when it is not negative, or the least value of `int`. -/

namespace H2Random

open CppText H2Convert H2Grammar H2Key H2Load H2Number H2Source H2Transformation JsonValue Regex

/-! ## The bounds -/

/-- The integer of a numeral with an optional sign. -/
def signedValue : List Char → Int
  | '-' :: ds => -(decimalValue ds : Int)
  | '+' :: ds => decimalValue ds
  | ds => decimalValue ds

theorem signedValue_signText (sign : Option Bool) {ds : List Char} (hne : ds ≠ [])
    (hds : ∀ c ∈ ds, isDigit c = true) :
    signedValue (signText sign ++ ds)
      = if sign = some true then -(decimalValue ds : Int) else decimalValue ds := by
  cases sign with
  | none =>
      obtain ⟨c, cs, rfl⟩ := List.exists_cons_of_ne_nil hne
      obtain ⟨-, hminus, hplus⟩ := digit_plain (hds c (List.mem_cons_self ..))
      rw [signText, List.nil_append, if_neg (by decide)]
      unfold signedValue
      split
      · next heq => exact absurd (List.cons.inj heq).1 hminus
      · next heq => exact absurd (List.cons.inj heq).1 hplus
      · rfl
  | some negative => cases negative <;> rfl

/-- The numerals of the grammar. -/
theorem signedNumber_split {a rest : List Char} {g : List (List Char)}
    (h : Re.Takes signedNumber (a ++ rest) g rest) :
    ∃ sign ds, ds ≠ [] ∧ (∀ c ∈ ds, isDigit c = true) ∧ a = signText sign ++ ds := by
  obtain ⟨_, _, _, h1, h2, _⟩ := Re.takes_seq.mp h
  obtain ⟨_, digits, hne, rfl, hdigits⟩ := Re.takes_some.mp h2
  rcases takes_opt h1 with ⟨_, h3⟩ | heq
  · obtain ⟨_, sign, hsign, heq⟩ := Re.takes_one.mp h3
    rw [← List.cons_append] at heq
    rw [List.append_cancel_right heq]
    simp only [Bool.or_eq_true, beq_iff_eq] at hsign
    rcases hsign with rfl | rfl
    · exact ⟨some true, digits, hne, hdigits, rfl⟩
    · exact ⟨some false, digits, hne, hdigits, rfl⟩
  · rw [List.append_cancel_right heq]
    exact ⟨none, digits, hne, hdigits, rfl⟩

/-- `std::stoi` reads them, in the range of `int`. -/
theorem stoi_signedNumber {a rest : List Char} {g : List (List Char)}
    (h : Re.Takes signedNumber (a ++ rest) g rest) :
    stoi (String.ofList a)
      = if fitsI32 (signedValue a) then .ok (signedValue a) else .error .outOfRange := by
  obtain ⟨sign, ds, hne, hds, rfl⟩ := signedNumber_split h
  rw [stoi, signedDigits_decimal sign hne hds, signedValue_signText sign hne hds, fitsI32]
  simp only [decide_eq_true_eq]

/-! ## The source as it is loaded -/

/-- What the schemas let in of these sources. -/
theorem numbers_of_form {a b : List Char} (h : SourceForm ("random.".toList ++ (a ++ '.' :: b)))
    (hdot : '.' ∉ a) :
    Re.Takes signedNumber (a ++ '.' :: b) [] ('.' :: b) ∧ Re.Takes signedNumber b [] [] := by
  have hclosed : ∀ start ∈ closedSources, Re.clash "random.".toList start.toList = true := by
    decide
  have hopened : ∀ start ∈ openSources, Re.clash "random.".toList start.toList = true := by
    decide
  have hplain : ∀ t ∈ plainSources, ¬ "random.".toList <+: t.toList := by decide
  generalize hcs : "random.".toList ++ (a ++ '.' :: b) = cs at h
  have hprefix : "random.".toList <+: cs := ⟨_, hcs⟩
  cases h with
  | plain t ht => exact absurd hprefix (hplain t ht)
  | closed start hs rest hr =>
      exact absurd hprefix (Re.not_prefix_of_clash (hclosed start hs))
  | opened start hs rest => exact absurd hprefix (Re.not_prefix_of_clash (hopened start hs))
  | value rest => exact absurd hprefix (Re.not_prefix_of_clash (by decide))
  | vault rest => exact absurd hprefix (Re.not_prefix_of_clash (by decide))
  | random a' b' ha hb =>
      have hdot' : '.' ∉ a' := fun hmem => (signed_chars ha '.' hmem).1 rfl
      obtain ⟨rfl, rfl⟩ := cut_inj hdot hdot' (List.append_cancel_left hcs)
      exact ⟨ha, hb⟩

variable {lib : Lib} {text : String} {a b : List Char}

/-- Both numbers converted. -/
theorem random_action_eq (ha : Re.Takes signedNumber (a ++ '.' :: b) [] ('.' :: b))
    (hb : Re.Takes signedNumber b [] []) (s : SourcePart) :
    random.action [a, b] = .ok (some s)
      ↔ (fitsI32 (signedValue a) = true ∧ fitsI32 (signedValue b) = true)
        ∧ s = { sourceType := .Random, sourceI1 := signedValue a, sourceI2 := signedValue b } := by
  have hb' : Re.Takes signedNumber (b ++ []) [] [] := by
    rw [List.append_nil]
    exact hb
  have haction : random.action [a, b] = (stoi (String.ofList a) >>= fun sourceI1 =>
      stoi (String.ofList b) >>= fun sourceI2 =>
        (pure (some { sourceType := .Random, sourceI1, sourceI2 }) :
          Except Fault (Option SourcePart))) := rfl
  rw [haction, stoi_signedNumber ha, stoi_signedNumber hb']
  by_cases hfa : fitsI32 (signedValue a) = true
  · by_cases hfb : fitsI32 (signedValue b) = true
    · rw [if_pos hfa, if_pos hfb]
      constructor
      · intro h
        injection h with h
        injection h with h
        exact ⟨⟨hfa, hfb⟩, h.symm⟩
      · rintro ⟨-, rfl⟩
        rfl
    · rw [if_pos hfa, if_neg hfb]
      exact ⟨fun h => (by cases h), fun h => absurd h.1.2 hfb⟩
  · rw [if_neg hfa]
    exact ⟨fun h => (by cases h), fun h => absurd h.1.1 hfa⟩

/-- The source is loaded exactly when both bounds are values of `int`. -/
theorem loadSource_random_iff (hform : SourceForm text.toList)
    (htext : text.toList = "random.".toList ++ (a ++ '.' :: b)) (hdot : '.' ∉ a) (s : SourcePart) :
    loadSource lib text = .ok (some s)
      ↔ (fitsI32 (signedValue a) = true ∧ fitsI32 (signedValue b) = true)
        ∧ s = { sourceType := .Random, sourceI1 := signedValue a, sourceI2 := signedValue b } := by
  have hnumbers := hform
  rw [htext] at hnumbers
  obtain ⟨ha, hb⟩ := numbers_of_form hnumbers hdot
  have honly : ∀ s, loadSource lib text = .ok (some s) → random.action [a, b] = .ok (some s) := by
    intro s hs
    obtain ⟨rule, hmem, g, ht, hact⟩ := cascade_result hs
    rw [htext] at ht
    obtain ⟨rfl, rfl⟩ := source_random hmem hdot ht
    exact hact
  rw [← random_action_eq ha hb]
  constructor
  · exact honly s
  · intro hact
    have hint := (random_action a b).mp ⟨s, hact⟩
    have hclean : SourceClean text.toList := by
      rw [htext]
      refine ⟨?_, ?_, fun _ _ => random_line ha hb⟩
      · intro rest hrest
        have hprefix : "vault.".toList <+: "random.".toList ++ (a ++ '.' :: b) := ⟨rest, hrest.symm⟩
        exact absurd hprefix (Re.not_prefix_of_clash (by decide))
      · intro a' b' hcut ha'
        obtain ⟨rfl, rfl⟩ := cut_inj hdot ha' (List.append_cancel_left hcut)
        exact hint
    obtain ⟨s', hs'⟩ := (loadSource_iff lib hform).mpr hclean
    have hsame := (honly s' hs').symm.trans hact
    rw [hs', Except.ok.injEq]
    exact Except.ok.inj hsame

/-! ## The number -/

theorem fitsI32_iff {x : Int} : fitsI32 x = true ↔ -2147483648 ≤ x ∧ x < 2147483648 :=
  decide_eq_true_iff

/-- A number that is found and lies between the bounds: they are in order, and the number of
    values between them did not overflow. -/
theorem ordered_of_randomValue {env : Env} {t : Transformation} {v : Int}
    (hv : randomValue env t = .ok (.integer v)) (hmin : t.sourceI1 ≤ v) (hmax : v ≤ t.sourceI2) :
    t.sourceI1 ≤ t.sourceI2 ∧ t.sourceI2 - t.sourceI1 < 2147483647 := by
  refine ⟨hmin.trans hmax, ?_⟩
  simp only [randomValue] at hv
  split at hv
  · cases hv
  · next hfits =>
      simp only [Bool.or_eq_true, Bool.not_eq_true', not_or, Bool.not_eq_false] at hfits
      have hrange := fitsI32_iff.mp hfits.2
      omega

/-- Bounds in order whose number of values is a value of `int`: whatever `rand` gives, the
    number found lies between them. -/
theorem randomValue_between {t : Transformation} (env : Env) (h1 : fitsI32 t.sourceI1 = true)
    (h2 : fitsI32 t.sourceI2 = true) (horder : t.sourceI1 ≤ t.sourceI2)
    (hroom : t.sourceI2 - t.sourceI1 < 2147483647) :
    ∃ v, randomValue env t = .ok (.integer v) ∧ t.sourceI1 ≤ v ∧ v ≤ t.sourceI2 := by
  have hfits1 := fitsI32_iff.mp h1
  have hfits2 := fitsI32_iff.mp h2
  have hdifference : fitsI32 (t.sourceI2 - t.sourceI1) = true := fitsI32_iff.mpr (by omega)
  have hrange : fitsI32 (t.sourceI2 - t.sourceI1 + 1) = true := fitsI32_iff.mpr (by omega)
  have hrest := Int.tmod_nonneg (t.sourceI2 - t.sourceI1 + 1) (Int.natCast_nonneg (env.rand t.uid))
  have hbelow := Int.tmod_lt_of_pos (env.rand t.uid : Int)
    (show 0 < t.sourceI2 - t.sourceI1 + 1 by omega)
  have hvalue : fitsI32 (t.sourceI1
      + (env.rand t.uid : Int).tmod (t.sourceI2 - t.sourceI1 + 1)) = true :=
    fitsI32_iff.mpr (by omega)
  refine ⟨t.sourceI1 + (env.rand t.uid : Int).tmod (t.sourceI2 - t.sourceI1 + 1), ?_,
    Int.le_add_of_nonneg_right hrest, by omega⟩
  simp only [randomValue, hdifference, hrange, Bool.not_true, Bool.or_self, Bool.false_eq_true,
    if_false, if_neg (show ¬ t.sourceI2 - t.sourceI1 + 1 = 0 by omega), hvalue, if_true]

/-! ## Whole sources -/

/-- Both provisions find the number. -/
theorem sourceValue_random {env : Env} {t : Transformation} {w : World} {v : Int}
    (ht : t.sourceType = .Random) :
    (∀ req responseBodyJson,
        AdminServerProvision.sourceValue env req responseBodyJson t w = .ok ⟨.integer v, w.vars⟩
          ↔ randomValue env t = .ok (.integer v))
      ∧ ∀ req requestUri requestHeaders requestBodyJson,
        AdminClientProvision.sourceValue env req requestUri requestHeaders requestBodyJson t w
            = .ok ⟨.integer v, w.vars⟩
          ↔ randomValue env t = .ok (.integer v) := by
  have hbind : ∀ x : Except Fault SourceValue,
      (x >>= fun value => (.ok ⟨value, w.vars⟩ : Except Fault Sourced)) = .ok ⟨.integer v, w.vars⟩
        ↔ x = .ok (.integer v) := by
    intro x
    cases x with
    | error e => exact ⟨fun h => (by cases h), fun h => (by cases h)⟩
    | ok value =>
        constructor
        · intro h
          injection h with h
          injection h with h
          rw [h]
        · rintro ⟨⟩
          rfl
  simp only [AdminServerProvision.sourceValue, AdminClientProvision.sourceValue, sharedSource, ht]
  exact ⟨fun _ _ => hbind _, fun _ _ _ _ => hbind _⟩

/-- The source is loaded, and whatever `rand` gives, both provisions find a number in the
    range; nothing is thrown, divided by zero or beyond `int` on the way. -/
def RandomSafe (lib : Lib) (text : String) (min max : Int) : Prop :=
  ∃ s, loadSource lib text = .ok (some s) ∧ ∀ filter target env w,
    ∃ v, min ≤ v ∧ v ≤ max
      ∧ (∀ req responseBodyJson,
          AdminServerProvision.sourceValue env req responseBodyJson (assemble filter s target) w
            = .ok ⟨.integer v, w.vars⟩)
      ∧ ∀ req requestUri requestHeaders requestBodyJson,
          AdminClientProvision.sourceValue env req requestUri requestHeaders requestBodyJson
            (assemble filter s target) w = .ok ⟨.integer v, w.vars⟩

/-- **RANDOM NUMBERS**: a source the schemas let in is safe and stays in its range if and only if
    its bounds are values of `int`, in order, and so is the number of values between them. -/
theorem random_safe_iff (l : ItemList) (lib : Lib) {text : String} {a b : List Char}
    (haccepts : accepts l.sources text = true)
    (htext : text.toList = "random.".toList ++ (a ++ '.' :: b)) (hdot : '.' ∉ a) :
    RandomSafe lib text (signedValue a) (signedValue b)
      ↔ (fitsI32 (signedValue a) = true ∧ fitsI32 (signedValue b) = true)
        ∧ signedValue a ≤ signedValue b ∧ signedValue b - signedValue a < 2147483647 := by
  have hform := sourceForm_of_accepts l haccepts
  constructor
  · rintro ⟨s, hs, hsafe⟩
    obtain ⟨hfits, rfl⟩ := (loadSource_random_iff hform htext hdot s).mp hs
    refine ⟨hfits, ?_⟩
    obtain ⟨v, hmin, hmax, -, hclient⟩ := hsafe none { targetType := .Break } idleEnv World.blank
    have hv := ((sourceValue_random rfl).2 _ _ _ _).mp
      (hclient ⟨0, "", "", false, none⟩ "" [] .null)
    exact ordered_of_randomValue hv hmin hmax
  · rintro ⟨hfits, horder, hroom⟩
    refine ⟨_, (loadSource_random_iff hform htext hdot _).mpr ⟨hfits, rfl⟩, ?_⟩
    intro filter target env w
    obtain ⟨v, hv, hmin, hmax⟩ := randomValue_between
      (t := assemble filter ⟨.Random, "", "", [], signedValue a, signedValue b⟩ target) env
      hfits.1 hfits.2 horder hroom
    have hfound := @sourceValue_random env
      (assemble filter ⟨.Random, "", "", [], signedValue a, signedValue b⟩ target) w v rfl
    exact ⟨v, hmin, hmax, fun req j => (hfound.1 req j).mpr hv,
      fun req uri headers j => (hfound.2 req uri headers j).mpr hv⟩

/-- A number from -3 to 4. -/
theorem minus_three_to_four : RandomSafe idleLib "random.-3.+4" (-3) 4 :=
  (random_safe_iff .serverTransform idleLib (a := ['-', '3']) (b := ['+', '4']) (by decide +kernel)
    (by decide) (by decide)).mpr (by decide)

/-- The schemas let in bounds of which the lower one is the greater. -/
theorem four_to_three_unsafe :
    accepts ItemList.serverTransform.sources "random.4.3" = true
      ∧ ¬ RandomSafe idleLib "random.4.3" 4 3 := by
  refine ⟨by decide +kernel, ?_⟩
  rintro ⟨s, -, hsafe⟩
  obtain ⟨v, hmin, hmax, -⟩ := hsafe none { targetType := .Break } idleEnv World.blank
  omega

/-! ## The delay -/

open H2Target

/-- The item of a source and the target `response.delayMs`. -/
def delayItem (filter : Option FilterPart) (source : SourcePart) : Transformation :=
  assemble filter source { targetType := .ResponseDelayMs }

/-- The 32 bits that are stored are the absolute value of a number that is not negative, and of
    the one number that is its own complement. -/
theorem wrapU32_toU64_iff {v : Int} (h : v.natAbs < 4294967296) :
    wrapU32 (toU64 v) = v.natAbs ↔ 0 ≤ v ∨ v = -2147483648 := by
  unfold wrapU32 toU64
  omega

/-- The target stores the number as `unsigned int`. -/
theorem delay_stored (env : Env) (filter : Option FilterPart) (source : SourcePart)
    {inc : Incoming} (s : ServerState) {v : Int} (hv : IntegerSource inc.holder v)
    (hfits : FitsInt64 v) :
    AdminServerProvision.processTargets env (delayItem filter source) inc s
      = (true, { s with responseDelayMs := wrapU32 (toU64 v) }) := by
  have hunsigned := getUnsigned_eq env.lib hv hfits
  have htarget : expand env s.world (delayItem filter source).target
      (delayItem filter source).targetPatterns = .ok "" := rfl
  have htarget2 : expandNonEmpty env s.world (delayItem filter source).target2
      (delayItem filter source).target2Patterns = .ok "" := rfl
  have htype : (delayItem filter source).targetType = .ResponseDelayMs := rfl
  simp only [AdminServerProvision.processTargets, htarget, htarget2, serverTarget,
    responseBodyTarget, htype, hunsigned]

/-- **DELAYS**: the target takes the absolute value of a number if and only if it is not
    negative or is the least value of `int`. -/
theorem delay_absolute_iff (env : Env) (filter : Option FilterPart) (source : SourcePart)
    (inc : Incoming) (s : ServerState) {v : Int} (hv : IntegerSource inc.holder v)
    (hsize : v.natAbs < 4294967296) :
    AdminServerProvision.processTargets env (delayItem filter source) inc s
        = (true, { s with responseDelayMs := v.natAbs })
      ↔ 0 ≤ v ∨ v = -2147483648 := by
  have hfits : FitsInt64 v := ⟨by omega, by omega⟩
  rw [delay_stored env filter source s hv hfits, ← wrapU32_toU64_iff hsize]
  constructor
  · intro h
    exact congrArg (fun r => r.2.responseDelayMs) h
  · intro h
    rw [h]

/-- A response without delay. -/
def undelayed : ServerState := ⟨World.blank, 200, ⟨.null, ""⟩, [], 0, "", "", "", []⟩

/-- A holder of a number. -/
def holding (v : Int) : Incoming := ⟨TypeConverter.fresh.setInteger v, false, []⟩

/-- A source with one value. -/
def constantly (v : Int) : SourcePart := { sourceType := .Random, sourceI1 := v, sourceI2 := v }

/-- A delay of a quarter of a second. -/
theorem quarter_second_delay :
    AdminServerProvision.processTargets idleEnv (delayItem none (constantly 250)) (holding 250)
        undelayed = (true, { undelayed with responseDelayMs := 250 }) :=
  (delay_absolute_iff idleEnv none (constantly 250) (holding 250) undelayed (.integer rfl)
    (by decide)).mpr (.inl (by decide))

/-- A delay of minus five milliseconds is one of almost fifty days. -/
theorem negative_delay :
    AdminServerProvision.processTargets idleEnv (delayItem none (constantly (-5))) (holding (-5))
        undelayed = (true, { undelayed with responseDelayMs := 4294967291 })
      ∧ (4294967291 : Nat) ≠ (-5 : Int).natAbs := by
  refine ⟨?_, by decide⟩
  rw [delay_stored idleEnv none _ undelayed (.integer rfl) (v := -5) (by decide)]
  rfl

end H2Random
