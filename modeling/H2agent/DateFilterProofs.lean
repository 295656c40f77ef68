import H2agent.NumberFilterProofs

/-! # Dates as numbers and back

    `Strptime` scales the epoch of a date to its unit, `Strftime` divides a number by its
    unit and formats that second.  The scaling is a product of `int64_t` and the division
    truncates toward zero:

    * for dates of the years 0000 to 9999 the second comes back unless the unit is the
      nanosecond and the date is outside of the years 1677 to 2262;
    * the second that contains an instant before 1970 is formatted only when the instant
      is a whole number of seconds. -/

namespace H2Date

open CppText H2Convert H2Filter H2Key H2Number H2Transformation JsonValue

/-! ## Scaling and division -/

theorem unitFactor_pos (unit : Nat) : 0 < unitFactor unit := by
  unfold unitFactor
  split <;> decide

/-- Truncation is the floor from zero on and on multiples. -/
theorem tdiv_eq_ediv_iff {x f : Int} (hf : 0 < f) : x.tdiv f = x / f ↔ 0 ≤ x ∨ f ∣ x := by
  rw [Int.tdiv_eq_ediv, Int.sign_eq_one_of_pos hf]
  constructor
  · intro h
    by_contra hno
    rw [if_neg hno] at h
    omega
  · intro h
    rw [if_pos h, Int.add_zero]

/-- The seconds of the years from 0000 to 9999, with a year to spare on both sides for what
    `timegm` carries over (a leap second, the days of a week beyond the end). -/
def InYears (e : Int) : Prop := -62198841600 ≤ e ∧ e < 253433923200

instance (e : Int) : Decidable (InYears e) := inferInstanceAs (Decidable (_ ∧ _))

/-- Only nanoseconds leave the range of `int64_t`. -/
theorem fits_scaled_iff {e : Int} (he : InYears e) (unit : Nat) :
    FitsInt64 (e * unitFactor unit) ↔ (unit = 3 → -9223372036 ≤ e ∧ e ≤ 9223372036) := by
  obtain ⟨h1, h2⟩ := he
  unfold FitsInt64 unitFactor
  split
  case h_3 =>
    constructor
    · intro h _
      omega
    · intro h
      have hrange := h rfl
      omega
  case h_4 hother =>
    refine ⟨fun _ h => absurd h hother, fun _ => ?_⟩
    omega
  all_goals
    refine ⟨fun _ h => absurd h (by decide), fun _ => ?_⟩
    omega

/-! ## The filters -/

/-- What `Strftime` leaves when it formats this second. -/
def formatted (env : Env) (t : Transformation) (v : TypeConverter) (second : Int) :
    Except Fault Filtered :=
  match env.lib.strftime t.filter second with
  | none => fails v
  | some text => passes (v.setString text)

/-- Both provisions format this second, whatever the formatter makes of it. -/
def FormatsSecond (t : Transformation) (v : TypeConverter) (second : Int) : Prop :=
  ∀ env vars vault,
    AdminServerProvision.processFilters env vars vault t v = formatted env t v second
      ∧ AdminClientProvision.processFilters env vars vault t v = formatted env t v second

variable {t : Transformation} {v : TypeConverter}

/-- `Strptime` stores the scaled epoch. -/
theorem strptime_stores {env : Env} (vars : TextMap String) (vault : Vault) {source : String}
    {e : Int} (ht : t.filterType = .FStrptime) (hsource : v.getString env.lib = .ok source)
    (hparsed : env.lib.strptime source t.filter = some e) :
    AdminServerProvision.processFilters env vars vault t v
        = passes (v.setInteger (wrapI64 (e * unitFactor t.filterNumberType)))
      ∧ AdminClientProvision.processFilters env vars vault t v
        = passes (v.setInteger (wrapI64 (e * unitFactor t.filterNumberType))) := by
  simp only [AdminServerProvision.processFilters, AdminClientProvision.processFilters, withSource,
    needsString, ht, if_true, hsource, sharedFilter, hparsed, and_self]

/-- `Strftime` formats the truncated quotient. -/
theorem strftime_formats {x : Int} (ht : t.filterType = .FStrftime) (hv : IntegerSource v x)
    (hx : FitsInt64 x) : FormatsSecond t v (x.tdiv (unitFactor t.filterNumberType)) := by
  intro env vars vault
  simp only [AdminServerProvision.processFilters, AdminClientProvision.processFilters, withSource,
    needsString, ht, Bool.false_eq_true, if_false, sharedFilter, getInteger_eq env.lib hv hx]
  exact ⟨rfl, rfl⟩

/-- An environment whose formatter knows one second. -/
def oneSecond (second : Int) : Env :=
  { idleEnv with lib := { idleLib with strftime := fun _ s => if s = second then some "" else none } }

/-- No other second is formatted. -/
theorem formats_iff {x s : Int} (ht : t.filterType = .FStrftime) (hv : IntegerSource v x)
    (hx : FitsInt64 x) : FormatsSecond t v s ↔ x.tdiv (unitFactor t.filterNumberType) = s := by
  have hformats := strftime_formats ht hv hx
  constructor
  · intro h
    by_contra hne
    have hsame := (hformats (oneSecond s) ∅ ∅).1.symm.trans (h (oneSecond s) ∅ ∅).1
    simp only [formatted, oneSecond, if_neg hne, if_true] at hsame
    cases hsame
  · intro h
    rw [← h]
    exact hformats

/-- A date parsed and formatted in the same unit: the scaled epoch is stored without an
    overflow, and from any holder of it the parsed second is formatted. -/
def Lossless (env : Env) (t t' : Transformation) (v : TypeConverter) (e : Int) : Prop :=
  ∃ stored : Int, stored = e * unitFactor t.filterNumberType ∧ FitsInt64 stored
    ∧ (∀ vars vault,
        AdminServerProvision.processFilters env vars vault t v = passes (v.setInteger stored)
        ∧ AdminClientProvision.processFilters env vars vault t v = passes (v.setInteger stored))
    ∧ ∀ w, IntegerSource w stored → FormatsSecond t' w e

/-- **DATES**: a date of the years 0000 to 9999 is parsed and formatted in the same unit
    without loss if and only if the unit is not the nanosecond or its epoch is within
    ±9223372036; and the second that contains an instant is formatted if and only if the instant
    is not before 1970 or is a whole number of seconds. -/
theorem dates_exact_iff {env : Env} {t t' : Transformation} {v w : TypeConverter} {source : String}
    {e x : Int} (ht : t.filterType = .FStrptime) (ht' : t'.filterType = .FStrftime)
    (hunit : t'.filterNumberType = t.filterNumberType)
    (hsource : v.getString env.lib = .ok source)
    (hparsed : env.lib.strptime source t.filter = some e) (he : InYears e)
    (hw : IntegerSource w x) (hx : FitsInt64 x) :
    (Lossless env t t' v e ↔
      (t.filterNumberType = 3 → -9223372036 ≤ e ∧ e ≤ 9223372036))
    ∧ (FormatsSecond t' w (x / unitFactor t'.filterNumberType) ↔
      0 ≤ x ∨ unitFactor t'.filterNumberType ∣ x) := by
  have hpos := unitFactor_pos t.filterNumberType
  constructor
  · rw [← fits_scaled_iff he t.filterNumberType]
    constructor
    · rintro ⟨stored, rfl, hfits, -⟩
      exact hfits
    · intro hfits
      refine ⟨_, rfl, hfits, fun vars vault => ?_, fun u hu => ?_⟩
      · have hstores := strptime_stores vars vault ht hsource hparsed
        rw [wrapI64_of_fits hfits] at hstores
        exact hstores
      · rw [formats_iff ht' hu hfits, hunit]
        exact Int.mul_tdiv_cancel e (Int.ne_of_gt hpos)
  · rw [formats_iff ht' hw hx]
    exact tdiv_eq_ediv_iff (unitFactor_pos _)

/-- An item that parses or formats days. -/
def dayItem (filterType : FilterType) (unit : Nat) : Transformation where
  sourceType := .SVar
  source := "day"
  targetType := .TVar
  target := "day"
  filterType := filterType
  filter := "%Y-%m-%d"
  filterNumberType := unit

/-- An environment that can parse one day. -/
def oneDay (day : String) (e : Int) : Env :=
  { idleEnv with lib := { idleLib with
      strptime := fun text fmt => if text = day ∧ fmt = "%Y-%m-%d" then some e else none } }

/-- A day of 2026 in milliseconds. -/
theorem day_lossless :
    Lossless (oneDay "2026-03-30" 1774828800) (dayItem .FStrptime 1) (dayItem .FStrftime 1)
      (TypeConverter.fresh.setString "2026-03-30") 1774828800 :=
  (@dates_exact_iff _ (dayItem .FStrptime 1) (dayItem .FStrftime 1)
    (TypeConverter.fresh.setString "2026-03-30") (TypeConverter.fresh.setInteger 0) "2026-03-30"
    1774828800 0 rfl rfl rfl rfl rfl (by decide) (.integer rfl) (by decide)).1.mpr
    fun h => absurd h (by decide)

/-- The millisecond before 1970 is formatted as the first second of 1970, and a day of 1600
    has no number of nanoseconds. -/
theorem dates_lost :
    ¬ FormatsSecond (dayItem .FStrftime 1) (TypeConverter.fresh.setInteger (-1))
        (-1 / unitFactor 1)
      ∧ ¬ Lossless (oneDay "1600-01-01" (-11676096000)) (dayItem .FStrptime 3)
        (dayItem .FStrftime 3) (TypeConverter.fresh.setString "1600-01-01") (-11676096000) := by
  constructor
  · rw [formats_iff rfl (.integer rfl) (by decide)]
    decide
  · rintro ⟨stored, rfl, hfits, -⟩
    exact absurd hfits (by decide)

end H2Date
