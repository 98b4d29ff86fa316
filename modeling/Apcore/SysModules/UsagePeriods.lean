import Apcore.Observability.UsageWindows
import Apcore.Schema.Coercion
import Apcore.SysModules.UpdateConfig

/-! # `SysModules.UsagePeriods` — `system.usage.summary` and `system.usage.module`

A query names its period by a count of hours or days. The text is split in front of its last byte, the
count is read as an `i64`, and the period is taken from the present twice. -/

namespace Apcore

namespace Usage

open Fallible (bind_eq_ok map_eq_ok exists_map_eq_ok exists_bind_eq_ok)

variable {Float64 : Type} (floats : Floats Float64)

/-! ## Periods -/

/-- `str::len`. -/
def byteLength (text : List Char) : Nat := (text.map Char.utf8Size).sum

/-- `str::split_at`. -/
def splitAt : Nat → List Char → Except Panic (List Char × List Char)
  | 0, text => .ok ([], text)
  | _ + 1, [] => .error .splitInsideChar
  | mid + 1, c :: rest =>
    if c.utf8Size ≤ mid + 1 then (splitAt (mid + 1 - c.utf8Size) rest).map fun (first, second) =>
      (c :: first, second)
    else .error .splitInsideChar

/-- The whole seconds of `TimeDelta::MAX`, which is `i64::MAX` milliseconds. -/
def maxSeconds : Int := 9223372036854775

/-- `Duration::seconds`, where it is reached from another unit. -/
def durationOf (secondsPerUnit count : Int) : Except Panic Duration :=
  if -maxSeconds ≤ count * secondsPerUnit ∧ count * secondsPerUnit ≤ maxSeconds then
    .ok (count * secondsPerUnit * 1000000000)
  else .error .durationOutOfBounds

/-- `Duration::hours`. -/
def hours (count : Int) : Except Panic Duration := durationOf 3600 count

/-- `Duration::days`. -/
def days (count : Int) : Except Panic Duration := durationOf 86400 count

/-- `parse_period`. -/
def parsePeriod (period : String) : Except Panic (Option Duration) :=
  let text := period.toList
  match byteLength text with
  | 0 => .ok none
  | mid + 1 => do
    let (digits, unit) ← splitAt mid text
    if digits.isEmpty || !digits.all Char.isDigit then pure none
    else if digits.head? = some '0' then pure none
    else match parseI64 digits with
      | none => pure none
      | some n =>
        match unit with
        | ['h'] => (hours n).map some
        | ['d'] => (days n).map some
        | _ => pure none

/-- The error of `reject_malformed_period`. -/
def malformedPeriod (period : String) : ModuleError :=
  .new .schemaValidationError ("Invalid `period` '" ++ period ++
    "': expected the grammar ^[1-9][0-9]*[hd]$ (for example \"24h\" or \"7d\")")

/-- `reject_malformed_period`. -/
def rejectMalformedPeriod (period : String) : Except Panic (Except ModuleError Duration) :=
  (parsePeriod period).map fun
    | some duration => .ok duration
    | none => .error (malformedPeriod period)

/-- `reject_malformed_period(period)?`, and what comes after it. -/
def withPeriod {α : Type} (period : String) (next : Duration → Except Panic (Except ModuleError α)) :
    Except Panic (Except ModuleError α) := do
  match ← rejectMalformedPeriod period with
  | .error e => pure (.error e)
  | .ok window => next window

/-! ## The queries -/

/-- What an accessor of the collector finds, its lock held. -/
structure Reading (Float64 : Type) where
  collector : UsageCollector Float64
  now : Instant

/-- `inputs.get("period")`, or a day. -/
def periodOf (inputs : Config.Value) : String :=
  ((inputs.child "period").bind (·.1.asStr?)).getD "24h"

/-- What `system.usage.summary` reports. -/
structure UsageOverview (Float64 : Type) where
  period : String
  totalCalls : Nat
  totalErrors : Nat
  modules : List (UsageStats Float64)

/-- `UsageSummaryModule::execute`. -/
def UsageSummaryModule.execute (reading : Reading Float64) (inputs : Config.Value) :
    Except Panic (Except ModuleError (UsageOverview Float64)) :=
  let period := periodOf inputs
  withPeriod period fun window =>
    (getSummaryForPeriod floats reading.collector (some window) reading.now).map fun summaries =>
      let summaries := summaries.mergeSort fun a b => b.callCount ≤ a.callCount
      .ok {
        period
        totalCalls := (summaries.map (·.callCount)).sum
        totalErrors := (summaries.map (·.errorCount)).sum
        modules := summaries }

/-- The key of the hour that is `23 - i` hours back. -/
def hourBack (now : Instant) (i : Nat) : Except Panic String := do
  let back ← hours (23 - i)
  let hour ← sub now back
  pure (bucketKey hour)

/-- `pad_hourly_distribution`. -/
def padHourlyDistribution (hourly : List HourlyBucket) (now : Instant) :
    Except Panic (List HourlyBucket) := do
  let generated ← (List.range 24).mapM (hourBack now)
  let keys := (generated ++ hourly.map (·.hour)).dedup.insertionSort (· ≤ ·)
  let latest := keys.drop (keys.length - 24)
  pure (latest.map fun key =>
    -- of two entries of an hour the later one stands
    match hourly.reverse.find? (·.hour == key) with
    | some bucket => bucket
    | none => ⟨key, 0, 0⟩)

/-- What `system.usage.module` reports. -/
structure UsageReport (Float64 : Type) where
  moduleId : String
  period : String
  callCount : Nat
  errorCount : Nat
  avgLatencyMs : Float64
  p99LatencyMs : Float64
  trend : String
  callers : List (CallerStats Float64)
  hourlyDistribution : List HourlyBucket

def moduleNotFound (moduleId : String) : ModuleError :=
  .new .moduleNotFound ("Module '" ++ moduleId ++ "' not found")

/-- `UsageModule::execute`, up to its accessors. -/
def UsageModule.report (readings : Nat → Reading Float64) (moduleId period : String)
    (window : Duration) : Except Panic (UsageReport Float64) := do
  let stats ← getModuleSummaryForPeriod floats (readings 0).collector moduleId (some window)
    (readings 0).now
  let p99 ← getP99LatencyMsForPeriod floats (readings 1).collector moduleId (some window)
    (readings 1).now
  let callers ← getCallerBreakdownForPeriod floats (readings 2).collector moduleId (some window)
    (readings 2).now
  let hourly ← getHourlyDistributionForPeriod (readings 3).collector moduleId (some window)
    (readings 3).now
  let hourly ← padHourlyDistribution hourly (readings 4).now
  match stats with
  | some s => pure ⟨moduleId, period, s.callCount, s.errorCount, s.avgLatencyMs, p99, s.trend, callers,
      hourly⟩
  | none => pure ⟨moduleId, period, 0, 0, floats.zero, floats.zero, "stable", [], hourly⟩

/-- `UsageModule::execute`. Its accessors take the lock and the time one after the other. -/
def UsageModule.execute (registered : String → Bool) (readings : Nat → Reading Float64)
    (inputs : Config.Value) : Except Panic (Except ModuleError (UsageReport Float64)) :=
  match Config.requireString inputs "module_id" with
  | .error e => .ok (.error e)
  | .ok moduleId =>
    let period := periodOf inputs
    if !registered moduleId then .ok (.error (moduleNotFound moduleId))
    else withPeriod period fun window =>
      (UsageModule.report floats readings moduleId period window).map .ok

/-! ## What a period says -/

/-- The seconds of a unit. -/
def unitSeconds : Char → Option Int
  | 'h' => some 3600
  | 'd' => some 86400
  | _ => none

/-- `^[1-9][0-9]*$`. -/
structure Numeral (digits : List Char) : Prop where
  nonempty : digits ≠ []
  digit : ∀ c ∈ digits, c.isDigit = true
  leading : digits.head? ≠ some '0'

/-- `^[1-9][0-9]*[hd]$`, with a count of units of as many seconds. -/
def PeriodText (period : String) (count : Nat) (seconds : Int) : Prop :=
  ∃ digits unit, period.toList = digits ++ [unit] ∧ Numeral digits ∧ digitsValue digits = count ∧
    unitSeconds unit = some seconds

/-- The duration of a count of units of as many seconds. -/
def exactDuration (count : Nat) (seconds : Int) : Duration := count * seconds * 1000000000

/-- The last character is one byte. -/
def LastAscii (period : String) : Prop :=
  ∀ c, period.toList.getLast? = some c → c.utf8Size = 1

variable {period : String}

theorem PeriodText.unique {count count' : Nat} {seconds seconds' : Int}
    (h : PeriodText period count seconds) (h' : PeriodText period count' seconds') :
    count = count' ∧ seconds = seconds' := by
  obtain ⟨digits, unit, htext, -, rfl, hunit⟩ := h
  obtain ⟨digits', unit', htext', -, rfl, hunit'⟩ := h'
  obtain ⟨rfl, hunits⟩ := List.append_inj' (htext.symm.trans htext') rfl
  obtain rfl := List.singleton_inj.mp hunits
  exact ⟨rfl, Option.some.inj (hunit.symm.trans hunit')⟩

theorem unitSeconds_eq_some {unit : Char} {seconds : Int} (h : unitSeconds unit = some seconds) :
    unit = 'h' ∧ seconds = 3600 ∨ unit = 'd' ∧ seconds = 86400 := by
  unfold unitSeconds at h
  split at h
  · exact .inl ⟨rfl, (Option.some.inj h).symm⟩
  · exact .inr ⟨rfl, (Option.some.inj h).symm⟩
  · cases h

theorem unitSeconds_eq_none {unit : Char} (h : unitSeconds unit = none) : unit ≠ 'h' ∧ unit ≠ 'd' := by
  constructor
  · rintro rfl
    cases h
  · rintro rfl
    cases h

theorem PeriodText.seconds_pos {count : Nat} {seconds : Int} (h : PeriodText period count seconds) :
    0 < seconds := by
  obtain ⟨-, unit, -, -, -, hunit⟩ := h
  rcases unitSeconds_eq_some hunit with ⟨-, rfl⟩ | ⟨-, rfl⟩ <;> decide

theorem PeriodText.lastAscii {count : Nat} {seconds : Int} (h : PeriodText period count seconds) :
    LastAscii period := by
  obtain ⟨digits, unit, htext, -, -, hunit⟩ := h
  intro c hc
  rw [htext, List.getLast?_concat] at hc
  obtain rfl := Option.some.inj hc
  rcases unitSeconds_eq_some hunit with ⟨rfl, -⟩ | ⟨rfl, -⟩ <;> decide

/-! ## What `parse_period` reads -/

theorem byteLength_concat (init : List Char) (c : Char) :
    byteLength (init ++ [c]) = byteLength init + c.utf8Size := by
  unfold byteLength
  rw [List.map_append, List.sum_append_nat, List.map_singleton, List.sum_cons, List.sum_nil,
    Nat.add_zero]

/-- In front of its last byte a text is split where its last character is one byte. -/
theorem splitAt_last (init : List Char) (c : Char) {mid : Nat}
    (hmid : byteLength (init ++ [c]) = mid + 1) :
    splitAt mid (init ++ [c]) =
      if c.utf8Size = 1 then .ok (init, [c]) else .error .splitInsideChar := by
  induction init generalizing mid with
  | nil =>
    rw [byteLength_concat] at hmid
    change 0 + c.utf8Size = mid + 1 at hmid
    cases mid with
    | zero =>
      rw [if_pos (by omega)]
      rfl
    | succ mid =>
      rw [if_neg (by omega)]
      exact if_neg (by omega)
  | cons d rest ih =>
    have hlength : byteLength ((d :: rest) ++ [c]) = d.utf8Size + byteLength (rest ++ [c]) := rfl
    have hd := d.utf8Size_pos
    have hc := c.utf8Size_pos
    rw [hlength, byteLength_concat] at hmid
    cases mid with
    | zero => omega
    | succ mid =>
      rw [List.cons_append, splitAt, if_pos (by omega), ih (by rw [byteLength_concat]; omega)]
      split_ifs <;> rfl

theorem parseI64_digits {digits : List Char} (h : isDigits digits = true) :
    parseI64 digits =
      if digitsValue digits < 2 ^ 63 then some (digitsValue digits : ℤ) else none := by
  obtain ⟨hne, hall⟩ := Bool.and_eq_true_iff.mp h
  have hsign : splitSign digits = (false, digits) := by
    cases digits with
    | nil => rfl
    | cons c rest =>
      have hc : c.isDigit = true := List.all_eq_true.mp hall c List.mem_cons_self
      unfold splitSign
      split
      · next heq =>
        rw [(List.cons.inj heq).1] at hc
        exact absurd hc (by decide)
      · next heq =>
        rw [(List.cons.inj heq).1] at hc
        exact absurd hc (by decide)
      · rfl
  unfold parseI64
  rw [hsign]
  dsimp only
  rw [if_pos h, if_neg Bool.false_ne_true]
  exact if_congr (by omega) rfl rfl

/-- What `parse_period` can do. -/
inductive Parsed (period : String) : Except Panic (Option Duration) → Prop
  /-- The split is in the middle of a character. -/
  | split (h : ¬LastAscii period) : Parsed period (.error .splitInsideChar)
  | malformed (hlast : LastAscii period)
      (h : ∀ count seconds, ¬PeriodText period count seconds) : Parsed period (.ok none)
  /-- The count is no `i64`. -/
  | overlong {count : Nat} {seconds : Int} (h : PeriodText period count seconds)
      (hcount : 2 ^ 63 ≤ count) : Parsed period (.ok none)
  | duration {count : Nat} {seconds : Int} (h : PeriodText period count seconds)
      (hcount : count < 2 ^ 63) : Parsed period ((durationOf seconds count).map some)

theorem numeral_iff {digits : List Char} :
    Numeral digits ↔ isDigits digits = true ∧ digits.head? ≠ some '0' := by
  unfold isDigits
  rw [Bool.and_eq_true_iff, List.all_eq_true, Bool.not_eq_true', List.isEmpty_eq_false_iff]
  exact ⟨fun h => ⟨⟨h.nonempty, h.digit⟩, h.leading⟩, fun h => ⟨h.1.1, h.1.2, h.2⟩⟩

theorem parsed_parsePeriod (period : String) : Parsed period (parsePeriod period) := by
  unfold parsePeriod
  dsimp only
  rcases List.eq_nil_or_concat period.toList with hnil | ⟨digits, unit, htext⟩
  · rw [hnil]
    refine .malformed (fun c hc => ?_) fun count seconds ⟨digits, unit, htext, _⟩ => ?_
    · rw [hnil] at hc
      cases hc
    · rw [hnil] at htext
      exact absurd (congrArg List.length htext) (by simp)
  · rw [List.concat_eq_append] at htext
    rw [htext]
    have hlast : LastAscii period ↔ unit.utf8Size = 1 := by
      unfold LastAscii
      rw [htext, List.getLast?_concat]
      exact ⟨fun h => h unit rfl, fun h c hc => Option.some.inj hc ▸ h⟩
    have hunitPos := unit.utf8Size_pos
    obtain ⟨mid, hmid⟩ : ∃ mid, byteLength (digits ++ [unit]) = mid + 1 :=
      ⟨byteLength (digits ++ [unit]) - 1, by rw [byteLength_concat]; omega⟩
    rw [hmid]
    dsimp only
    rw [splitAt_last digits unit hmid]
    split_ifs with hunit
    · -- the text says a period only where it passes every test
      have hperiod : ∀ count seconds, PeriodText period count seconds →
          Numeral digits ∧ digitsValue digits = count ∧ unitSeconds unit = some seconds := by
        rintro count seconds ⟨digits', unit', htext', hnumeral, hcount, hseconds⟩
        obtain ⟨rfl, hunits⟩ := List.append_inj' (htext.symm.trans htext') rfl
        obtain rfl := List.singleton_inj.mp hunits
        exact ⟨hnumeral, hcount, hseconds⟩
      show Parsed period (if _ then _ else _)
      have hempty : (digits.isEmpty || !digits.all Char.isDigit) = !isDigits digits := by
        unfold isDigits
        cases digits.isEmpty <;> cases digits.all Char.isDigit <;> rfl
      rw [hempty]
      cases hdigits : isDigits digits with
      | false =>
        refine .malformed (hlast.mpr hunit) fun count seconds h => ?_
        cases hdigits.symm.trans (numeral_iff.mp (hperiod count seconds h).1).1
      | true =>
        rw [if_neg (by decide)]
        split_ifs with hzero
        · exact .malformed (hlast.mpr hunit) fun count seconds h =>
            (hperiod count seconds h).1.leading hzero
        · have hnumeral : Numeral digits := numeral_iff.mpr ⟨hdigits, hzero⟩
          rw [parseI64_digits hdigits]
          cases hseconds : unitSeconds unit with
          | none =>
            have hnone : Parsed period (.ok none) := .malformed (hlast.mpr hunit) fun count seconds h => by
              cases hseconds.symm.trans (hperiod count seconds h).2.2
            split_ifs with hcount
            · dsimp only
              obtain ⟨hhour, hday⟩ := unitSeconds_eq_none hseconds
              split
              · next heq => exact absurd (List.singleton_inj.mp heq) hhour
              · next heq => exact absurd (List.singleton_inj.mp heq) hday
              · exact hnone
            · exact hnone
          | some seconds =>
            have htext' : PeriodText period (digitsValue digits) seconds :=
              ⟨digits, unit, htext, hnumeral, rfl, hseconds⟩
            split_ifs with hcount
            · have hduration := Parsed.duration htext' hcount
              rcases unitSeconds_eq_some hseconds with ⟨rfl, rfl⟩ | ⟨rfl, rfl⟩
              · exact hduration
              · exact hduration
            · exact .overlong htext' (not_lt.mp hcount)
    · exact .split (hlast.not.mpr hunit)

/-! ## Dates in range -/

/-- A time between the years 1970 and 9999. -/
def Present (now : Instant) : Prop := yearStart 1970 ≤ now ∧ now < yearStart 10000

instance (now : Instant) : Decidable (Present now) := inferInstanceAs (Decidable (_ ∧ _))

/-- A date that `chrono` has. -/
def Representable (at' : Instant) : Prop := yearStart (-262143) ≤ at' ∧ at' < yearStart 262143

instance (at' : Instant) : Decidable (Representable at') := inferInstanceAs (Decidable (_ ∧ _))

theorem sub_of_representable {now : Instant} {delta : Duration} (h : Representable (now - delta)) :
    sub now delta = .ok (now - delta) := if_pos h

theorem sub_eq_ok_iff {now result : Instant} {delta : Duration} :
    sub now delta = .ok result ↔ Representable (now - delta) ∧ result = now - delta := by
  unfold sub
  split_ifs with h
  · exact ⟨fun heq => ⟨h, (Except.ok.inj heq).symm⟩, fun ⟨_, heq⟩ => congrArg _ heq.symm⟩
  · refine ⟨fun heq => ?_, fun ⟨hrange, _⟩ => absurd hrange h⟩
    cases heq

/-- Going back from the present leaves the range at its beginning. -/
theorem Present.representable_sub {now : Instant} (h : Present now) {delta : Duration}
    (hdelta : 0 ≤ delta) : Representable (now - delta) ↔ yearStart (-262143) ≤ now - delta := by
  refine ⟨And.left, fun hstart => ⟨hstart, ?_⟩⟩
  have hyears : yearStart 10000 ≤ yearStart 262143 := by decide +kernel
  exact (Int.sub_le_self now hdelta).trans_lt (h.2.trans_le hyears)

/-- The first window begins at a date where the second does. -/
theorem Present.first_of_second {now : Instant} (h : Present now) {delta : Duration}
    (hdelta : 0 ≤ delta) (hsecond : Representable (now - delta - delta)) :
    Representable (now - delta) :=
  (h.representable_sub hdelta).mpr (hsecond.1.trans (Int.sub_le_self (now - delta) hdelta))

theorem exactDuration_nonneg {count : Nat} {seconds : Int} (h : 0 < seconds) :
    0 ≤ exactDuration count seconds :=
  mul_nonneg (mul_nonneg (Int.natCast_nonneg count) h.le) (by decide)

/-- A date in range is no further away than a duration can say. -/
theorem Present.seconds_le {now : Instant} (h : Present now) {count : Nat} {seconds : Int}
    (hrange : yearStart (-262143) ≤ now - exactDuration count seconds) :
    count * seconds ≤ maxSeconds := by
  have hfirst : (-8334601228800 * 1000000000 : Int) = yearStart (-262143) := by decide +kernel
  have hlast : yearStart 10000 = (253402300800 * 1000000000 : Int) := by decide +kernel
  have hbound : ∀ present total : Int, present < 253402300800 * 1000000000 →
      -8334601228800 * 1000000000 ≤ present - total * 1000000000 → total ≤ maxSeconds := by
    intro present total hpresent hstart
    unfold maxSeconds
    omega
  exact hbound now (count * seconds) (h.2.trans_eq hlast) (hfirst.trans_le hrange)

theorem durationOf_eq_ok {seconds : Int} {count : Nat} (h : 0 < seconds) {d : Duration} :
    durationOf seconds count = .ok d ↔
      count * seconds ≤ maxSeconds ∧ d = exactDuration count seconds := by
  have hnonneg : 0 ≤ (count : Int) * seconds := mul_nonneg (Int.natCast_nonneg count) h.le
  have hlow : -maxSeconds ≤ (count : Int) * seconds := le_trans (by decide) hnonneg
  unfold durationOf
  split_ifs with hbound
  · exact ⟨fun heq => ⟨hbound.2, (Except.ok.inj heq).symm⟩, fun ⟨_, heq⟩ => congrArg _ heq.symm⟩
  · refine ⟨fun heq => ?_, fun ⟨hle, _⟩ => absurd ⟨hlow, hle⟩ hbound⟩
    cases heq

/-! ## What a query does with its period -/

/-- A period is read as what it says and nothing else. -/
theorem exact_of_parsePeriod {d : Duration} (h : parsePeriod period = .ok (some d)) :
    ∃ count seconds, PeriodText period count seconds ∧ d = exactDuration count seconds := by
  have hparsed := parsed_parsePeriod period
  rw [h] at hparsed
  generalize houtcome : Except.ok (some d) = outcome at hparsed
  cases hparsed with
  | split _ => cases houtcome
  | malformed _ _ => cases houtcome
  | overlong _ _ => cases houtcome
  | @duration count seconds htext _ =>
    obtain ⟨d', hd', heq⟩ := map_eq_ok.mp houtcome.symm
    obtain rfl := Option.some.inj heq
    exact ⟨count, seconds, htext, ((durationOf_eq_ok htext.seconds_pos).mp hd').2⟩

theorem parsePeriod_of_text {count : Nat} {seconds : Int} (htext : PeriodText period count seconds)
    (hcount : count < 2 ^ 63) (hseconds : count * seconds ≤ maxSeconds) :
    parsePeriod period = .ok (some (exactDuration count seconds)) := by
  have hparsed := parsed_parsePeriod period
  generalize parsePeriod period = outcome at hparsed ⊢
  cases hparsed with
  | split h => exact absurd htext.lastAscii h
  | malformed _ h => exact absurd htext (h _ _)
  | overlong htext' hcount' =>
    obtain ⟨rfl, rfl⟩ := htext.unique htext'
    exact absurd hcount (not_lt.mpr hcount')
  | duration htext' _ =>
    obtain ⟨rfl, rfl⟩ := htext.unique htext'
    rw [(durationOf_eq_ok htext.seconds_pos).mpr ⟨hseconds, rfl⟩]
    rfl

theorem withPeriod_none {α : Type} {next : Duration → Except Panic (Except ModuleError α)}
    (h : parsePeriod period = .ok none) :
    withPeriod period next = .ok (.error (malformedPeriod period)) := by
  unfold withPeriod rejectMalformedPeriod
  rw [h]
  rfl

theorem withPeriod_some {α : Type} {next : Duration → Except Panic (Except ModuleError α)}
    {window : Duration} (h : parsePeriod period = .ok (some window)) :
    withPeriod period next = next window := by
  unfold withPeriod rejectMalformedPeriod
  rw [h]
  rfl

theorem withPeriod_error {α : Type} {next : Duration → Except Panic (Except ModuleError α)}
    {panic : Panic} (h : parsePeriod period = .error panic) :
    withPeriod period next = .error panic := by
  unfold withPeriod rejectMalformedPeriod
  rw [h]
  rfl

/-- A period is no reason to abort: its last character is one byte, and where its count is an `i64`,
its duration can be said and what is done with it returns. -/
structure Returns (period : String) (returned : Duration → Prop) : Prop where
  last : LastAscii period
  window : ∀ count seconds, PeriodText period count seconds → count < 2 ^ 63 →
    count * seconds ≤ maxSeconds ∧ returned (exactDuration count seconds)

theorem returns_iff {α : Type} {next : Duration → Except Panic (Except ModuleError α)} :
    (∃ result, withPeriod period next = .ok result) ↔
      Returns period fun d => ∃ result, next d = .ok result := by
  constructor
  · rintro ⟨result, hresult⟩
    have hparsed := parsed_parsePeriod period
    generalize houtcome : parsePeriod period = outcome at hparsed
    cases hparsed with
    | split _ => cases hresult.symm.trans (withPeriod_error houtcome)
    | malformed hlast h => exact ⟨hlast, fun count seconds htext => absurd htext (h count seconds)⟩
    | overlong h hcount =>
      refine ⟨h.lastAscii, fun count seconds htext hcount' => ?_⟩
      obtain ⟨rfl, rfl⟩ := h.unique htext
      exact absurd hcount' (not_lt.mpr hcount)
    | @duration count seconds h hcount =>
      refine ⟨h.lastAscii, fun count' seconds' htext _ => ?_⟩
      obtain ⟨rfl, rfl⟩ := h.unique htext
      cases hduration : durationOf seconds count with
      | error panic =>
        rw [hduration] at houtcome
        cases hresult.symm.trans (withPeriod_error houtcome)
      | ok window =>
        obtain ⟨hbound, rfl⟩ := (durationOf_eq_ok h.seconds_pos).mp hduration
        rw [hduration] at houtcome
        exact ⟨hbound, result, (withPeriod_some houtcome).symm.trans hresult⟩
  · intro h
    have hparsed := parsed_parsePeriod period
    generalize houtcome : parsePeriod period = outcome at hparsed
    cases hparsed with
    | split hsplit => exact absurd h.last hsplit
    | malformed _ _ => exact ⟨_, withPeriod_none houtcome⟩
    | overlong _ _ => exact ⟨_, withPeriod_none houtcome⟩
    | duration htext hcount =>
      obtain ⟨hbound, result, hresult⟩ := h.window _ _ htext hcount
      exact ⟨result, (withPeriod_some (parsePeriod_of_text htext hcount hbound)).trans hresult⟩

/-- A query with a period, at a present: it returns, the period is read as what it says and nothing
else, it is accepted where both of its windows begin at dates in range, and is otherwise an error where
it says nothing. -/
structure AcceptedExactly {α : Type} (query : Except Panic (Except ModuleError α)) (period : String)
    (now : Instant) : Prop where
  returns : ∃ result, query = .ok result
  exact : ∀ d, parsePeriod period = .ok (some d) →
    ∃ count seconds, PeriodText period count seconds ∧ d = exactDuration count seconds
  accepts : ∀ count seconds, PeriodText period count seconds →
    Representable (now - exactDuration count seconds - exactDuration count seconds) →
    parsePeriod period = .ok (some (exactDuration count seconds)) ∧
      ∀ e, query = .ok (.error e) → e ≠ malformedPeriod period
  refuses : (∀ count seconds, ¬PeriodText period count seconds) → ∃ e, query = .ok (.error e)

theorem Present.parsePeriod {now : Instant} (h : Present now) {count : Nat} {seconds : Int}
    (htext : PeriodText period count seconds)
    (hrange : Representable (now - exactDuration count seconds - exactDuration count seconds)) :
    parsePeriod period = .ok (some (exactDuration count seconds)) := by
  have hfirst := h.first_of_second (exactDuration_nonneg htext.seconds_pos) hrange
  have hbound := h.seconds_le hfirst.1
  refine parsePeriod_of_text htext ?_ hbound
  have hpos := htext.seconds_pos
  have hcount : (count : Int) ≤ count * seconds := le_mul_of_one_le_right (Int.natCast_nonneg count) hpos
  unfold maxSeconds at hbound
  omega

/-- What comes after the period refuses nothing. -/
theorem acceptedExactly_withPeriod {α : Type} {next : Duration → Except Panic (Except ModuleError α)}
    {now : Instant} (hnow : Present now) (hnext : ∀ d e, next d ≠ .ok (.error e)) :
    AcceptedExactly (withPeriod period next) period now ↔
      Returns period fun d => ∃ result, next d = .ok result := by
  refine ⟨fun h => returns_iff.mp h.returns, fun h => ⟨returns_iff.mpr h, fun _ => exact_of_parsePeriod,
    fun count seconds htext hrange => ⟨hnow.parsePeriod htext hrange, fun e he => ?_⟩, fun hnone => ?_⟩⟩
  · rw [withPeriod_some (hnow.parsePeriod htext hrange)] at he
    exact absurd he (hnext _ e)
  · have hparsed := parsed_parsePeriod period
    generalize houtcome : Usage.parsePeriod period = outcome at hparsed
    cases hparsed with
    | split hsplit => exact absurd h.last hsplit
    | malformed _ _ => exact ⟨_, withPeriod_none houtcome⟩
    | overlong _ _ => exact ⟨_, withPeriod_none houtcome⟩
    | duration htext _ => exact absurd htext (hnone _ _)

theorem returns_congr {P Q : Duration → Prop} (h : ∀ d, 0 ≤ d → (P d ↔ Q d)) :
    Returns period P ↔ Returns period Q := by
  constructor
  · refine fun hP => ⟨hP.last, fun count seconds htext hcount => ?_⟩
    exact (hP.window count seconds htext hcount).imp_right
      (h _ (exactDuration_nonneg htext.seconds_pos)).mp
  · refine fun hQ => ⟨hQ.last, fun count seconds htext hcount => ?_⟩
    exact (hQ.window count seconds htext hcount).imp_right
      (h _ (exactDuration_nonneg htext.seconds_pos)).mpr

/-! ## Accessors -/

section Accessors

variable {collector : UsageCollector Float64} {moduleId : String} {now : Instant} {d : Duration}

theorem sub_returns : (∃ result, sub now d = .ok result) ↔ Representable (now - d) :=
  ⟨fun ⟨_, h⟩ => (sub_eq_ok_iff.mp h).1, fun h => ⟨_, sub_of_representable h⟩⟩

/-- Both windows begin in range where the first of them does. -/
theorem windows_return {α : Type} {f : Instant → Instant → α} (hnow : Present now) (hd : 0 ≤ d) :
    (∃ result, (do
      let cutoff ← sub now d
      let prevCutoff ← sub cutoff d
      pure (f prevCutoff cutoff)) = Except.ok result) ↔ Representable (now - d - d) := by
  constructor
  · rintro ⟨result, h⟩
    obtain ⟨cutoff, hcutoff, h⟩ := bind_eq_ok.mp h
    obtain ⟨prevCutoff, hprev, -⟩ := bind_eq_ok.mp h
    obtain ⟨-, rfl⟩ := sub_eq_ok_iff.mp hcutoff
    exact (sub_eq_ok_iff.mp hprev).1
  · intro h
    rw [sub_of_representable (hnow.first_of_second hd h)]
    show ∃ result, (sub (now - d) d >>= _) = Except.ok result
    rw [sub_of_representable h]
    exact ⟨_, rfl⟩

theorem getSummaryForPeriod_returns (hnow : Present now) (hd : 0 ≤ d) :
    (∃ result, getSummaryForPeriod floats collector (some d) now = .ok result) ↔
      Representable (now - d - d) := by
  unfold getSummaryForPeriod
  exact windows_return hnow hd

theorem getModuleSummaryForPeriod_returns (hnow : Present now) (hd : 0 ≤ d) :
    (∃ result, getModuleSummaryForPeriod floats collector moduleId (some d) now = .ok result) ↔
      ((Fields.get? collector.data moduleId).isSome = true → Representable (now - d - d)) := by
  unfold getModuleSummaryForPeriod
  cases Fields.get? collector.data moduleId with
  | none => exact iff_of_true ⟨_, rfl⟩ nofun
  | some data =>
    exact (windows_return (f := fun prevCutoff cutoff =>
      some (summaryIn floats moduleId data prevCutoff cutoff now)) hnow hd).trans
        ⟨fun h _ => h, fun h => h rfl⟩

theorem getP99LatencyMsForPeriod_returns :
    (∃ result, getP99LatencyMsForPeriod floats collector moduleId (some d) now = .ok result) ↔
      ((Fields.get? collector.data moduleId).isSome = true → Representable (now - d)) := by
  unfold getP99LatencyMsForPeriod
  cases Fields.get? collector.data moduleId with
  | none => exact iff_of_true ⟨_, rfl⟩ nofun
  | some data =>
    exact (exists_map_eq_ok.trans (exists_map_eq_ok.trans sub_returns)).trans
      ⟨fun h _ => h, fun h => h rfl⟩

theorem getCallerBreakdownForPeriod_returns :
    (∃ result, getCallerBreakdownForPeriod floats collector moduleId (some d) now = .ok result) ↔
      ((Fields.get? collector.data moduleId).isSome = true → Representable (now - d)) := by
  unfold getCallerBreakdownForPeriod
  cases Fields.get? collector.data moduleId with
  | none => exact iff_of_true ⟨_, rfl⟩ nofun
  | some data =>
    exact (exists_map_eq_ok.trans (exists_map_eq_ok.trans sub_returns)).trans
      ⟨fun h _ => h, fun h => h rfl⟩

theorem getHourlyDistributionForPeriod_returns :
    (∃ result, getHourlyDistributionForPeriod collector moduleId (some d) now = .ok result) ↔
      ((Fields.get? collector.data moduleId).isSome = true → Representable (now - d)) := by
  unfold getHourlyDistributionForPeriod
  cases Fields.get? collector.data moduleId with
  | none => exact iff_of_true ⟨_, rfl⟩ nofun
  | some data =>
    refine Iff.trans ?_ ⟨fun h _ => h, fun h => h rfl⟩
    rw [← sub_returns]
    constructor
    · rintro ⟨result, h⟩
      obtain ⟨cutoff, hcutoff, -⟩ := bind_eq_ok.mp h
      obtain ⟨start, hstart, -⟩ := map_eq_ok.mp hcutoff
      exact ⟨start, hstart⟩
    · rintro ⟨start, hstart⟩
      dsimp only
      rw [hstart]
      exact ⟨_, rfl⟩

/-- The hours of a day back from the present are in range. -/
theorem hourBack_returns (hnow : Present now) {i : Nat} (hi : i < 24) :
    ∃ result, hourBack now i = .ok result := by
  have hback : hours (23 - i) = .ok (exactDuration (23 - i) 3600) := by
    have hcast : ((23 - i : Nat) : Int) = 23 - i := by omega
    unfold hours
    rw [← hcast, durationOf_eq_ok (by decide), maxSeconds]
    exact ⟨by omega, rfl⟩
  have hrange : Representable (now - exactDuration (23 - i) 3600) := by
    rw [hnow.representable_sub (exactDuration_nonneg (by decide))]
    have hday : ((23 - i : Nat) : Int) * 3600 * 1000000000 ≤ 86400 * 1000000000 := by omega
    have hyears : yearStart (-262143) ≤ yearStart 1970 - 86400 * 1000000000 := by decide +kernel
    exact hyears.trans (Int.sub_le_sub hnow.1 hday)
  unfold hourBack
  rw [hback]
  show ∃ result, (sub now _ >>= _) = Except.ok result
  rw [sub_of_representable hrange]
  exact ⟨_, rfl⟩

theorem padHourlyDistribution_returns (hnow : Present now) (hourly : List HourlyBucket) :
    ∃ result, padHourlyDistribution hourly now = .ok result := by
  obtain ⟨generated, hgenerated⟩ := Fallible.exists_mapM_eq_ok (f := hourBack now)
    fun i hi => hourBack_returns hnow (List.mem_range.mp hi)
  unfold padHourlyDistribution
  rw [hgenerated]
  exact ⟨_, rfl⟩

end Accessors

/-! ## The two queries -/

/-- What the accessors of a report have to go back to is in range, where they find the module. -/
structure ReadingsFit (readings : Nat → Reading Float64) (moduleId : String) (d : Duration) : Prop where
  summary : (Fields.get? (readings 0).collector.data moduleId).isSome = true →
    Representable ((readings 0).now - d - d)
  others : ∀ i, 1 ≤ i → i ≤ 3 → (Fields.get? (readings i).collector.data moduleId).isSome = true →
    Representable ((readings i).now - d)

theorem report_returns {readings : Nat → Reading Float64} (hnow : ∀ i, Present (readings i).now)
    (moduleId period : String) {d : Duration} (hd : 0 ≤ d) :
    (∃ result, UsageModule.report floats readings moduleId period d = .ok result) ↔
      ReadingsFit readings moduleId d := by
  constructor
  · rintro ⟨result, h⟩
    obtain ⟨stats, hstats, h⟩ := bind_eq_ok.mp h
    obtain ⟨p99, hp99, h⟩ := bind_eq_ok.mp h
    obtain ⟨callers, hcallers, h⟩ := bind_eq_ok.mp h
    obtain ⟨hourly, hhourly, -⟩ := bind_eq_ok.mp h
    refine ⟨(getModuleSummaryForPeriod_returns floats (hnow 0) hd).mp ⟨_, hstats⟩, fun i hlow hhigh => ?_⟩
    rcases (show i = 1 ∨ i = 2 ∨ i = 3 by omega) with rfl | rfl | rfl
    · exact (getP99LatencyMsForPeriod_returns floats).mp ⟨_, hp99⟩
    · exact (getCallerBreakdownForPeriod_returns floats).mp ⟨_, hcallers⟩
    · exact getHourlyDistributionForPeriod_returns.mp ⟨_, hhourly⟩
  · intro h
    obtain ⟨stats, hstats⟩ := (getModuleSummaryForPeriod_returns floats (hnow 0) hd).mpr h.summary
    obtain ⟨p99, hp99⟩ := (getP99LatencyMsForPeriod_returns floats).mpr
      (h.others 1 (by decide) (by decide))
    obtain ⟨callers, hcallers⟩ := (getCallerBreakdownForPeriod_returns floats).mpr
      (h.others 2 (by decide) (by decide))
    obtain ⟨hourly, hhourly⟩ := getHourlyDistributionForPeriod_returns.mpr
      (h.others 3 (by decide) (by decide))
    obtain ⟨padded, hpadded⟩ := padHourlyDistribution_returns (hnow 4) hourly
    refine exists_bind_eq_ok hstats (exists_bind_eq_ok hp99 (exists_bind_eq_ok hcallers
      (exists_bind_eq_ok hhourly (exists_bind_eq_ok hpadded ?_))))
    cases stats with
    | none => exact ⟨_, rfl⟩
    | some stats => exact ⟨_, rfl⟩

/-- An error that is not about the period is an answer. -/
theorem acceptedExactly_refused {α : Type} {now : Instant} (hnow : Present now) {e : ModuleError}
    (he : e.code ≠ .schemaValidationError) :
    AcceptedExactly (.ok (.error e) : Except Panic (Except ModuleError α)) period now := by
  refine ⟨⟨_, rfl⟩, fun _ => exact_of_parsePeriod, fun count seconds htext hrange =>
    ⟨hnow.parsePeriod htext hrange, fun e' h heq => ?_⟩, fun _ => ⟨e, rfl⟩⟩
  obtain rfl := Except.error.inj (Except.ok.inj h)
  exact he (congrArg ModuleError.code heq)

/-- A query accepts its period exactly where it is no reason to abort. -/
theorem usageQueries_exact (registered : String → Bool) (readings : Nat → Reading Float64)
    (inputs : Config.Value) (hnow : ∀ i, Present (readings i).now) :
    (AcceptedExactly (UsageSummaryModule.execute floats (readings 0) inputs) (periodOf inputs)
        (readings 0).now ↔
      Returns (periodOf inputs) fun d => Representable ((readings 0).now - d - d)) ∧
    (AcceptedExactly (UsageModule.execute floats registered readings inputs) (periodOf inputs)
        (readings 0).now ↔
      ∀ moduleId, Config.requireString inputs "module_id" = .ok moduleId →
        registered moduleId = true → Returns (periodOf inputs) (ReadingsFit readings moduleId)) := by
  constructor
  · unfold UsageSummaryModule.execute
    rw [acceptedExactly_withPeriod (hnow 0) fun d e h => ?_]
    · exact returns_congr fun d hd => exists_map_eq_ok.trans (getSummaryForPeriod_returns floats (hnow 0) hd)
    · obtain ⟨summaries, -, heq⟩ := map_eq_ok.mp h
      cases heq
  · unfold UsageModule.execute
    cases hid : Config.requireString inputs "module_id" with
    | error e =>
      refine iff_of_true (acceptedExactly_refused (hnow 0) ?_) fun moduleId h => ?_
      · rw [Config.requireString_error hid]
        decide
      · cases h
    | ok moduleId =>
      dsimp only
      cases hregistered : registered moduleId with
      | false =>
        refine iff_of_true (acceptedExactly_refused (hnow 0) ?_) fun moduleId' h h' => ?_
        · exact (by decide : ErrorCode.moduleNotFound ≠ .schemaValidationError)
        · obtain rfl := Except.ok.inj h
          cases hregistered.symm.trans h'
      | true =>
        rw [Bool.not_true, if_neg Bool.false_ne_true, acceptedExactly_withPeriod (hnow 0) fun d e h => ?_]
        · rw [returns_congr fun d hd => exists_map_eq_ok.trans (report_returns floats hnow moduleId _ hd)]
          refine ⟨fun h moduleId' hid' _ => Except.ok.inj hid' ▸ h, fun h => h moduleId rfl hregistered⟩
        · obtain ⟨report, -, heq⟩ := map_eq_ok.mp h
          cases heq

/-- The input of a query. -/
def query (period : String) : Config.Value := .put "period" (.string period) .empty

theorem periodOf_query (period : String) : periodOf (query period) = period := by
  unfold periodOf query
  rw [Config.Value.child_put_self]
  rfl

/-- A collector without a call, at the beginning of 2026. -/
def quiet : Reading Unit := ⟨{}, newYear⟩

/-- A period that reaches out of range aborts a query, and so does one that ends in a character of two
bytes. -/
theorem not_acceptedExactly_quiet : Present quiet.now ∧
    UsageSummaryModule.execute noFloats quiet (query "200000000d") = .error .dateTimeOverflowed ∧
    UsageSummaryModule.execute noFloats quiet (query "24é") = .error .splitInsideChar ∧
    ¬AcceptedExactly (UsageSummaryModule.execute noFloats quiet (query "200000000d"))
      (periodOf (query "200000000d")) quiet.now := by
  have hdays : UsageSummaryModule.execute noFloats quiet (query "200000000d") =
      .error .dateTimeOverflowed := by
    unfold UsageSummaryModule.execute
    rw [periodOf_query]
    dsimp only
    have hparse : parsePeriod "200000000d" = .ok (some (200000000 * 86400 * 1000000000)) := by
      decide +kernel
    rw [withPeriod_some hparse]
    have hsub : sub quiet.now (200000000 * 86400 * 1000000000) = .error .dateTimeOverflowed := by
      decide +kernel
    unfold getSummaryForPeriod
    dsimp only
    rw [hsub]
    rfl
  refine ⟨by decide +kernel, hdays, ?_, fun h => ?_⟩
  · unfold UsageSummaryModule.execute
    rw [periodOf_query]
    exact withPeriod_error (by decide +kernel)
  · obtain ⟨result, hresult⟩ := h.returns
    cases hdays.symm.trans hresult

theorem acceptedExactly_aDay : AcceptedExactly
    (UsageSummaryModule.execute noFloats quiet (query "24h")) (periodOf (query "24h")) quiet.now := by
  refine (usageQueries_exact noFloats (fun _ => true) (fun _ => quiet) (query "24h")
    fun _ => by decide +kernel).1.mpr ?_
  rw [periodOf_query]
  have htext : PeriodText "24h" 24 3600 :=
    ⟨['2', '4'], 'h', by decide, numeral_iff.mpr ⟨rfl, by decide⟩, by decide, by decide⟩
  refine ⟨htext.lastAscii, fun count seconds htext' _ => ?_⟩
  obtain ⟨rfl, rfl⟩ := htext.unique htext'
  exact ⟨by decide, by decide +kernel⟩

end Usage

end Apcore
