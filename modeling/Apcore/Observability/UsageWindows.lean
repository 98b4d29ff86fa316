import Apcore.Lib.Calendar
import Apcore.Lib.Fallible
import Apcore.Observability.Persistence
import Apcore.Schema.Keys

/-! # `Observability.UsageWindows` — usage over a period

`UsageCollector` keeps the records of a module by the hour, under the text of the hour, and answers
for the window that ends now and for the one before it. A subtraction of dates that leaves the range
of `chrono` panics. -/

namespace Apcore

namespace Usage

open Fallible (bind_eq_ok)

variable {Float64 : Type}

/-! ## Instants -/

/-- `DateTime<Utc>`: nanoseconds since the first of January 1970. -/
abbrev Instant := Int

/-- `chrono::Duration`, in nanoseconds. -/
abbrev Duration := Int

def nanosPerHour : Int := 3600 * 1000000000

/-- The first of January 1970, as a day. -/
def epochDay : Int := Calendar.daysBeforeYear 1970

/-- The hour of an instant, counted from the first of January of the year 1. -/
def hourOf (at' : Instant) : Int := at' / nanosPerHour + 24 * epochDay

/-- The first instant of a year. -/
def yearStart (year : Int) : Instant := (Calendar.daysBeforeYear year - epochDay) * 24 * nanosPerHour

def yearOf (at' : Instant) : Int := Calendar.yearOf (hourOf at' / 24)

/-- What a `chrono` operation ends in where it does not return. -/
inductive Panic where
  /-- `Duration::hours` and `Duration::days`, out of bounds. -/
  | durationOutOfBounds
  /-- `DateTime - TimeDelta`, out of range. -/
  | dateTimeOverflowed
  /-- `str::split_at`, inside a character. -/
  | splitInsideChar
  deriving DecidableEq, Repr

/-- `now - delta`: the dates of `chrono` are those of the years -262143 to 262142. -/
def sub (now : Instant) (delta : Duration) : Except Panic Instant :=
  if yearStart (-262143) ≤ now - delta ∧ now - delta < yearStart 262143 then .ok (now - delta)
  else .error .dateTimeOverflowed

/-- `%Y`: four digits, and a sign where they are not enough. -/
def yearText (year : Int) : List Char :=
  if 0 ≤ year ∧ year ≤ 9999 then Calendar.padded 4 year.toNat
  else (if year < 0 then '-' else '+') :: Calendar.padded 4 year.natAbs

/-- The text of an hour: `%Y-%m-%dT%H`. -/
def hourText (hour : Int) : List Char :=
  let date := Calendar.dateOf (hour / 24)
  yearText date.year ++ '-' :: (Calendar.padded 2 date.month.toNat ++ '-' ::
    (Calendar.padded 2 date.day.toNat ++ 'T' :: Calendar.padded 2 (hour % 24).toNat))

/-- `bucket_key`. -/
def bucketKey (at' : Instant) : String := String.ofList (hourText (hourOf at'))

/-! ## The collector -/

abbrev UsageRecord (Float64 : Type) := Persistence.UsageRecord Instant Float64

/-- `MAX_RECORDS_PER_BUCKET`. -/
def maxRecordsPerBucket : Nat := 10000

/-- `MAX_BUCKETS_PER_MODULE`. -/
def maxBucketsPerModule : Nat := 168

/-- `ModuleData`, in the order its map is walked in. -/
structure ModuleData (Float64 : Type) where
  records : List (String × List (UsageRecord Float64)) := []

/-- `evict_old_buckets`. -/
def ModuleData.evictOldBuckets (data : ModuleData Float64) : ModuleData Float64 :=
  let keys := sortedKeys data.records
  let removed := keys.take (keys.length - maxBucketsPerModule)
  ⟨data.records.filter (·.1 ∉ removed)⟩

/-- What `record_at` does with the records of the hour. -/
def pushBounded (bucket : List (UsageRecord Float64)) (record : UsageRecord Float64) :
    List (UsageRecord Float64) :=
  let bucket := bucket ++ [record]
  bucket.drop (bucket.length - maxRecordsPerBucket)

/-- What `record_at` does with the data of the module. -/
def ModuleData.push (data : ModuleData Float64) (record : UsageRecord Float64) : ModuleData Float64 :=
  ModuleData.evictOldBuckets
    ⟨Fields.upsert (bucketKey record.timestamp) (fun bucket => pushBounded (bucket.getD []) record)
      data.records⟩

/-- All the records, in the order of the map. -/
def ModuleData.retained (data : ModuleData Float64) : List (UsageRecord Float64) :=
  data.records.flatMap (·.2)

/-- `UsageCollector`, in the order its map is walked in. -/
structure UsageCollector (Float64 : Type) where
  data : List (String × ModuleData Float64) := []

/-- `record_at`, in memory. -/
def UsageCollector.recordAt (collector : UsageCollector Float64) (moduleId : String)
    (callerId : Option String) (latencyMs : Float64) (success : Bool) (at' : Instant) :
    UsageCollector Float64 :=
  ⟨Fields.upsert moduleId (fun data => (data.getD {}).push ⟨at', callerId, latencyMs, success⟩)
    collector.data⟩

/-- `reset`. -/
def UsageCollector.reset (_ : UsageCollector Float64) : UsageCollector Float64 := {}

/-! ## Reports -/

/-- What is used of `f64`: the mean, `estimate_p99_from_sorted` of the sorted latencies, and the
comparisons of a ratio with 1.2 and 0.8. -/
structure Floats (Float64 : Type) where
  mean : List Float64 → Float64
  p99 : List Float64 → Float64
  zero : Float64
  ratioAbove : Nat → Nat → Bool
  ratioBelow : Nat → Nat → Bool

structure UsageStats (Float64 : Type) where
  moduleId : String
  callCount : Nat
  errorCount : Nat
  avgLatencyMs : Float64
  uniqueCallers : Nat
  trend : String

structure CallerStats (Float64 : Type) where
  callerId : String
  callCount : Nat
  errorCount : Nat
  avgLatencyMs : Float64

structure HourlyBucket where
  hour : String
  callCount : Nat
  errorCount : Nat

variable (floats : Floats Float64)

/-- `aggregate_records`. -/
def aggregateRecords (moduleId : String) (records : List (UsageRecord Float64)) (trend : String) :
    UsageStats Float64 where
  moduleId := moduleId
  callCount := records.length
  errorCount := records.countP (!·.success)
  avgLatencyMs := if records.isEmpty then floats.zero else floats.mean (records.map (·.latencyMs))
  uniqueCallers := (records.filterMap (·.callerId)).dedup.length
  trend := trend

/-- `collect_records_in_window`. -/
def collectRecordsInWindow (data : ModuleData Float64) (start finish : Instant) :
    List (UsageRecord Float64) :=
  data.records.flatMap fun (key, records) =>
    if key < bucketKey start ∨ bucketKey finish < key then []
    else records.filter fun r => start ≤ r.timestamp ∧ r.timestamp ≤ finish

/-- `compute_trend`. -/
def computeTrend (current previous : Nat) : String :=
  if current = 0 ∧ previous = 0 then "stable"
  else if current = 0 then "inactive"
  else if previous = 0 then "new"
  else if floats.ratioAbove current previous then "rising"
  else if floats.ratioBelow current previous then "declining"
  else "stable"

/-- The summary of a module over a period that ends now, given where it begins and where the one
before it does. -/
def summaryIn (moduleId : String) (data : ModuleData Float64) (prevCutoff cutoff now : Instant) :
    UsageStats Float64 :=
  let current := collectRecordsInWindow data cutoff now
  let previous := collectRecordsInWindow data prevCutoff cutoff
  aggregateRecords floats moduleId current (computeTrend floats current.length previous.length)

/-- `get_summary_for_period`. -/
def getSummaryForPeriod (collector : UsageCollector Float64) (period : Option Duration)
    (now : Instant) : Except Panic (List (UsageStats Float64)) :=
  match period with
  | none => .ok (collector.data.map fun (id, data) => aggregateRecords floats id data.retained "stable")
  | some delta => do
    let cutoff ← sub now delta
    let prevCutoff ← sub cutoff delta
    pure (collector.data.map fun (id, data) => summaryIn floats id data prevCutoff cutoff now)

/-- `get_module_summary_for_period`. -/
def getModuleSummaryForPeriod (collector : UsageCollector Float64) (moduleId : String)
    (period : Option Duration) (now : Instant) : Except Panic (Option (UsageStats Float64)) :=
  match Fields.get? collector.data moduleId with
  | none => .ok none
  | some data =>
    match period with
    | none => .ok (some (aggregateRecords floats moduleId data.retained "stable"))
    | some delta => do
      let cutoff ← sub now delta
      let prevCutoff ← sub cutoff delta
      pure (some (summaryIn floats moduleId data prevCutoff cutoff now))

/-- The records of a module over a period that ends now. -/
def recordsForPeriod (data : ModuleData Float64) (period : Option Duration) (now : Instant) :
    Except Panic (List (UsageRecord Float64)) :=
  match period with
  | none => .ok data.retained
  | some delta => (sub now delta).map fun cutoff => collectRecordsInWindow data cutoff now

/-- The name a record is counted under. -/
def callerOf (r : UsageRecord Float64) : String := r.callerId.getD "unknown"

/-- The calls, the errors and the latencies of each caller. -/
def tally (records : List (UsageRecord Float64)) : List (String × Nat × Nat × List Float64) :=
  records.foldl (fun callers r => Fields.upsert (callerOf r) (fun entry =>
    let (calls, errors, latencies) := entry.getD (0, 0, [])
    (calls + 1, errors + (if r.success then 0 else 1), latencies ++ [r.latencyMs])) callers) []

/-- `get_caller_breakdown_for_period`. -/
def getCallerBreakdownForPeriod (collector : UsageCollector Float64) (moduleId : String)
    (period : Option Duration) (now : Instant) : Except Panic (List (CallerStats Float64)) :=
  match Fields.get? collector.data moduleId with
  | none => .ok []
  | some data => (recordsForPeriod data period now).map fun records =>
    ((tally records).map fun (callerId, calls, errors, latencies) =>
      (⟨callerId, calls, errors, if calls = 0 then floats.zero else floats.mean latencies⟩ :
        CallerStats Float64)).mergeSort fun a b =>
          b.callCount < a.callCount || (a.callCount == b.callCount && a.callerId ≤ b.callerId)

/-- `get_hourly_distribution_for_period`. -/
def getHourlyDistributionForPeriod (collector : UsageCollector Float64) (moduleId : String)
    (period : Option Duration) (now : Instant) : Except Panic (List HourlyBucket) :=
  match Fields.get? collector.data moduleId with
  | none => .ok []
  | some data => do
    let cutoff ← match period with
      | none => pure none
      | some delta => (sub now delta).map some
    let inWindow (r : UsageRecord Float64) : Bool :=
      match cutoff with
      | none => true
      | some c => c ≤ r.timestamp ∧ r.timestamp ≤ now
    pure ((data.records.map fun (hour, records) =>
      (⟨hour, (records.filter inWindow).length,
        ((records.filter inWindow).filter (!·.success)).length⟩ : HourlyBucket)).mergeSort
          fun a b => a.hour ≤ b.hour)

/-- `get_p99_latency_ms_for_period`. -/
def getP99LatencyMsForPeriod (collector : UsageCollector Float64) (moduleId : String)
    (period : Option Duration) (now : Instant) : Except Panic Float64 :=
  match Fields.get? collector.data moduleId with
  | none => .ok floats.zero
  | some data => (recordsForPeriod data period now).map fun records =>
    if records.isEmpty then floats.zero else floats.p99 (records.map (·.latencyMs))

/-! ## Hours and their texts -/

theorem hourOf_mono {first second : Instant} (h : first ≤ second) : hourOf first ≤ hourOf second := by
  have hdiv := Int.ediv_le_ediv (show (0 : Int) < nanosPerHour by decide) h
  unfold hourOf
  omega

theorem yearOf_mono {first second : Instant} (h : first ≤ second) : yearOf first ≤ yearOf second :=
  Calendar.yearOf_mono (Int.ediv_le_ediv (by decide) (hourOf_mono h))

theorem padded_lt {width a b : Nat} (hwidth : 0 < width) (h : a < b) (hb : b < 10 ^ width)
    (rest rest' : List Char) : Calendar.padded width a ++ rest < Calendar.padded width b ++ rest' := by
  rw [Calendar.padded_eq hwidth (h.trans hb), Calendar.padded_eq hwidth hb]
  exact Calendar.lastDigits_lt h hb rest rest'

/-- A later hour has a later text, where four digits are enough for its year. -/
theorem hourText_lt {hour hour' : Int} (h : hour < hour') (hyear : 0 ≤ Calendar.yearOf (hour / 24))
    (hyear' : Calendar.yearOf (hour' / 24) ≤ 9999) : hourText hour < hourText hour' := by
  have hmono : Calendar.yearOf (hour / 24) ≤ Calendar.yearOf (hour' / 24) :=
    Calendar.yearOf_mono (Int.ediv_le_ediv (by decide) h.le)
  have htext : yearText (Calendar.dateOf (hour / 24)).year =
      Calendar.padded 4 (Calendar.dateOf (hour / 24)).year.toNat := if_pos ⟨hyear, hmono.trans hyear'⟩
  have htext' : yearText (Calendar.dateOf (hour' / 24)).year =
      Calendar.padded 4 (Calendar.dateOf (hour' / 24)).year.toNat := if_pos ⟨hyear.trans hmono, hyear'⟩
  obtain ⟨hmonth, hday⟩ := Calendar.dateOf_bounds (hour / 24)
  obtain ⟨hmonth', hday'⟩ := Calendar.dateOf_bounds (hour' / 24)
  change 0 ≤ (Calendar.dateOf (hour / 24)).year at hyear
  change (Calendar.dateOf (hour' / 24)).year ≤ 9999 at hyear'
  unfold hourText
  dsimp only
  rw [htext, htext']
  rcases lt_or_eq_of_le (Int.ediv_le_ediv (show (0 : Int) < 24 by decide) h.le) with hlt | heq
  · rcases Calendar.dateOf_before hlt with hbefore | ⟨hsame, hbefore | ⟨hsame', hbefore⟩⟩
    · exact padded_lt (by decide) (by omega) (by omega) _ _
    · rw [hsame]
      exact List.append_left_lt (List.cons_lt_cons_self.mpr
        (padded_lt (by decide) (by omega) (by omega) _ _))
    · rw [hsame, hsame']
      exact List.append_left_lt (List.cons_lt_cons_self.mpr (List.append_left_lt
        (List.cons_lt_cons_self.mpr (padded_lt (by decide) (by omega) (by omega) _ _))))
  · rw [heq]
    have hhour := padded_lt (show 0 < 2 by decide) (show (hour % 24).toNat < (hour' % 24).toNat by omega)
      (by omega) [] []
    rw [List.append_nil, List.append_nil] at hhour
    exact List.append_left_lt (List.cons_lt_cons_self.mpr (List.append_left_lt
      (List.cons_lt_cons_self.mpr (List.append_left_lt (List.cons_lt_cons_self.mpr hhour)))))

/-- A year of four digits. -/
def FourDigits (at' : Instant) : Prop := 0 ≤ yearOf at' ∧ yearOf at' ≤ 9999

instance (at' : Instant) : Decidable (FourDigits at') := inferInstanceAs (Decidable (_ ∧ _))

theorem bucketKey_le {first second : Instant} (h : first ≤ second) (hfirst : FourDigits first)
    (hsecond : FourDigits second) : ¬bucketKey second < bucketKey first := by
  unfold bucketKey
  rw [String.lt_iff_toList_lt, String.toList_ofList, String.toList_ofList]
  rcases lt_or_eq_of_le (hourOf_mono h) with hlt | heq
  · exact lt_asymm (hourText_lt hlt hfirst.1 hsecond.2)
  · rw [heq]
    exact lt_irrefl _

theorem zero_le_of_mem_lastDigits {width n : Nat} {c : Char} (h : c ∈ Calendar.lastDigits width n) :
    '0' ≤ c := by
  induction width generalizing n with
  | zero => cases h
  | succ width ih =>
    rw [Calendar.lastDigits] at h
    rcases List.mem_append.mp h with h | h
    · exact ih h
    · obtain rfl := List.mem_singleton.mp h
      have hall : ∀ d < 10, '0' ≤ d.digitChar := by decide
      exact hall _ (Nat.mod_lt n (by decide))

/-- A signed year comes before those of four digits. -/
theorem bucketKey_lt_of_signed {first second : Instant} (hfirst : ¬FourDigits first)
    (hsecond : FourDigits second) : bucketKey first < bucketKey second := by
  obtain ⟨hpos, hle⟩ := hsecond
  have hsigned : yearText (Calendar.dateOf (hourOf first / 24)).year = _ := if_neg hfirst
  have hplain : yearText (Calendar.dateOf (hourOf second / 24)).year = _ := if_pos ⟨hpos, hle⟩
  change 0 ≤ (Calendar.dateOf (hourOf second / 24)).year at hpos
  change (Calendar.dateOf (hourOf second / 24)).year ≤ 9999 at hle
  have hfit : (Calendar.dateOf (hourOf second / 24)).year.toNat < 10 ^ 4 := by omega
  rw [Calendar.padded_eq (by decide) hfit] at hplain
  unfold bucketKey
  rw [String.lt_iff_toList_lt, String.toList_ofList, String.toList_ofList]
  unfold hourText
  dsimp only
  rw [hsigned, hplain]
  cases hdigits : Calendar.lastDigits 4 (Calendar.dateOf (hourOf second / 24)).year.toNat with
  | nil =>
    have hlength := Calendar.length_lastDigits 4 (Calendar.dateOf (hourOf second / 24)).year.toNat
    rw [hdigits] at hlength
    cases hlength
  | cons c rest =>
    have hc : '0' ≤ c := zero_le_of_mem_lastDigits (hdigits ▸ List.mem_cons_self)
    refine List.Lex.rel (lt_of_lt_of_le ?_ hc)
    split_ifs <;> decide

/-! ## The records of an hour -/

/-- Every record is under the text of its hour, and its year has four digits. -/
def Filed (data : ModuleData Float64) : Prop :=
  ∀ bucket ∈ data.records, ∀ r ∈ bucket.2, FourDigits r.timestamp ∧ bucketKey r.timestamp = bucket.1

theorem mem_pushBounded {bucket : List (UsageRecord Float64)} {record r : UsageRecord Float64}
    (h : r ∈ pushBounded bucket record) : r ∈ bucket ∨ r = record :=
  (List.mem_append.mp (List.mem_of_mem_drop h)).imp_right List.mem_singleton.mp

theorem Filed.push {data : ModuleData Float64} (h : Filed data) {record : UsageRecord Float64}
    (hrecord : FourDigits record.timestamp) : Filed (data.push record) := by
  intro bucket hbucket r hr
  rcases Fields.mem_upsert (List.mem_of_mem_filter hbucket) with heq | ⟨old, hold, heq⟩ | hold
  · rw [heq] at hr ⊢
    dsimp only at hr ⊢
    rcases mem_pushBounded hr with hr | rfl
    · exact absurd hr List.not_mem_nil
    · exact ⟨hrecord, rfl⟩
  · rw [heq] at hr ⊢
    dsimp only at hr ⊢
    rcases mem_pushBounded hr with hr | rfl
    · exact h _ hold r hr
    · exact ⟨hrecord, rfl⟩
  · exact h _ hold r hr

/-- Two maps that differ in the order they are walked in. -/
structure SameMaps (collector collector' : UsageCollector Float64) : Prop where
  nodup : (collector'.data.map (·.1)).Nodup
  modules : ∀ id, Option.Rel (fun data data' => data.records.Perm data'.records)
    (Fields.get? collector.data id) (Fields.get? collector'.data id)

/-- What a collector is, after calls with timestamps of four digits. -/
inductive Reached : UsageCollector Float64 → Prop
  | new : Reached {}
  | record {collector : UsageCollector Float64} {moduleId : String} {callerId : Option String}
      {latencyMs : Float64} {success : Bool} {at' : Instant} (h : Reached collector)
      (hat : FourDigits at') : Reached (collector.recordAt moduleId callerId latencyMs success at')
  | reset {collector : UsageCollector Float64} (h : Reached collector) : Reached collector.reset
  | reordered {collector collector' : UsageCollector Float64} (h : Reached collector)
      (hsame : SameMaps collector collector') : Reached collector'

theorem Reached.filed {collector : UsageCollector Float64} (h : Reached collector) {id : String}
    {data : ModuleData Float64} (hdata : Fields.get? collector.data id = some data) : Filed data := by
  induction h generalizing data with
  | new => cases hdata
  | @record collector moduleId callerId latencyMs success at' _ hat ih =>
    unfold UsageCollector.recordAt at hdata
    dsimp only at hdata
    rw [Fields.get?_upsert] at hdata
    split_ifs at hdata with hid
    · obtain rfl := Option.some.inj hdata
      refine Filed.push ?_ hat
      cases hold : Fields.get? collector.data moduleId with
      | none => exact fun bucket hbucket => absurd hbucket List.not_mem_nil
      | some old => exact ih (hid ▸ hold)
    · exact ih hdata
  | reset => cases hdata
  | reordered _ hsame ih =>
    have hrel := hsame.modules id
    rw [hdata] at hrel
    cases hold : Fields.get? _ id with
    | none =>
      rw [hold] at hrel
      cases hrel
    | some old =>
      rw [hold] at hrel
      cases hrel with
      | some hperm => exact fun bucket hbucket => ih hold bucket (hperm.mem_iff.mpr hbucket)

theorem Reached.nodup {collector : UsageCollector Float64} (h : Reached collector) :
    (collector.data.map (·.1)).Nodup := by
  induction h with
  | new => exact List.nodup_nil
  | record _ _ ih => exact Fields.nodup_upsert ih
  | reset _ _ => exact List.nodup_nil
  | reordered _ hsame _ => exact hsame.nodup

/-! ## Windows -/

variable {data : ModuleData Float64} {start finish : Instant}

theorem mem_retained {r : UsageRecord Float64} :
    r ∈ data.retained ↔ ∃ bucket ∈ data.records, r ∈ bucket.2 := List.mem_flatMap

/-- The records of a window. -/
def inWindow (start finish : Instant) (r : UsageRecord Float64) : Bool :=
  start ≤ r.timestamp ∧ r.timestamp ≤ finish

/-- Nothing of a window is lost where its end has a year of four digits, or there is nothing in it. -/
theorem collect_eq_filter (hfiled : Filed data)
    (h : 9999 < yearOf finish → ∀ r ∈ data.retained, inWindow start finish r = false) :
    collectRecordsInWindow data start finish = data.retained.filter (inWindow start finish) := by
  unfold collectRecordsInWindow ModuleData.retained
  rw [List.filter_flatMap]
  refine List.flatMap_congr fun bucket hbucket => ?_
  show (if _ then [] else bucket.2.filter (inWindow start finish)) = _
  split_ifs with hpruned
  · -- a bucket that is passed over has nothing in the window
    refine (List.filter_eq_nil_iff.mpr fun r hr hin => ?_).symm
    obtain ⟨hyear, hkey⟩ := hfiled bucket hbucket r hr
    obtain ⟨hstart, hfinish⟩ := of_decide_eq_true hin
    rw [← hkey] at hpruned
    rcases hpruned with hlt | hlt
    · by_cases hfour : FourDigits start
      · exact bucketKey_le hstart hfour hyear hlt
      · exact lt_asymm hlt (bucketKey_lt_of_signed hfour hyear)
    · by_cases hfour : FourDigits finish
      · exact bucketKey_le hfinish hyear hfour hlt
      · have hmono := yearOf_mono hfinish
        have hlate : 9999 < yearOf finish := by
          by_contra hle
          exact hfour ⟨hyear.1.trans hmono, not_lt.mp hle⟩
        cases (h hlate r (mem_retained.mpr ⟨bucket, hbucket, hr⟩)).symm.trans hin
  · rfl

/-- Behind the year 9999 everything is lost. -/
theorem not_mem_collect (hfiled : Filed data) (hlate : 9999 < yearOf finish) (r : UsageRecord Float64) :
    r ∉ collectRecordsInWindow data start finish := by
  intro hr
  obtain ⟨bucket, hbucket, hr⟩ := List.mem_flatMap.mp hr
  have hbucketKey : ∀ r ∈ bucket.2, bucketKey finish < bucket.1 := by
    intro r hr
    obtain ⟨hyear, hkey⟩ := hfiled bucket hbucket r hr
    rw [← hkey]
    exact bucketKey_lt_of_signed (fun hfour => not_lt.mpr hfour.2 hlate) hyear
  change r ∈ (if bucket.1 < bucketKey start ∨ bucketKey finish < bucket.1 then []
    else bucket.2.filter (inWindow start finish)) at hr
  split_ifs at hr with hpruned
  · cases hr
  · exact hpruned (.inr (hbucketKey r (List.mem_of_mem_filter hr)))

/-! ## Counts -/

theorem sum_tally {w : Nat × Nat × List Float64 → Nat} {d : UsageRecord Float64 → Nat}
    (hnew : ∀ r, w (1, (if r.success then 0 else 1), [r.latencyMs]) = d r)
    (hold : ∀ r calls errors latencies,
      w (calls + 1, errors + (if r.success then 0 else 1), latencies ++ [r.latencyMs]) =
        w (calls, errors, latencies) + d r) (records : List (UsageRecord Float64)) :
    ((tally records).map (w ·.2)).sum = (records.map d).sum := by
  unfold tally
  induction records using List.reverseRecOn with
  | nil => rfl
  | append_singleton records r ih =>
    rw [List.foldl_concat, Fields.sum_upsert (d := d r) ?_ ?_, ih, List.map_append, List.sum_append,
      List.map_singleton, List.sum_singleton]
    · have hzero := hnew r
      rw [← Nat.zero_add (ite _ 0 1)] at hzero
      exact hzero
    · exact fun (calls, errors, latencies) => hold r calls errors latencies

theorem sum_calls_tally (records : List (UsageRecord Float64)) :
    ((tally records).map (·.2.1)).sum = records.length := by
  rw [sum_tally (w := fun entry => entry.1) (d := fun _ => 1) (fun _ => rfl) (fun _ _ _ _ => rfl)]
  rw [List.map_const', List.sum_replicate_nat, Nat.mul_one]

theorem sum_errors_tally (records : List (UsageRecord Float64)) :
    ((tally records).map (·.2.2.1)).sum = records.countP (!·.success) := by
  rw [sum_tally (w := fun entry => entry.2.1) (d := fun r => if r.success then 0 else 1)
    (fun _ => rfl) (fun _ _ _ _ => rfl)]
  induction records with
  | nil => rfl
  | cons r records ih =>
    rw [List.map_cons, List.sum_cons, ih, List.countP_cons, Nat.add_comm]
    cases r.success <;> rfl

theorem sum_hours (p : UsageRecord Float64 → Bool) (data : ModuleData Float64) :
    (data.records.map fun bucket => (bucket.2.filter p).length).sum =
      (data.retained.filter p).length := by
  unfold ModuleData.retained
  rw [List.filter_flatMap, List.length_flatMap]

/-! ## Reports that agree -/

/-- The windows of a summary hold the records of their spans, and none twice. -/
structure WindowsAgree (data : ModuleData Float64) (prevCutoff cutoff now : Instant) : Prop where
  current : collectRecordsInWindow data cutoff now = data.retained.filter (inWindow cutoff now)
  previous : collectRecordsInWindow data prevCutoff cutoff =
    data.retained.filter (inWindow prevCutoff cutoff)
  apart : ∀ r ∈ collectRecordsInWindow data cutoff now,
    r ∉ collectRecordsInWindow data prevCutoff cutoff

/-- A summary counts what the callers and the hours of its module do. -/
structure CountsAgree (stats : UsageStats Float64) (callers : List (CallerStats Float64))
    (hours : List HourlyBucket) : Prop where
  callsOfCallers : (callers.map (·.callCount)).sum = stats.callCount
  errorsOfCallers : (callers.map (·.errorCount)).sum = stats.errorCount
  callsOfHours : (hours.map (·.callCount)).sum = stats.callCount
  errorsOfHours : (hours.map (·.errorCount)).sum = stats.errorCount

/-- The reports on a module, at one instant and for one period. -/
structure ConsistentReports (collector : UsageCollector Float64) (moduleId : String)
    (period : Option Duration) (now : Instant) : Prop where
  windows : ∀ data delta cutoff prevCutoff, Fields.get? collector.data moduleId = some data →
    period = some delta → sub now delta = .ok cutoff → sub cutoff delta = .ok prevCutoff →
    WindowsAgree data prevCutoff cutoff now
  counts : ∀ stats callers hours,
    getModuleSummaryForPeriod floats collector moduleId period now = .ok (some stats) →
    getCallerBreakdownForPeriod floats collector moduleId period now = .ok callers →
    getHourlyDistributionForPeriod collector moduleId period now = .ok hours →
    CountsAgree stats callers hours
  listed : ∀ stats summaries,
    getModuleSummaryForPeriod floats collector moduleId period now = .ok (some stats) →
    getSummaryForPeriod floats collector period now = .ok summaries →
    ∀ s ∈ summaries, s.moduleId = moduleId → s = stats

/-- Nothing lies on the instant that ends one window and begins the other, and nothing in a window
that ends after the year 9999. -/
structure EdgesClear (data : ModuleData Float64) (delta : Duration) (prevCutoff cutoff now : Instant) :
    Prop where
  shared : 0 ≤ delta → ∀ r ∈ data.retained, r.timestamp ≠ cutoff
  current : 9999 < yearOf now → ∀ r ∈ data.retained, inWindow cutoff now r = false
  previous : 9999 < yearOf cutoff → ∀ r ∈ data.retained, inWindow prevCutoff cutoff r = false

theorem eq_sub_of_ok {now result : Instant} {delta : Duration} (h : sub now delta = .ok result) :
    result = now - delta := by
  unfold sub at h
  split_ifs at h with hrange
  exact (Except.ok.inj h).symm

theorem mem_filter_inWindow {r : UsageRecord Float64} :
    r ∈ data.retained.filter (inWindow start finish) ↔
      r ∈ data.retained ∧ start ≤ r.timestamp ∧ r.timestamp ≤ finish := by
  rw [List.mem_filter, inWindow, decide_eq_true_iff]

/-- The windows of a summary agree where the edges are clear, and nowhere else. -/
theorem windowsAgree_iff {delta : Duration} {prevCutoff cutoff now : Instant} (hfiled : Filed data)
    (hcutoff : cutoff = now - delta) (hprev : prevCutoff = cutoff - delta) :
    WindowsAgree data prevCutoff cutoff now ↔ EdgesClear data delta prevCutoff cutoff now := by
  constructor
  · intro h
    constructor
    · intro hdelta r hr heq
      have hcurrent : cutoff ≤ now := hcutoff ▸ Int.sub_le_self now hdelta
      have hprevious : prevCutoff ≤ cutoff := hprev ▸ Int.sub_le_self cutoff hdelta
      refine h.apart r ?_ ?_
      · rw [h.current, mem_filter_inWindow]
        exact ⟨hr, heq.ge, heq.trans_le hcurrent⟩
      · rw [h.previous, mem_filter_inWindow]
        exact ⟨hr, hprevious.trans_eq heq.symm, heq.le⟩
    · intro hlate r hr
      by_contra hin
      have hmem := List.mem_filter.mpr ⟨hr, Bool.of_not_eq_false hin⟩
      rw [← h.current] at hmem
      exact not_mem_collect hfiled hlate r hmem
    · intro hlate r hr
      by_contra hin
      have hmem := List.mem_filter.mpr ⟨hr, Bool.of_not_eq_false hin⟩
      rw [← h.previous] at hmem
      exact not_mem_collect hfiled hlate r hmem
  · intro h
    have hcurrent := collect_eq_filter hfiled h.current
    have hprevious := collect_eq_filter hfiled h.previous
    refine ⟨hcurrent, hprevious, fun r hr hr' => ?_⟩
    rw [hcurrent, mem_filter_inWindow] at hr
    rw [hprevious, mem_filter_inWindow] at hr'
    have hspan : now - delta ≤ now := hcutoff ▸ hr.2.1.trans hr.2.2
    exact h.shared ((sub_le_self_iff now).mp hspan) r hr.1 (le_antisymm hr'.2.2 hr.2.1)

/-- The reports on the records of a window count the same. -/
theorem countsAgree {records : List (UsageRecord Float64)} {p : UsageRecord Float64 → Bool}
    (hrecords : records = data.retained.filter p) (moduleId trend : String)
    (below : CallerStats Float64 → CallerStats Float64 → Bool) (before : HourlyBucket → HourlyBucket → Bool) :
    CountsAgree (aggregateRecords floats moduleId records trend)
      (((tally records).map fun (callerId, calls, errors, latencies) =>
        (⟨callerId, calls, errors, if calls = 0 then floats.zero else floats.mean latencies⟩ :
          CallerStats Float64)).mergeSort below)
      ((data.records.map fun (hour, records) =>
        (⟨hour, (records.filter p).length, ((records.filter p).filter (!·.success)).length⟩ :
          HourlyBucket)).mergeSort before) := by
  constructor
  · rw [((List.mergeSort_perm _ _).map _).sum_nat, List.map_map]
    exact sum_calls_tally records
  · rw [((List.mergeSort_perm _ _).map _).sum_nat, List.map_map]
    exact sum_errors_tally records
  · rw [((List.mergeSort_perm _ _).map _).sum_nat, List.map_map]
    exact (sum_hours p data).trans (congrArg List.length hrecords.symm)
  · rw [((List.mergeSort_perm _ _).map _).sum_nat, List.map_map]
    show _ = records.countP _
    rw [hrecords, List.countP_eq_length_filter, List.filter_filter,
      ← sum_hours (fun r => !r.success && p r) data]
    exact congrArg List.sum (List.map_congr_left fun bucket _ => congrArg List.length List.filter_filter)

theorem getModuleSummary_none {collector : UsageCollector Float64} {moduleId : String}
    (hdata : Fields.get? collector.data moduleId = some data) (now : Instant) :
    getModuleSummaryForPeriod floats collector moduleId none now =
      .ok (some (aggregateRecords floats moduleId data.retained "stable")) := by
  unfold getModuleSummaryForPeriod
  rw [hdata]

/-- A summary for a period is that of its windows, where both begin within range. -/
theorem getModuleSummary_some {collector : UsageCollector Float64} {moduleId : String}
    (hdata : Fields.get? collector.data moduleId = some data) {delta : Duration} {now : Instant}
    {result : Option (UsageStats Float64)}
    (h : getModuleSummaryForPeriod floats collector moduleId (some delta) now = .ok result) :
    ∃ cutoff prevCutoff, sub now delta = .ok cutoff ∧ sub cutoff delta = .ok prevCutoff ∧
      result = some (summaryIn floats moduleId data prevCutoff cutoff now) := by
  unfold getModuleSummaryForPeriod at h
  rw [hdata] at h
  obtain ⟨cutoff, hcutoff, h⟩ := bind_eq_ok.mp h
  obtain ⟨prevCutoff, hprev, h⟩ := bind_eq_ok.mp h
  exact ⟨cutoff, prevCutoff, hcutoff, hprev, (Except.ok.inj h).symm⟩

theorem recordsForPeriod_some {delta : Duration} {now cutoff : Instant}
    (hcutoff : sub now delta = .ok cutoff) :
    recordsForPeriod data (some delta) now = .ok (collectRecordsInWindow data cutoff now) := by
  unfold recordsForPeriod
  dsimp only
  rw [hcutoff]
  rfl

theorem counts_none {collector : UsageCollector Float64} {moduleId : String} {now : Instant}
    {stats : UsageStats Float64} {callers : List (CallerStats Float64)} {hours : List HourlyBucket}
    (hdata : Fields.get? collector.data moduleId = some data)
    (hstats : getModuleSummaryForPeriod floats collector moduleId none now = .ok (some stats))
    (hcallers : getCallerBreakdownForPeriod floats collector moduleId none now = .ok callers)
    (hhours : getHourlyDistributionForPeriod collector moduleId none now = .ok hours) :
    CountsAgree stats callers hours := by
  rw [getModuleSummary_none floats hdata] at hstats
  unfold getCallerBreakdownForPeriod at hcallers
  unfold getHourlyDistributionForPeriod at hhours
  rw [hdata] at hcallers hhours
  rw [← Option.some.inj (Except.ok.inj hstats), ← Except.ok.inj hcallers, ← Except.ok.inj hhours]
  exact countsAgree floats (List.filter_eq_self.mpr fun _ _ => rfl).symm _ _ _ _

theorem counts_some {collector : UsageCollector Float64} {moduleId : String} {now cutoff : Instant}
    {prevCutoff : Instant} {delta : Duration} {callers : List (CallerStats Float64)}
    {hours : List HourlyBucket} (hdata : Fields.get? collector.data moduleId = some data)
    (hcutoff : sub now delta = .ok cutoff) (hwindows : WindowsAgree data prevCutoff cutoff now)
    (hcallers : getCallerBreakdownForPeriod floats collector moduleId (some delta) now = .ok callers)
    (hhours : getHourlyDistributionForPeriod collector moduleId (some delta) now = .ok hours) :
    CountsAgree (summaryIn floats moduleId data prevCutoff cutoff now) callers hours := by
  unfold getCallerBreakdownForPeriod at hcallers
  rw [hdata] at hcallers
  dsimp only at hcallers
  rw [recordsForPeriod_some hcutoff] at hcallers
  unfold getHourlyDistributionForPeriod at hhours
  rw [hdata] at hhours
  dsimp only at hhours
  rw [hcutoff] at hhours
  rw [← Except.ok.inj hcallers, ← Except.ok.inj hhours]
  exact countsAgree floats hwindows.current _ _ _ _

/-- The summaries of all the modules are those of each. -/
theorem listed {collector : UsageCollector Float64} (hnodup : (collector.data.map (·.1)).Nodup)
    {moduleId : String} {period : Option Duration} {now : Instant} {stats : UsageStats Float64}
    {summaries : List (UsageStats Float64)}
    (hstats : getModuleSummaryForPeriod floats collector moduleId period now = .ok (some stats))
    (hsummaries : getSummaryForPeriod floats collector period now = .ok summaries) :
    ∀ s ∈ summaries, s.moduleId = moduleId → s = stats := by
  intro s hs hid
  cases period with
  | none =>
    unfold getSummaryForPeriod at hsummaries
    rw [← Except.ok.inj hsummaries] at hs
    obtain ⟨⟨id, data⟩, hentry, rfl⟩ := List.mem_map.mp hs
    obtain rfl : id = moduleId := hid
    rw [getModuleSummary_none floats (Fields.get?_of_mem hnodup hentry)] at hstats
    exact Option.some.inj (Except.ok.inj hstats)
  | some delta =>
    unfold getSummaryForPeriod at hsummaries
    obtain ⟨cutoff, hcutoff, hsummaries⟩ := bind_eq_ok.mp hsummaries
    obtain ⟨prevCutoff, hprev, hsummaries⟩ := bind_eq_ok.mp hsummaries
    rw [← Except.ok.inj hsummaries] at hs
    obtain ⟨⟨id, data⟩, hentry, rfl⟩ := List.mem_map.mp hs
    obtain rfl : id = moduleId := hid
    obtain ⟨cutoff', prevCutoff', hcutoff', hprev', heq⟩ :=
      getModuleSummary_some floats (Fields.get?_of_mem hnodup hentry) hstats
    obtain rfl := Except.ok.inj (hcutoff.symm.trans hcutoff')
    obtain rfl := Except.ok.inj (hprev.symm.trans hprev')
    exact (Option.some.inj heq).symm

/-- The reports on a module agree where the edges of the windows are clear, and nowhere else. -/
theorem consistentReports_exact {collector : UsageCollector Float64} (h : Reached collector)
    (moduleId : String) (period : Option Duration) (now : Instant) :
    ConsistentReports floats collector moduleId period now ↔
      ∀ data delta cutoff prevCutoff, Fields.get? collector.data moduleId = some data →
        period = some delta → sub now delta = .ok cutoff → sub cutoff delta = .ok prevCutoff →
        EdgesClear data delta prevCutoff cutoff now := by
  constructor
  · intro hreports data delta cutoff prevCutoff hdata hperiod hcutoff hprev
    exact (windowsAgree_iff (h.filed hdata) (eq_sub_of_ok hcutoff) (eq_sub_of_ok hprev)).mp
      (hreports.windows data delta cutoff prevCutoff hdata hperiod hcutoff hprev)
  · intro hedges
    have hwindows : ∀ data delta cutoff prevCutoff, Fields.get? collector.data moduleId = some data →
        period = some delta → sub now delta = .ok cutoff → sub cutoff delta = .ok prevCutoff →
        WindowsAgree data prevCutoff cutoff now := fun data delta cutoff prevCutoff hdata hperiod hcutoff
          hprev => (windowsAgree_iff (h.filed hdata) (eq_sub_of_ok hcutoff) (eq_sub_of_ok hprev)).mpr
            (hedges data delta cutoff prevCutoff hdata hperiod hcutoff hprev)
    refine ⟨hwindows, fun stats callers hours hstats hcallers hhours => ?_,
      fun stats summaries hstats hsummaries => listed floats h.nodup hstats hsummaries⟩
    cases hdata : Fields.get? collector.data moduleId with
    | none =>
      unfold getModuleSummaryForPeriod at hstats
      rw [hdata] at hstats
      cases hstats
    | some data =>
      cases period with
      | none => exact counts_none floats hdata hstats hcallers hhours
      | some delta =>
        obtain ⟨cutoff, prevCutoff, hcutoff, hprev, heq⟩ := getModuleSummary_some floats hdata hstats
        obtain rfl := Option.some.inj heq
        exact counts_some floats hdata hcutoff (hwindows data delta cutoff prevCutoff hdata rfl hcutoff
          hprev) hcallers hhours

/-- Floats that are not looked at. -/
def noFloats : Floats Unit := ⟨fun _ => (), fun _ => (), (), fun _ _ => false, fun _ _ => false⟩

/-- Midnight of the first of January 2026. -/
def newYear : Instant := 1767225600 * 1000000000

/-- One call, some time before midnight. -/
def lastCall (before : Duration) : UsageCollector Unit :=
  UsageCollector.recordAt {} "executor.a" none () true (newYear - before)

theorem reached_lastCall (before : Duration) (h : FourDigits (newYear - before)) :
    Reached (lastCall before) := .record .new h

/-- The first call of a module is kept. -/
theorem retained_push_empty (record : UsageRecord Float64) :
    (ModuleData.push {} record).retained = [record] := by
  have hroom : 1 - maxRecordsPerBucket = 0 := by decide
  have hrooms : 1 - maxBucketsPerModule = 0 := by decide
  have hbucket : pushBounded [] record = [record] := by
    show List.drop (1 - maxRecordsPerBucket) [record] = [record]
    rw [hroom, List.drop_zero]
  unfold ModuleData.push ModuleData.evictOldBuckets Fields.upsert ModuleData.retained
  dsimp only [Option.getD_none]
  generalize bucketKey record.timestamp = key
  have hkeys : sortedKeys [(key, pushBounded [] record)] = [key] := rfl
  rw [hkeys, hbucket, List.length_singleton, hrooms, List.take_zero]
  rfl

theorem retained_lastCall (before : Duration) :
    ∃ data, Fields.get? (lastCall before).data "executor.a" = some data ∧
      data.retained = [⟨newYear - before, none, (), true⟩] := by
  exact ⟨ModuleData.push {} ⟨newYear - before, none, (), true⟩, rfl, retained_push_empty _⟩

/-- A call an hour ago is counted in this hour and in the one before it. -/
theorem not_consistentReports_anHourAgo : Reached (lastCall nanosPerHour) ∧
    ¬ConsistentReports noFloats (lastCall nanosPerHour) "executor.a" (some nanosPerHour) newYear := by
  have hreached := reached_lastCall nanosPerHour (by decide +kernel)
  obtain ⟨data, hdata, hretained⟩ := retained_lastCall nanosPerHour
  refine ⟨hreached, fun h => ?_⟩
  have hcutoff : sub newYear nanosPerHour = .ok (newYear - nanosPerHour) := by decide +kernel
  have hprev : sub (newYear - nanosPerHour) nanosPerHour =
      .ok (newYear - nanosPerHour - nanosPerHour) := by decide +kernel
  have hclear := (windowsAgree_iff (hreached.filed hdata) rfl rfl).mp
    (h.windows data _ _ _ hdata rfl hcutoff hprev)
  exact hclear.shared (by decide) _ (hretained ▸ List.mem_singleton_self _) rfl

theorem consistentReports_halfAnHourAgo : ConsistentReports noFloats (lastCall (nanosPerHour / 2))
    "executor.a" (some nanosPerHour) newYear := by
  refine (consistentReports_exact noFloats (reached_lastCall _ (by decide +kernel)) _ _ _).mpr ?_
  intro data delta cutoff prevCutoff hdata hperiod hcutoff hprev
  obtain ⟨data', hdata', hretained⟩ := retained_lastCall (nanosPerHour / 2)
  obtain rfl := Option.some.inj (hdata.symm.trans hdata')
  obtain rfl := Option.some.inj hperiod
  obtain rfl := eq_sub_of_ok hcutoff
  refine ⟨fun _ r hr => ?_, fun hlate => absurd hlate (by decide +kernel),
    fun hlate => absurd hlate (by decide +kernel)⟩
  rw [hretained] at hr
  rw [List.mem_singleton.mp hr]
  decide

end Usage

end Apcore
