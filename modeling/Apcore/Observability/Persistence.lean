import Apcore.Lib.PendingWrites
import Apcore.Lib.Transition
import Apcore.Observability.HistoryRuns

/-! # `Observability.Persistence` — what the collectors save

Every record of an error, of a use or of a metric spawns a task that saves it to the storage backend.
An error is saved under its fingerprint, a use and a metric under a name and the nanoseconds of a
timestamp. The tasks run in any order, and `save` replaces what it finds. What the collectors of uses
and of metrics keep in memory is not read for it. -/

namespace Apcore

namespace Persistence

open Transition

variable {Time Float64 : Type}

structure UsageRecord (Time Float64 : Type) where
  timestamp : Time
  callerId : Option String
  latencyMs : Float64
  success : Bool

structure MetricPoint (Time Float64 : Type) where
  name : String
  value : Float64
  moduleId : Option String
  labels : List (String × String)
  timestamp : Time

/-- What is saved, as a value of its type. -/
inductive Saved (Time Float64 : Type) where
  | error (entry : ErrorEntry Time)
  | usage (use : UsageRecord Time Float64)
  | metric (metric : MetricPoint Time Float64)

/-- `entry_to_notify`: the entry as the record leaves it, before any eviction. -/
def entryToNotify (history : ErrorHistory) (state : ErrorHistoryState Time) (moduleId : String)
    (error : ModuleError) (time : Time) : ErrorEntry Time :=
  let fp := history.fingerprint moduleId error
  match state.fpIndex.lookup fp with
  | some existing =>
    { existing with count := existing.count + 1, lastOccurred := time, timestamp := time }
  | none =>
    { moduleId
      errorCode := error.code.wireStr
      message := error.message
      aiGuidance := error.aiGuidance
      timestamp := time
      count := 1
      firstOccurred := time
      lastOccurred := time
      fingerprint := fp }

/-- The error history, and the storage backend with the tasks that are to save to it, by namespace
and key. -/
structure State (Time Float64 : Type) where
  history : ErrorHistoryState Time
  storage : PendingWrites (String × String) (Saved Time Float64)

def init : State Time Float64 where
  history := .empty
  storage := .empty

/-- What the calls are made with: the limits of the history, and `timestamp_nanos_opt`. -/
structure Env (Time : Type) where
  history : ErrorHistory
  timestampNanosOpt : Time → Option Int

/-- `format!("{name}:{}", time.timestamp_nanos_opt().unwrap_or(0))`. -/
def stampedKey (env : Env Time) (name : String) (time : Time) : String :=
  name ++ ":" ++ toString ((env.timestampNanosOpt time).getD 0)

/-- The point of `notify_store`. -/
def metricPoint (name : String) (labels : List (String × String)) (value : Float64) (time : Time) :
    MetricPoint Time Float64 where
  name := name
  value := value
  moduleId := Fields.get? labels "module_id"
  labels := labels
  timestamp := time

/-- The calls, each of which is made inside a runtime or outside one, where nothing is spawned; and
the tasks, by their place among those that are to run. -/
inductive Label (Time Float64 : Type) where
  | recordError (runtime : Bool) (moduleId : String) (error : ModuleError) (time : Time)
  | recordUsage (runtime : Bool) (moduleId : String) (callerId : Option String)
      (latencyMs : Float64) (success : Bool) (time : Time)
  | increment (runtime : Bool) (name : String) (labels : List (String × String)) (amount : Float64)
      (time : Time)
  | observe (runtime : Bool) (name : String) (labels : List (String × String)) (value : Float64)
      (time : Time)
  | save (task : Nat)

/-- `notify_store`. -/
def notifyStore (env : Env Time) (s : State Time Float64) (runtime : Bool) (name : String)
    (labels : List (String × String)) (value : Float64) (time : Time) : State Time Float64 :=
  { s with
    storage := s.storage.submit runtime ("metrics", stampedKey env name time)
      (.metric (metricPoint name labels value time)) }

variable [LinearOrder Time]

def step (env : Env Time) (s : State Time Float64) : Label Time Float64 → Option (State Time Float64)
  | .recordError runtime moduleId error time =>
    let entry := entryToNotify env.history s.history moduleId error time
    some
      { history := env.history.record s.history moduleId error time
        storage := s.storage.submit runtime ("error_history", entry.fingerprint) (.error entry) }
  | .recordUsage runtime moduleId callerId latencyMs success time =>
    some { s with
      storage := s.storage.submit runtime ("usage", stampedKey env moduleId time)
        (.usage { timestamp := time, callerId, latencyMs, success }) }
  | .increment runtime name labels amount time =>
    some (notifyStore env s runtime name labels amount time)
  | .observe runtime name labels value time =>
    some (notifyStore env s runtime name labels value time)
  | .save task => (s.storage.finish task).map fun storage => { s with storage }

/-- The keys of a namespace that were saved to, one for each call. -/
def State.keys (s : State Time Float64) (space : String) : List String :=
  (s.storage.log.filter (·.1.1 = space)).map (·.1.2)

/-- One entry in the namespace for each call. -/
structure OneEntryEach (s : State Time Float64) (space : String) : Prop where
  keys : (s.keys space).Nodup
  entries : ∀ key value, s.storage.table (space, key) = some value ↔
    ((space, key), value) ∈ s.storage.log

/-- The backend has the entry of the latest record of each fingerprint, and one entry for each use
and for each metric. -/
structure Faithful (env : Env Time) (s : State Time Float64) : Prop where
  /-- A record is saved under its own fingerprint. -/
  keyed : ∀ moduleId error time,
    (entryToNotify env.history s.history moduleId error time).fingerprint =
      env.history.fingerprint moduleId error
  errors : ∀ fp, s.storage.table ("error_history", fp) = s.storage.latest ("error_history", fp)
  usage : OneEntryEach s "usage"
  metrics : OneEntryEach s "metrics"

/-- A call outside a runtime; a use or a metric whose key an earlier one has; and a task that saves
an error when no other task has its fingerprint, and not the entry of the latest record of it. -/
def Lost (env : Env Time) (s : State Time Float64) : Label Time Float64 → Prop
  | .recordError runtime _ _ _ => runtime = false
  | .recordUsage runtime moduleId _ _ _ time =>
    runtime = false ∨ stampedKey env moduleId time ∈ s.keys "usage"
  | .increment runtime name _ _ time => runtime = false ∨ stampedKey env name time ∈ s.keys "metrics"
  | .observe runtime name _ _ time => runtime = false ∨ stampedKey env name time ∈ s.keys "metrics"
  | .save task => ∃ fp entry, s.storage.pending[task]? = some (("error_history", fp), entry) ∧
    PendingWrites.Idle (s.storage.pending.eraseIdx task) ("error_history", fp) ∧
    s.storage.latest ("error_history", fp) ≠ some entry

/-! ## The error history -/

section History

variable {env : Env Time} {state : ErrorHistoryState Time} {moduleId : String} {error : ModuleError}
  {time : Time}

/-- Every entry is at its own fingerprint. -/
def Keyed (state : ErrorHistoryState Time) : Prop :=
  ∀ fp entry, state.fpIndex.lookup fp = some entry → entry.fingerprint = fp

/-- What is saved of a record is what the history has of it, if it has it still; the other entries
were there before. -/
theorem lookup_record {history : ErrorHistory} (hinv : state.Inv) (hwithin : history.Within state)
    {fp : String} {entry : ErrorEntry Time}
    (h : (history.record state moduleId error time).fpIndex.lookup fp = some entry) :
    fp = history.fingerprint moduleId error ∧
        entry = entryToNotify history state moduleId error time ∨
      state.fpIndex.lookup fp = some entry := by
  cases hlookup : state.fpIndex.lookup (history.fingerprint moduleId error) with
  | some existing =>
    rw [ErrorHistory.record_of_some hlookup, ErrorHistoryState.merge] at h
    by_cases hfp : fp = history.fingerprint moduleId error
    · subst hfp
      rw [Finmap.lookup_insert] at h
      refine .inl ⟨rfl, ?_⟩
      rw [entryToNotify, hlookup]
      exact (Option.some.inj h).symm
    · rw [Finmap.lookup_insert_of_ne _ hfp] at h
      exact .inr h
  | none =>
    rw [ErrorHistory.record_of_none hlookup] at h
    obtain ⟨hinv', hshrinks, -⟩ := ErrorHistory.evictPerModule_spec hinv hwithin hlookup
    obtain ⟨-, hshrinks', -⟩ := ErrorHistoryState.evictTotal_spec history.maxTotalEntries hinv'
    have hnew := (hshrinks.trans hshrinks').lookup fp entry h
    rw [ErrorHistoryState.insertNew] at hnew
    by_cases hfp : fp = history.fingerprint moduleId error
    · subst hfp
      rw [Finmap.lookup_insert] at hnew
      refine .inl ⟨rfl, ?_⟩
      rw [entryToNotify, hlookup]
      exact (Option.some.inj hnew).symm
    · rw [Finmap.lookup_insert_of_ne _ hfp] at hnew
      exact .inr hnew

omit [LinearOrder Time] in
theorem Keyed.entryToNotify {history : ErrorHistory} (h : Keyed state) (moduleId : String)
    (error : ModuleError) (time : Time) :
    (entryToNotify history state moduleId error time).fingerprint =
      history.fingerprint moduleId error := by
  unfold Persistence.entryToNotify
  dsimp only
  split
  · next existing hexisting => exact h _ existing hexisting
  · rfl

theorem Keyed.record {history : ErrorHistory} (h : Keyed state) (hinv : state.Inv)
    (hwithin : history.Within state) : Keyed (history.record state moduleId error time) := by
  intro fp entry hentry
  rcases lookup_record hinv hwithin hentry with ⟨rfl, rfl⟩ | hold
  · exact h.entryToNotify moduleId error time
  · exact h fp entry hold

end History

/-! ## Runs -/

variable {env : Env Time} {s s' : State Time Float64}

omit [LinearOrder Time] in
theorem keys_submit (space space' key : String) (spawned : Bool) (value : Saved Time Float64) :
    State.keys { s with storage := s.storage.submit spawned (space, key) value } space' =
      if space = space' then s.keys space' ++ [key] else s.keys space' := by
  unfold State.keys PendingWrites.submit
  by_cases h : space = space' <;> simp [List.filter_append, h]

/-- The history is in order; the keys are settled where no task is to run; every task is one of a
call; and uses and metrics have keys of their own. -/
structure Inv (env : Env Time) (s : State Time Float64) : Prop where
  history : s.history.Inv
  within : env.history.Within s.history
  keyed : Keyed s.history
  settled : s.storage.Settled
  recorded : s.storage.Recorded
  once : ∀ space, space ≠ "error_history" → (s.keys space).Nodup

theorem Inv.init : Inv env (init : State Time Float64) where
  history := ErrorHistoryState.Inv.empty
  within := ErrorHistory.within_empty
  keyed := fun _ _ h => by cases h
  settled := PendingWrites.settled_empty
  recorded := fun _ h => by cases h
  once := fun _ _ => List.nodup_nil

/-- A use or a metric is recorded under a key that is new. -/
theorem Inv.submit (h : Inv env s) {space key : String} {value : Saved Time Float64}
    (hnew : key ∉ s.keys space) :
    Inv env { s with storage := s.storage.submit true (space, key) value } where
  history := h.history
  within := h.within
  keyed := h.keyed
  settled := h.settled.submit _ value
  recorded := h.recorded.submit true _ value
  once := by
    intro other hother
    rw [keys_submit]
    split
    · next hspace =>
      rw [hspace] at hnew
      exact List.nodup_append.mpr ⟨h.once other hother, List.nodup_singleton _,
        fun a ha b hb heq => hnew (List.mem_singleton.mp hb ▸ heq ▸ ha)⟩
    · exact h.once other hother

/-- A key of uses or of metrics was recorded with one value. -/
theorem Inv.value_eq (h : Inv env s) {space key : String} (hspace : space ≠ "error_history")
    (v v' : Saved Time Float64) (hv : ((space, key), v) ∈ s.storage.log)
    (hv' : ((space, key), v') ∈ s.storage.log) : v = v' := by
  have hmem : ∀ {v}, ((space, key), v) ∈ s.storage.log →
      ((space, key), v) ∈ s.storage.log.filter (·.1.1 = space) := fun hv =>
    List.mem_filter.mpr ⟨hv, decide_eq_true rfl⟩
  have heq := List.inj_on_of_nodup_map (h.once space hspace) (hmem hv) (hmem hv') rfl
  exact congrArg Prod.snd heq

/-- A task that is not lost is in order. -/
theorem Inv.inOrder (h : Inv env s) {task : Nat} (hkept : ¬ Lost env s (.save task)) :
    s.storage.InOrder task := by
  rintro ⟨⟨space, key⟩, value⟩ hentry hidle
  by_cases hspace : space = "error_history"
  · subst hspace
    by_contra hlatest
    exact hkept ⟨key, value, hentry, hidle, hlatest⟩
  · exact h.recorded.latest_eq (h.value_eq hspace) (List.mem_of_getElem? hentry)

theorem Inv.step (h : Inv env s) {l : Label Time Float64} (hkept : ¬ Lost env s l)
    (hstep : Persistence.step env s l = some s') : Inv env s' := by
  cases l with
  | recordError runtime moduleId error time =>
    obtain rfl : runtime = true := Bool.eq_true_of_not_eq_false hkept
    obtain rfl := Option.some.inj hstep
    obtain ⟨hinv, hwithin, -⟩ := ErrorHistory.record_spec h.history h.within
    refine
      { history := hinv
        within := hwithin
        keyed := h.keyed.record h.history h.within
        settled := h.settled.submit _ _
        recorded := h.recorded.submit true _ _
        once := fun space hspace => ?_ }
    show (State.keys { s with storage := s.storage.submit true ("error_history", _) _ } space).Nodup
    rw [keys_submit, if_neg (Ne.symm hspace)]
    exact h.once space hspace
  | recordUsage runtime moduleId callerId latencyMs success time =>
    obtain ⟨hruntime, hnew⟩ := not_or.mp hkept
    obtain rfl := Bool.eq_true_of_not_eq_false hruntime
    obtain rfl := Option.some.inj hstep
    exact h.submit hnew
  | increment runtime name labels amount time =>
    obtain ⟨hruntime, hnew⟩ := not_or.mp hkept
    obtain rfl := Bool.eq_true_of_not_eq_false hruntime
    obtain rfl := Option.some.inj hstep
    exact h.submit hnew
  | observe runtime name labels value time =>
    obtain ⟨hruntime, hnew⟩ := not_or.mp hkept
    obtain rfl := Bool.eq_true_of_not_eq_false hruntime
    obtain rfl := Option.some.inj hstep
    exact h.submit hnew
  | save task =>
    obtain ⟨storage, hfinish, rfl⟩ := Option.map_eq_some_iff.mp hstep
    exact
      { history := h.history
        within := h.within
        keyed := h.keyed
        settled := h.settled.finish (h.inOrder hkept) hfinish
        recorded := h.recorded.finish hfinish
        once := fun space hspace => by
          rw [State.keys, PendingWrites.log_finish hfinish]
          exact h.once space hspace }

end Persistence

end Apcore
