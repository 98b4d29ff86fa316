import Mathlib.Data.List.Basic
import Mathlib.Logic.Function.Basic

/-! # `PendingWrites` — a table whose writes are finished in any order

A write is submitted with its key and its value, and finished some time later. A key that has no
write pending is settled: the table has the value that was submitted for it last. A write that is
finished keeps that law as long as it is not the last of its key to be finished without being the
last that was submitted. -/

/-- The table, the writes that are pending, and all that were submitted, in that order. -/
structure PendingWrites (K V : Type) where
  table : K → Option V
  pending : List (K × V)
  log : List (K × V)

namespace PendingWrites

variable {K V : Type} [DecidableEq K] {w w' : PendingWrites K V} {key other : K} {value : V}

def empty : PendingWrites K V where
  table := fun _ => none
  pending := []
  log := []

/-- The value that was submitted last for a key. -/
def latest (w : PendingWrites K V) (key : K) : Option V :=
  (w.log.reverse.find? (·.1 = key)).map (·.2)

/-- A write that is submitted, and is or is not going to be finished. -/
def submit (w : PendingWrites K V) (spawned : Bool) (key : K) (value : V) : PendingWrites K V where
  table := w.table
  pending := if spawned then w.pending ++ [(key, value)] else w.pending
  log := w.log ++ [(key, value)]

/-- The `i`-th of the pending writes is finished. -/
def finish (w : PendingWrites K V) (i : Nat) : Option (PendingWrites K V) :=
  match w.pending[i]? with
  | some entry =>
    some
      { table := Function.update w.table entry.1 (some entry.2)
        pending := w.pending.eraseIdx i
        log := w.log }
  | none => none

/-- No write of the key is pending. -/
def Idle (pending : List (K × V)) (key : K) : Prop := ∀ entry ∈ pending, entry.1 ≠ key

/-- Where no write is pending, the table has what was submitted last. -/
def Settled (w : PendingWrites K V) : Prop := ∀ key, Idle w.pending key → w.table key = w.latest key

/-- The `i`-th of the pending writes is, if no other one of its key is pending, the last that was
submitted. -/
def InOrder (w : PendingWrites K V) (i : Nat) : Prop :=
  ∀ entry, w.pending[i]? = some entry → Idle (w.pending.eraseIdx i) entry.1 →
    w.latest entry.1 = some entry.2

theorem latest_submit_ne {spawned : Bool} (h : key ≠ other) :
    (w.submit spawned key value).latest other = w.latest other := by
  simp [latest, submit, h]

theorem mem_of_latest (h : w.latest key = some value) : (key, value) ∈ w.log := by
  obtain ⟨entry, hentry, rfl⟩ := Option.map_eq_some_iff.mp h
  have hkey : entry.1 = key := by simpa using List.find?_some hentry
  have hmem := List.mem_reverse.mp (List.mem_of_find?_eq_some hentry)
  rwa [← hkey]

/-- Of a key that was submitted with one value only, that is the latest. -/
theorem latest_eq_some_iff (hone : ∀ v v', (key, v) ∈ w.log → (key, v') ∈ w.log → v = v') :
    w.latest key = some value ↔ (key, value) ∈ w.log := by
  refine ⟨mem_of_latest, fun hmem => ?_⟩
  cases hlatest : w.latest key with
  | some v => rw [hone v value (mem_of_latest hlatest) hmem]
  | none =>
    have hnone := List.find?_eq_none.mp (Option.map_eq_none_iff.mp hlatest)
    have hkey := hnone (key, value) (List.mem_reverse.mpr hmem)
    simp at hkey

theorem settled_empty : (empty : PendingWrites K V).Settled := fun _ _ => rfl

/-- A write that is going to be finished leaves no more to be settled. -/
theorem Settled.submit (h : w.Settled) (key : K) (value : V) : (w.submit true key value).Settled := by
  intro other hidle
  have hne : key ≠ other := hidle (key, value) (List.mem_append_right _ List.mem_cons_self)
  have hold : Idle w.pending other := fun entry hentry =>
    hidle entry (List.mem_append_left _ hentry)
  rw [latest_submit_ne hne]
  exact h other hold

theorem Settled.finish {i : Nat} (h : w.Settled) (horder : w.InOrder i) (hfinish : w.finish i = some w') :
    w'.Settled := by
  unfold PendingWrites.finish at hfinish
  split at hfinish
  · next entry hentry =>
    obtain rfl := Option.some.inj hfinish
    intro key hidle
    by_cases hkey : entry.1 = key
    · subst hkey
      show Function.update w.table entry.1 (some entry.2) entry.1 = w.latest entry.1
      rw [Function.update_self, horder entry hentry hidle]
    · show Function.update w.table entry.1 (some entry.2) key = w.latest key
      rw [Function.update_of_ne (Ne.symm hkey)]
      refine h key fun other hother => ?_
      -- the write that was finished is of another key
      obtain ⟨j, hj⟩ := List.mem_iff_getElem?.mp hother
      by_cases hji : j = i
      · rw [hji, hentry] at hj
        exact Option.some.inj hj ▸ hkey
      · exact hidle other (List.mem_eraseIdx_iff_getElem?.mpr ⟨j, hji, hj⟩)
  · cases hfinish

/-- Every pending write was submitted. -/
def Recorded (w : PendingWrites K V) : Prop := ∀ entry ∈ w.pending, entry ∈ w.log

omit [DecidableEq K] in
theorem Recorded.submit (h : w.Recorded) (spawned : Bool) (key : K) (value : V) :
    (w.submit spawned key value).Recorded := by
  intro entry hentry
  cases spawned with
  | false => exact List.mem_append_left _ (h entry hentry)
  | true =>
    rcases List.mem_append.mp hentry with hold | hnew
    · exact List.mem_append_left _ (h entry hold)
    · exact List.mem_append_right _ hnew

theorem Recorded.finish {i : Nat} (h : w.Recorded) (hfinish : w.finish i = some w') :
    w'.Recorded := by
  unfold PendingWrites.finish at hfinish
  split at hfinish
  · obtain rfl := Option.some.inj hfinish
    exact fun entry hentry => h entry (List.mem_of_mem_eraseIdx hentry)
  · cases hfinish

theorem log_finish {i : Nat} (hfinish : w.finish i = some w') : w'.log = w.log := by
  unfold PendingWrites.finish at hfinish
  split at hfinish
  · obtain rfl := Option.some.inj hfinish
    rfl
  · cases hfinish

/-- The writes of a key that was submitted with one value only are in order. -/
theorem Recorded.latest_eq (h : w.Recorded)
    (hone : ∀ v v', (key, v) ∈ w.log → (key, v') ∈ w.log → v = v')
    (hpending : (key, value) ∈ w.pending) : w.latest key = some value :=
  (latest_eq_some_iff hone).mpr (h _ hpending)

end PendingWrites
