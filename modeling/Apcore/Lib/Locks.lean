import Mathlib.Data.List.Basic
import Mathlib.Logic.Function.Basic
import Mathlib.Logic.Relation

/-! # `Locks` — threads that take and give back locks

A thread is a program counter, and its next act is to take a lock (and then to do what it does
under it) or to give one back. What a thread holds is a function of its program counter. -/

namespace Locks

variable {Lock Shared Pc : Type}

/-- The next act of a thread. -/
inductive Act (Lock Shared Pc : Type) where
  /-- Take the lock, leave the shared state so, and go on. -/
  | acquire (lock : Lock) (shared : Shared) (next : Pc)
  | release (lock : Lock) (next : Pc)

/-- The lock an act waits for. -/
def Act.awaited : Act Lock Shared Pc → Option Lock
  | .acquire lock _ _ => some lock
  | .release _ _ => none

/-- The threads, by number, and who has each lock. -/
structure State (Lock Shared Pc : Type) where
  shared : Shared
  owner : Lock → Option Nat
  pc : Nat → Pc

/-! ## Who holds what -/

/-- The acts of a program follow what `holds` says of its counters: locks are nested, the last one
taken is the first one given back. -/
structure Nested (holds : Pc → List Lock)
    (next : Nat → Shared → Pc → Option (Act Lock Shared Pc)) : Prop where
  acquire : ∀ {t sh pc lock sh' pc'}, next t sh pc = some (.acquire lock sh' pc') →
    holds pc' = lock :: holds pc
  release : ∀ {t sh pc lock pc'}, next t sh pc = some (.release lock pc') →
    holds pc = lock :: holds pc'

/-- The owners of the locks are the threads whose counters say so. -/
structure Owned (holds : Pc → List Lock) (s : State Lock Shared Pc) : Prop where
  owner : ∀ t lock, s.owner lock = some t ↔ lock ∈ holds (s.pc t)
  nodup : ∀ t, (holds (s.pc t)).Nodup

variable {holds : Pc → List Lock} {next : Nat → Shared → Pc → Option (Act Lock Shared Pc)}
  {s s' : State Lock Shared Pc}

/-- Two threads never hold one lock. -/
theorem Owned.exclusive (h : Owned holds s) {t u : Nat} {lock : Lock} (ht : lock ∈ holds (s.pc t))
    (hu : lock ∈ holds (s.pc u)) : t = u := by
  have hown := (h.owner t lock).mpr ht
  rw [(h.owner u lock).mpr hu] at hown
  exact (Option.some.inj hown).symm

/-- A lock without an owner is held by nobody. -/
theorem Owned.free (h : Owned holds s) {lock : Lock} (hfree : s.owner lock = none) (t : Nat) :
    lock ∉ holds (s.pc t) := by
  intro hmem
  rw [(h.owner t lock).mpr hmem] at hfree
  cases hfree

/-! ## Acting -/

/-- A thread acts. A lock that is taken makes it wait: the act is refused. -/
def State.perform [DecidableEq Lock] (s : State Lock Shared Pc) (t : Nat) :
    Act Lock Shared Pc → Option (State Lock Shared Pc)
  | .acquire lock shared next =>
    if s.owner lock = none then
      some
        { shared := shared
          owner := Function.update s.owner lock (some t)
          pc := Function.update s.pc t next }
    else none
  | .release lock next =>
    some
      { s with
        owner := Function.update s.owner lock none
        pc := Function.update s.pc t next }

/-- Every act of a nested program keeps the owners right. -/
theorem Owned.perform [DecidableEq Lock] (hnested : Nested holds next) (h : Owned holds s) {t : Nat}
    {act : Act Lock Shared Pc} (hnext : next t s.shared (s.pc t) = some act)
    (hstep : s.perform t act = some s') : Owned holds s' := by
  cases act with
  | acquire lock sh' pc' =>
    rw [State.perform] at hstep
    split_ifs at hstep with hfree
    obtain rfl := Option.some.inj hstep
    have hholds := hnested.acquire hnext
    constructor
    · intro u l
      by_cases hu : u = t
      · subst hu
        by_cases hl : l = lock
        · subst hl
          simp [hholds]
        · simp [hholds, hl, h.owner u l]
      · by_cases hl : l = lock
        · subst hl
          simp [Function.update_of_ne hu, h.free hfree u, Ne.symm hu]
        · simp [Function.update_of_ne hu, hl, h.owner u l]
    · intro u
      by_cases hu : u = t
      · subst hu
        simp [hholds, h.nodup u, h.free hfree u]
      · simp [Function.update_of_ne hu, h.nodup u]
  | release lock pc' =>
    obtain rfl := Option.some.inj hstep
    have hholds := hnested.release hnext
    have hnodup := h.nodup t
    rw [hholds, List.nodup_cons] at hnodup
    constructor
    · intro u l
      by_cases hu : u = t
      · subst hu
        by_cases hl : l = lock
        · subst hl
          simp [hnodup.1]
        · simp [hl, h.owner u l, hholds]
      · by_cases hl : l = lock
        · subst hl
          have hnot : l ∉ holds (s.pc u) := by
            intro hmem
            exact hu (h.exclusive hmem (by rw [hholds]; exact List.mem_cons_self))
          simp [Function.update_of_ne hu, hnot]
        · simp [Function.update_of_ne hu, hl, h.owner u l]
    · intro u
      by_cases hu : u = t
      · subst hu
        simp [hnodup.2]
      · simp [Function.update_of_ne hu, h.nodup u]

/-! ## Waiting -/

/-- Thread `t` waits for a lock that thread `u` has. -/
def WaitsFor (next : Nat → Shared → Pc → Option (Act Lock Shared Pc)) (s : State Lock Shared Pc)
    (t u : Nat) : Prop :=
  ∃ lock, (next t s.shared (s.pc t)).bind Act.awaited = some lock ∧ s.owner lock = some u

/-- A cycle of threads, each waiting for a lock the next one has. -/
def Deadlocked (next : Nat → Shared → Pc → Option (Act Lock Shared Pc))
    (s : State Lock Shared Pc) : Prop := ∃ t, Relation.TransGen (WaitsFor next s) t t

end Locks

namespace Relation

variable {α : Type} {r : α → α → Prop}

/-- A path whose start has a predecessor and whose end has a successor runs through links that have
both. -/
theorem TransGen.inner {a b : α} (h : TransGen r a b) (ha : ∃ x, r x a) (hb : ∃ y, r b y) :
    TransGen (fun x y => r x y ∧ (∃ w, r w x) ∧ ∃ z, r y z) a b := by
  induction h with
  | single hab => exact .single ⟨hab, ha, hb⟩
  | tail hab hbc ih =>
    refine .tail (ih ⟨_, hbc⟩) ⟨hbc, ?_, hb⟩
    cases hab with
    | single h => exact ⟨_, h⟩
    | tail _ h => exact ⟨_, h⟩

/-- There is no cycle when a measure falls along every link that has a link before and after it. -/
theorem not_transGen_self_of_measure {f : α → Nat}
    (hf : ∀ w x y z, r w x → r x y → r y z → f y < f x) (a : α) : ¬TransGen r a a := by
  intro h
  have hpred : ∃ x, r x a := by
    cases h with
    | single h => exact ⟨_, h⟩
    | tail _ h => exact ⟨_, h⟩
  have hsucc : ∃ y, r a y := by
    rcases TransGen.head'_iff.mp h with ⟨y, hay, -⟩
    exact ⟨y, hay⟩
  have hfall : ∀ b, TransGen (fun x y => r x y ∧ (∃ w, r w x) ∧ ∃ z, r y z) a b → f b < f a := by
    intro b hb
    induction hb with
    | single hlink =>
      obtain ⟨hxy, ⟨w, hw⟩, z, hz⟩ := hlink
      exact hf w _ _ z hw hxy hz
    | tail _ hlink ih =>
      obtain ⟨hxy, ⟨w, hw⟩, z, hz⟩ := hlink
      exact Nat.lt_trans (hf w _ _ z hw hxy hz) ih
  exact Nat.lt_irrefl _ (hfall a (h.inner hpred hsucc))

end Relation
