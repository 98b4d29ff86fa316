import Mathlib.Data.List.Basic
import Mathlib.Data.List.Nodup
import Mathlib.Logic.Function.Basic
import Mathlib.Logic.Relation

/-! # `RwLocks` — threads that take and give back readers-writer locks

A thread is a program counter, and its next act is to take a lock, to read or to write, or to give
one back. A mutex is a lock that is only taken to write. What a thread holds is a function of its
program counter. -/

namespace RwLocks

variable {Lock Shared Pc : Type}

inductive Mode where
  | read | write
  deriving DecidableEq, Repr

/-- The next act of a thread, and the shared state it leaves. -/
inductive Act (Lock Shared Pc : Type) where
  | acquire (mode : Mode) (lock : Lock) (shared : Shared) (next : Pc)
  | release (mode : Mode) (lock : Lock) (shared : Shared) (next : Pc)

/-- The lock an act waits for. -/
def Act.awaited : Act Lock Shared Pc → Option Lock
  | .acquire _ lock _ _ => some lock
  | .release _ _ _ _ => none

/-- The shared state an act leaves. -/
def Act.shared : Act Lock Shared Pc → Shared
  | .acquire _ _ shared _ => shared
  | .release _ _ shared _ => shared

/-- The counter an act leads to. -/
def Act.target : Act Lock Shared Pc → Pc
  | .acquire _ _ _ next => next
  | .release _ _ _ next => next

/-- The threads, by number, and who has each lock. -/
structure State (Lock Shared Pc : Type) where
  shared : Shared
  holders : Lock → List (Nat × Mode)
  pc : Nat → Pc

/-- The lock can be taken: to write by one thread alone, to read beside other readers. -/
def State.grants (s : State Lock Shared Pc) (lock : Lock) : Mode → Bool
  | .read => (s.holders lock).all (·.2 == .read)
  | .write => (s.holders lock).isEmpty

/-- A thread acts. A lock it cannot take makes it wait: the act is refused. -/
def State.perform [DecidableEq Lock] (s : State Lock Shared Pc) (t : Nat) :
    Act Lock Shared Pc → Option (State Lock Shared Pc)
  | .acquire mode lock shared next =>
    if s.grants lock mode then
      some
        { shared := shared
          holders := Function.update s.holders lock ((t, mode) :: s.holders lock)
          pc := Function.update s.pc t next }
    else none
  | .release mode lock shared next =>
    some
      { shared := shared
        holders := Function.update s.holders lock ((s.holders lock).erase (t, mode))
        pc := Function.update s.pc t next }

/-! ## Who holds what -/

/-- The acts of a program follow what `holds` says of its counters. -/
structure Nested (holds : Pc → List (Mode × Lock))
    (next : Nat → Shared → Pc → Option (Act Lock Shared Pc)) : Prop where
  acquire : ∀ {t sh pc mode lock sh' pc'}, next t sh pc = some (.acquire mode lock sh' pc') →
    holds pc' = (mode, lock) :: holds pc ∧ ∀ m, (m, lock) ∉ holds pc
  release : ∀ {t sh pc mode lock sh' pc'}, next t sh pc = some (.release mode lock sh' pc') →
    holds pc = (mode, lock) :: holds pc'

/-- The holders of the locks are the threads whose counters say so, and who writes is alone. -/
structure Owned (holds : Pc → List (Mode × Lock)) (s : State Lock Shared Pc) : Prop where
  holder : ∀ t lock mode, (t, mode) ∈ s.holders lock ↔ (mode, lock) ∈ holds (s.pc t)
  alone : ∀ t lock, (t, .write) ∈ s.holders lock → s.holders lock = [(t, .write)]
  nodup : ∀ lock, (s.holders lock).Nodup
  once : ∀ t, (holds (s.pc t)).Nodup

variable {holds : Pc → List (Mode × Lock)} {next : Nat → Shared → Pc → Option (Act Lock Shared Pc)}
  {s s' : State Lock Shared Pc}

/-- Who has a lock to write has it alone. -/
theorem Owned.exclusive (h : Owned holds s) {t u : Nat} {lock : Lock} {mode : Mode}
    (ht : (.write, lock) ∈ holds (s.pc t)) (hu : (mode, lock) ∈ holds (s.pc u)) :
    t = u ∧ mode = .write := by
  have hmem := (h.holder u lock mode).mpr hu
  rw [h.alone t lock ((h.holder t lock .write).mpr ht)] at hmem
  have heq := List.mem_singleton.mp hmem
  exact ⟨(congrArg Prod.fst heq).symm, congrArg Prod.snd heq⟩

/-- A lock that can be taken to write is held by nobody. -/
theorem Owned.free (h : Owned holds s) {lock : Lock} (hfree : s.grants lock .write = true)
    (t : Nat) (mode : Mode) : (mode, lock) ∉ holds (s.pc t) := by
  intro hmem
  have hnil : s.holders lock = [] := List.isEmpty_iff.mp hfree
  have hholder := (h.holder t lock mode).mpr hmem
  rw [hnil] at hholder
  cases hholder

/-- Every act of a nested program keeps the holders right. -/
theorem Owned.perform [DecidableEq Lock] (hnested : Nested holds next) (h : Owned holds s) {t : Nat}
    {act : Act Lock Shared Pc} (hnext : next t s.shared (s.pc t) = some act)
    (hstep : s.perform t act = some s') : Owned holds s' := by
  cases act with
  | acquire mode lock sh' pc' =>
    rw [State.perform] at hstep
    split_ifs at hstep with hgrants
    obtain rfl := Option.some.inj hstep
    obtain ⟨hholds, hnew⟩ := hnested.acquire hnext
    have hnot : ∀ m, (t, m) ∉ s.holders lock := fun m hmem => hnew m ((h.holder t lock m).mp hmem)
    constructor
    · intro u l m
      by_cases hu : u = t
      · subst hu
        by_cases hl : l = lock
        · subst hl
          simp [hholds, h.holder u l m]
        · simp [hholds, hl, h.holder u l m]
      · by_cases hl : l = lock
        · subst hl
          simp [hu, h.holder u l m]
        · simp [Function.update_of_ne hu, hl, h.holder u l m]
    · intro u l hmem
      by_cases hl : l = lock
      · subst hl
        simp only [Function.update_self] at hmem ⊢
        cases mode with
        | read =>
          -- the writer would have been there before
          have hold : (u, Mode.write) ∈ s.holders l := by simpa using hmem
          have hread := List.all_eq_true.mp hgrants _ hold
          simp at hread
        | write =>
          have hnil : s.holders l = [] := List.isEmpty_iff.mp hgrants
          rw [hnil] at hmem ⊢
          rw [List.mem_singleton.mp hmem]
      · simp only [Function.update_of_ne hl] at hmem ⊢
        exact h.alone u l hmem
    · intro l
      by_cases hl : l = lock
      · subst hl
        simp [hnot mode, h.nodup l]
      · simp [Function.update_of_ne hl, h.nodup l]
    · intro u
      by_cases hu : u = t
      · subst hu
        simp [hholds, hnew mode, h.once u]
      · simp [Function.update_of_ne hu, h.once u]
  | release mode lock sh' pc' =>
    obtain rfl := Option.some.inj hstep
    have hholds := hnested.release hnext
    have honce := h.once t
    rw [hholds, List.nodup_cons] at honce
    constructor
    · intro u l m
      by_cases hl : l = lock
      · subst hl
        simp only [Function.update_self, (h.nodup l).mem_erase_iff, h.holder u l m]
        by_cases hu : u = t
        · subst hu
          simp only [Function.update_self, hholds, List.mem_cons, Prod.mk.injEq, ne_eq, true_and,
            and_true]
          constructor
          · rintro ⟨hm, hm' | hmem⟩
            · exact absurd hm' hm
            · exact hmem
          · intro hmem
            refine ⟨?_, .inr hmem⟩
            rintro rfl
            exact honce.1 hmem
        · simp [hu]
      · by_cases hu : u = t
        · subst hu
          simp [hl, h.holder u l m, hholds]
        · simp [Function.update_of_ne hu, hl, h.holder u l m]
    · intro u l hmem
      by_cases hl : l = lock
      · subst hl
        simp only [Function.update_self] at hmem ⊢
        have halone := h.alone u l (List.mem_of_mem_erase hmem)
        rw [halone] at hmem ⊢
        by_cases heq : (u, Mode.write) = (t, mode)
        · rw [heq, List.erase_cons_head] at hmem
          cases hmem
        · rw [List.erase_cons_tail (by simpa using heq)]
          rfl
      · simp only [Function.update_of_ne hl] at hmem ⊢
        exact h.alone u l hmem
    · intro l
      by_cases hl : l = lock
      · subst hl
        simp [(h.nodup l).erase (t, mode)]
      · simp [Function.update_of_ne hl, h.nodup l]
    · intro u
      by_cases hu : u = t
      · subst hu
        simp [honce.2]
      · simp [Function.update_of_ne hu, h.once u]

theorem perform_eq [DecidableEq Lock] {t : Nat} {act : Act Lock Shared Pc}
    (h : s.perform t act = some s') :
    s'.shared = act.shared ∧ s'.pc = Function.update s.pc t act.target := by
  cases act with
  | acquire mode lock sh' pc' =>
    rw [State.perform] at h
    split_ifs at h
    obtain rfl := Option.some.inj h
    exact ⟨rfl, rfl⟩
  | release mode lock sh' pc' =>
    obtain rfl := Option.some.inj h
    exact ⟨rfl, rfl⟩

/-! ## Waiting -/

/-- Thread `t` waits for a lock that thread `u` has, in whatever mode: behind a writer that waits
the readers of a lock keep other readers waiting too. -/
def WaitsFor (next : Nat → Shared → Pc → Option (Act Lock Shared Pc)) (s : State Lock Shared Pc)
    (t u : Nat) : Prop :=
  ∃ lock mode, (next t s.shared (s.pc t)).bind Act.awaited = some lock ∧ (u, mode) ∈ s.holders lock

/-- A cycle of threads, each waiting for a lock the next one has. -/
def Deadlocked (next : Nat → Shared → Pc → Option (Act Lock Shared Pc))
    (s : State Lock Shared Pc) : Prop := ∃ t, Relation.TransGen (WaitsFor next s) t t

/-- A cycle comes through three links in a row. -/
theorem Deadlocked.path (h : Deadlocked next s) :
    ∃ t u v w, WaitsFor next s t u ∧ WaitsFor next s u v ∧ WaitsFor next s v w := by
  have hnext : ∀ {a b}, Relation.TransGen (WaitsFor next s) a b → ∃ c, WaitsFor next s a c ∧
      Relation.ReflTransGen (WaitsFor next s) c b := by
    intro a b hab
    exact Relation.TransGen.head'_iff.mp hab
  obtain ⟨t, hcycle⟩ := h
  obtain ⟨u, htu, hut⟩ := hnext hcycle
  obtain ⟨v, huv, hvu⟩ := hnext (Relation.TransGen.tail' hut htu)
  obtain ⟨w, hvw, -⟩ := hnext (Relation.TransGen.tail' hvu huv)
  exact ⟨t, u, v, w, htu, huv, hvw⟩

end RwLocks
