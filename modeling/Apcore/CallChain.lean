import Apcore.Context
import Apcore.Utils
import Apcore.Lib.Lists

/-! # `CallChain` — what the guard lets a chain of nested calls grow to

A call enters the chain by `Context::child` and is then checked by `guard_call_chain`. The chains
that arise are exactly those the three limits allow. -/

namespace Apcore

/-- The three limits on a chain: its length, the calls of one module, and no return to a module
that has called another one since. -/
structure WithinLimits (maxDepth maxRepeat : Nat) (chain : List String) : Prop where
  depth : chain.length ≤ maxDepth
  repeats : ∀ moduleId, chain.count moduleId ≤ maxRepeat
  contiguous : ∀ moduleId, chain.Contiguous moduleId

/-- The contexts of nested calls: an empty chain, or the child of such a context that the guard
let through. -/
inductive Nested (maxDepth maxRepeat : Nat) : Context → Prop where
  | root {ctx : Context} (hempty : ctx.callChain = []) : Nested maxDepth maxRepeat ctx
  | call {ctx : Context} {moduleId : String} (hctx : Nested maxDepth maxRepeat ctx)
      (hguard : guardCallChain moduleId (ctx.child moduleId).callChain maxDepth maxRepeat = .ok ()) :
      Nested maxDepth maxRepeat (ctx.child moduleId)

/-- The cycle check passes when the module is new to the chain or stands at its end. -/
theorem afterLast_isEmpty {name : String} {names : List String} :
    (afterLast name names).any (!·.isEmpty) = false ↔
      name ∉ names ∨ names.getLast? = some name := by
  unfold afterLast
  split
  · next hmem =>
    -- the slice after the last occurrence is empty when that occurrence is the last entry
    rcases List.eq_nil_or_concat names with rfl | ⟨front, last, rfl⟩
    · exact absurd hmem List.not_mem_nil
    · by_cases hlast : last = name
      · simp [hlast]
      · have hfront : name ∈ front := by simpa [Ne.symm hlast] using hmem
        simp [hlast, hfront]
  · next hmem => simp [hmem]

/-- `guard_call_chain` on the chain of a fresh child, decided by its three tests. -/
theorem guardCallChain_child {moduleId : String} {chain : List String} {maxDepth maxRepeat : Nat} :
    guardCallChain moduleId (chain ++ [moduleId]) maxDepth maxRepeat = .ok () ↔
      chain.length < maxDepth ∧ (moduleId ∉ chain ∨ chain.getLast? = some moduleId) ∧
        chain.count moduleId < maxRepeat := by
  have hcount : (chain ++ [moduleId]).count moduleId = chain.count moduleId + 1 := by simp
  have hlen : (chain ++ [moduleId]).length = chain.length + 1 := by simp
  rw [← afterLast_isEmpty]
  unfold guardCallChain
  simp only [hcount, hlen, List.dropLast_concat]
  split_ifs with hdepth hrepeat hlong hcycle hoften
  · constructor
    · intro h; cases h
    · intro h; omega
  · constructor
    · intro h; cases h
    · intro h; omega
  · constructor
    · intro h; cases h
    · intro h; omega
  · constructor
    · intro h; cases h
    · intro h; rw [hcycle] at h; cases h.2.1
  · constructor
    · intro h; cases h
    · intro h; omega
  · constructor
    · intro _
      refine ⟨by omega, ?_, by omega⟩
      exact Bool.eq_false_iff.mpr hcycle
    · intro _; rfl

/-- One more module keeps a chain within the limits exactly when the guard's tests pass. -/
theorem WithinLimits.append_iff {maxDepth maxRepeat : Nat} {chain : List String}
    (h : WithinLimits maxDepth maxRepeat chain) (moduleId : String) :
    WithinLimits maxDepth maxRepeat (chain ++ [moduleId]) ↔
      chain.length < maxDepth ∧ (moduleId ∉ chain ∨ chain.getLast? = some moduleId) ∧
        chain.count moduleId < maxRepeat := by
  constructor
  · intro hnew
    have hdepth := hnew.depth
    have hrepeats := hnew.repeats moduleId
    simp only [List.length_append, List.length_singleton] at hdepth
    simp only [List.count_append, List.count_singleton_self] at hrepeats
    refine ⟨hdepth, ?_, hrepeats⟩
    exact (List.contiguous_append_self.mp (hnew.contiguous moduleId)).imp_right (·.2)
  · rintro ⟨hdepth, hblock, hrepeat⟩
    refine ⟨by simp; omega, fun other => ?_, fun other => ?_⟩
    · by_cases hother : moduleId = other
      · subst hother; simp; omega
      · simpa [List.count_singleton, hother] using h.repeats other
    · by_cases hother : moduleId = other
      · subst hother
        exact List.contiguous_append_self.mpr (hblock.imp_right fun hlast => ⟨h.contiguous _, hlast⟩)
      · exact (h.contiguous other).append_ne hother

/-- Nested calls stay within the limits. By induction on the calls, the last one by the guard. -/
theorem Nested.withinLimits {maxDepth maxRepeat : Nat} {ctx : Context}
    (h : Nested maxDepth maxRepeat ctx) : WithinLimits maxDepth maxRepeat ctx.callChain := by
  induction h with
  | root hempty =>
    rw [hempty]
    refine ⟨Nat.zero_le _, fun _ => Nat.zero_le _, fun _ => ?_⟩
    exact List.contiguous_of_notMem List.not_mem_nil
  | call hctx hguard ih =>
    rw [Context.child_callChain] at hguard ⊢
    exact (ih.append_iff _).mpr (guardCallChain_child.mp hguard)

/-- The call-chain guard is exact: nested calls stay within the three limits, and the guard accepts
a further call exactly when the chain with it does. -/
theorem guardCallChain_exact {maxDepth maxRepeat : Nat} {ctx : Context}
    (h : Nested maxDepth maxRepeat ctx) :
    WithinLimits maxDepth maxRepeat ctx.callChain ∧
      ∀ moduleId, guardCallChain moduleId (ctx.child moduleId).callChain maxDepth maxRepeat = .ok () ↔
        WithinLimits maxDepth maxRepeat (ctx.child moduleId).callChain := by
  refine ⟨h.withinLimits, fun moduleId => ?_⟩
  rw [Context.child_callChain, h.withinLimits.append_iff]
  exact guardCallChain_child

/-- A module that has just called itself may do so once more, and then no more, when three calls
are the limit. -/
theorem guardCallChain_exact_self_call :
    WithinLimits 32 3 ["a", "a"] ∧
      (guardCallChain "a" ["a", "a", "a"] 32 3 = .ok () ↔ WithinLimits 32 3 ["a", "a", "a"]) ∧
      (guardCallChain "b" ["a", "a", "b"] 32 3 = .ok () ↔ WithinLimits 32 3 ["a", "a", "b"]) := by
  have hroot : Nested 32 3 (Context.anonymous "trace" 0) := .root rfl
  have hcall : Nested 32 3 ((Context.anonymous "trace" 0).child "a") := .call hroot rfl
  have hself : Nested 32 3 (((Context.anonymous "trace" 0).child "a").child "a") := .call hcall rfl
  have hexact := guardCallChain_exact hself
  exact ⟨hexact.1, hexact.2 "a", hexact.2 "b"⟩

end Apcore
