import Apcore.Middleware.Edits

/-! # `Middleware.Alignment` — three vectors and a map for one list of registrations

The manager stays aligned for as long as removals take out their identities in the order in which
they began, with no insertion in between, and no removal forgets an identity that an insertion has
just noted. -/

namespace Apcore

namespace ManagerLocks

/-! ## Runs -/

/-- The act a thread takes, by what it does to the state. -/
theorem step_acquire {s s' : State} {t : Nat} {lock : Lock} {sh : Shared} {pc : Pc}
    (h : s.perform t (.acquire lock sh pc) = some s') :
    s.owner lock = none ∧ s'.shared = sh ∧ s'.pc = Function.update s.pc t pc := by
  rw [Locks.State.perform] at h
  split_ifs at h with hfree
  obtain rfl := Option.some.inj h
  exact ⟨hfree, rfl, rfl⟩

/-- **Every step in order keeps the invariant.** The cases are the counters a thread may be at. -/
theorem Inv.step {s s' : State} {l : Label} (h : Inv s) (horder : inOrder s l = true)
    (hstep : ManagerLocks.step s l = some s') : Inv s' := by
  have howned := owned_step h.owned hstep
  cases l with
  | call t c =>
    obtain ⟨hidle, rfl⟩ := step_call hstep
    exact h.frame howned rfl (sameView_update (hidle ▸ sameView_begin c))
  | go t =>
    obtain ⟨act, hnext, hperform⟩ := step_go hstep
    have hview : ∀ {lock pc}, act = .acquire lock s.shared pc → SameView pc (s.pc t) → Inv s' := by
      rintro lock pc rfl hsame
      obtain ⟨-, hshared, hpcs⟩ := step_acquire hperform
      refine h.frame howned hshared fun u => ?_
      rw [hpcs]
      exact sameView_update hsame u
    have hrelease : ∀ {lock pc}, act = .release lock pc → SameView pc (s.pc t) → Inv s' := by
      rintro lock pc rfl hsame
      obtain rfl := Option.some.inj hperform
      exact h.frame howned rfl (sameView_update hsame)
    rw [inOrder] at horder
    cases hpc : s.pc t with
    | idle =>
      rw [hpc] at hnext
      cases hnext
    | noting middleware r =>
      rw [hpc] at hnext
      cases hnext
      obtain ⟨-, hshared, hpcs⟩ := step_acquire hperform
      exact h.noteIdentity howned hpc hshared hpcs
    | noted middleware identity =>
      rw [hpc] at hnext hrelease
      exact hrelease (Option.some.inj hnext).symm ⟨rfl, rfl, rfl, rfl, rfl⟩
    | inserting middleware identity =>
      rw [hpc] at hnext hview
      exact hview (Option.some.inj hnext).symm ⟨rfl, rfl, rfl, rfl, rfl⟩
    | insertHasMiddlewares middleware identity =>
      rw [hpc] at hnext hview
      exact hview (Option.some.inj hnext).symm ⟨rfl, rfl, rfl, rfl, rfl⟩
    | insertHasHandles middleware identity =>
      rw [hpc] at hnext horder
      cases hnext
      obtain ⟨hfree, hshared, hpcs⟩ := step_acquire hperform
      exact h.insertEntry howned hpc hshared hpcs (List.isEmpty_iff.mp horder) hfree
    | removing name =>
      rw [hpc] at hnext hview
      simp only [next] at hnext
      split at hnext
      · exact hview (Option.some.inj hnext).symm ⟨rfl, rfl, rfl, rfl, rfl⟩
      · next i hfind =>
        cases hnext
        obtain ⟨hfree, hshared, hpcs⟩ := step_acquire hperform
        exact h.cutMiddleware howned hpc hfind hshared hpcs hfree
    | removedMiddleware i =>
      rw [hpc] at hnext
      simp only [next] at hnext
      split_ifs at hnext with hi
      · cases hnext
        obtain ⟨hfree, hshared, hpcs⟩ := step_acquire hperform
        exact h.dropHandle howned hpc hshared hpcs hfree
      · -- the handles are whole, so the index is within them
        cases hnext
        obtain ⟨hfree, -, -⟩ := step_acquire hperform
        have hhandles := h.vectors.handles.uncut
          (h.handles_whole (t := t) (by rw [hpc]; rfl) (.inl hfree))
        obtain ⟨hlt, -⟩ := h.vectors.chain.cutAt t i (by rw [hpc]; rfl)
        rw [hhandles, List.length_map] at hi
        rw [List.length_map] at hlt
        exact absurd hlt hi
    | removedHandle i =>
      rw [hpc] at hnext hrelease
      exact hrelease (Option.some.inj hnext).symm ⟨rfl, rfl, rfl, rfl, rfl⟩
    | removingHandle handle =>
      rw [hpc] at hnext hview
      simp only [next] at hnext
      split at hnext
      · exact hview (Option.some.inj hnext).symm ⟨rfl, rfl, rfl, rfl, rfl⟩
      · next i hfind =>
        cases hnext
        obtain ⟨hfree, hshared, hpcs⟩ := step_acquire hperform
        exact h.cutHandle howned hpc hfind hshared hpcs hfree
    | handleRemoved i =>
      rw [hpc] at hnext
      simp only [next] at hnext
      split_ifs at hnext with hi
      · cases hnext
        obtain ⟨hfree, hshared, hpcs⟩ := step_acquire hperform
        exact h.dropMiddleware howned hpc hshared hpcs hfree
      · cases hnext
        obtain ⟨hfree, -, -⟩ := step_acquire hperform
        have hchain := h.vectors.chain.uncut
          (h.chain_whole (t := t) (by rw [hpc]; rfl) (.inl hfree))
        obtain ⟨hlt, -⟩ := h.vectors.handles.cutAt t i (by rw [hpc]; rfl)
        rw [hchain, List.length_map] at hi
        rw [List.length_map] at hlt
        exact absurd hlt hi
    | chainRemoved i =>
      rw [hpc] at hnext hrelease
      exact hrelease (Option.some.inj hnext).symm ⟨rfl, rfl, rfl, rfl, rfl⟩
    | dropping i =>
      rw [hpc] at hnext hrelease
      exact hrelease (Option.some.inj hnext).symm ⟨rfl, rfl, rfl, rfl, rfl⟩
    | forgetting inRemove i =>
      rw [hpc] at hnext horder
      have hhead : s.shared.pending.head?.map Prod.fst = some t := by
        obtain ⟨p, hp, heq⟩ := (Option.any_eq_true _ _).mp horder
        rw [hp]
        exact congrArg some (by simpa using heq)
      simp only [next] at hnext
      split at hnext
      · next hunshared =>
        cases hnext
        obtain ⟨hfree, hshared, hpcs⟩ := step_acquire hperform
        exact h.forgetIdentityAt howned hpc hshared hpcs rfl rfl rfl rfl hunshared.symm hhead hfree
      · next identity hunshared =>
        cases hnext
        obtain ⟨hfree, hshared, hpcs⟩ := step_acquire hperform
        exact h.forgetIdentityAt howned hpc hshared hpcs rfl rfl rfl rfl hunshared.symm hhead hfree
    | forgot inRemove identity =>
      rw [hpc] at hnext horder
      cases hnext
      obtain ⟨-, hshared, hpcs⟩ := step_acquire hperform
      exact h.unregister howned hpc hshared hpcs (by simpa using horder)
    | releasing locks =>
      rw [hpc] at hnext hrelease
      cases locks with
      | nil => cases hnext
      | cons lock rest => exact hrelease (Option.some.inj hnext).symm (sameView_leave lock rest)
    | reading reader =>
      rw [hpc] at hnext hview
      exact hview (Option.some.inj hnext).symm ⟨rfl, rfl, rfl, rfl, rfl⟩

theorem inv_init : Inv init := by
  refine ⟨owned_init, ⟨?_, ?_, rfl⟩, ⟨List.Pairwise.nil, nofun, List.nodup_nil⟩, ⟨?_, ?_, ?_⟩,
    ⟨nofun, nofun, nofun, nofun⟩⟩
  · exact .of_eq rfl fun _ => rfl
  · exact .of_eq rfl fun _ => rfl
  · intro t i
    exact iff_of_false nofun nofun
  · exact List.nodup_nil
  · intro t x
    exact iff_of_false nofun nofun

/-- **The manager is aligned whenever no call is in progress**, after every run whose edits of
`identities` are in order. -/
theorem aligned_of_run {ls : List Label} {s : State}
    (horder : Transition.Along step (fun s l => inOrder s l = true) init ls)
    (hrun : Transition.exec step init ls = some s) (hquiet : Quiet s) : Aligned s := by
  have hinv : Inv s := Transition.exec_invariant_along
    (fun s l s' h hok hstep => h.step hok hstep) inv_init horder hrun
  exact hinv.aligned hquiet

/-! ## Two removals by handle -/

/-- Two middlewares that are added with their identities. -/
def metricsMiddleware : MiddlewareRef := { ref := 0, name := "metrics", priority := 100 }
def tracingMiddleware : MiddlewareRef := { ref := 1, name := "tracing", priority := 100 }

def metricsRegistration : Registration := { identity := "metrics", location := "main.rs:10" }
def tracingRegistration : Registration := { identity := "tracing", location := "main.rs:11" }

/-- Both are added, one after the other. -/
def addBoth : List Label :=
  .call 0 (.insert metricsMiddleware (some metricsRegistration)) :: List.replicate 8 (.go 0) ++
    .call 0 (.insert tracingMiddleware (some tracingRegistration)) :: List.replicate 8 (.go 0)

/-- The first one is removed again. -/
def removeFirst : List Label := addBoth ++ .call 1 (.removeHandle 0) :: List.replicate 8 (.go 1)

theorem aligned_removeFirst :
    ∃ s, Transition.exec step init removeFirst = some s ∧ Aligned s := by
  have hruns : (Transition.exec step init removeFirst).isSome = true := by decide
  have hquiet : ∀ s, Transition.exec step init removeFirst = some s → Quiet s := by
    rintro s hs t
    cases hs
    match t with
    | 0 => rfl
    | 1 => rfl
    | t + 2 => rfl
  obtain ⟨s, hrun⟩ := Option.isSome_iff_exists.mp hruns
  exact ⟨s, hrun, aligned_of_run (by decide) hrun (hquiet s hrun)⟩

/-- The second one is removed by its handle, at index 1; before its identity is taken out, the first
one is removed, at index 0. -/
def removeCrosswise : List Label :=
  addBoth ++ .call 1 (.removeHandle 1) :: List.replicate 4 (.go 1) ++
    .call 0 (.removeHandle 0) :: List.replicate 8 (.go 0) ++ List.replicate 2 (.go 1)

/-- Index 1 is past the end by then: an identity stays without a middleware. -/
theorem removeHandle_misaligns :
    ∃ s, Transition.exec step init removeCrosswise = some s ∧ Quiet s ∧
      s.shared.middlewares = [] ∧ s.shared.identities = [some "tracing"] ∧ ¬Aligned s := by
  refine ⟨_, rfl, fun t => ?_, rfl, rfl, fun h => ?_⟩
  · match t with
    | 0 => rfl
    | 1 => rfl
    | t + 2 => rfl
  · have hidentities := h.identities
    cases hidentities

end ManagerLocks

end Apcore
