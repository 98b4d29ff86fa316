import Apcore.Lib.Transition
import Apcore.Middleware.Manager

/-! # `Middleware.Edits` — what each edit does to the list of registrations

`insert` edits the three vectors together. A removal takes its entry out of `middlewares` and
`handles` under both mutexes, and out of `identities` later, by the index it found before; and an
insertion notes its identity before it inserts. The invariant says how the vectors and the map stand
to the one list of live registrations while such edits are under way. -/

namespace Apcore

namespace ManagerLocks

/-- The identities are those of the target, once the pending removals have taken out theirs. -/
def Resolves : List (Nat × Nat) → List (Option String) → List (Option String) → Prop
  | [], identities, target => identities = target
  | (_, i) :: rest, identities, target =>
    i < identities.length ∧ Resolves rest (identities.eraseIdx i) target

/-- One more removal is pending. -/
theorem Resolves.append {pending : List (Nat × Nat)} {identities target : List (Option String)}
    (h : Resolves pending identities target) {t i : Nat} (hi : i < target.length) :
    Resolves (pending ++ [(t, i)]) identities (target.eraseIdx i) := by
  induction pending generalizing identities with
  | nil =>
    obtain rfl : identities = target := h
    exact ⟨hi, rfl⟩
  | cons first rest ih => exact ⟨h.1, ih h.2⟩

namespace Pc

/-- The index of an entry that is out of `middlewares` and `handles` and still in `identities`. -/
def pendingAt : Pc → Option Nat
  | removedHandle i => some i
  | chainRemoved i => some i
  | dropping i => some i
  | forgetting _ i => some i
  | _ => none

/-- The identity an insertion has noted and not yet inserted. -/
def notedIdentity : Pc → Option String
  | noted _ identity => some identity
  | inserting _ identity => identity
  | insertHasMiddlewares _ identity => identity
  | insertHasHandles _ identity => identity
  | _ => none

/-- The identity a removal is about to drop from the map. -/
def droppedIdentity : Pc → Option String
  | forgot _ identity => some identity
  | _ => none

/-- The index that `remove` has taken out of the chain alone. -/
def chainCut : Pc → Option Nat
  | removedMiddleware i => some i
  | _ => none

/-- The index that `remove_handle` has taken out of the handles alone. -/
def handleCut : Pc → Option Nat
  | handleRemoved i => some i
  | _ => none

end Pc

/-- A vector is the whole list, or the list without the entry a thread has cut out. -/
structure CutOf {α : Type} (vector whole : List α) (cut : Nat → Option Nat) : Prop where
  uncut : (∀ t, cut t = none) → vector = whole
  cutAt : ∀ t i, cut t = some i → i < whole.length ∧ vector = whole.eraseIdx i

/-- What the three vectors hold. -/
structure Vectors (s : State) : Prop where
  chain : CutOf s.shared.middlewares (s.shared.live.map Entry.middleware) fun t => (s.pc t).chainCut
  handles : CutOf s.shared.handles (s.shared.live.map Entry.handle) fun t => (s.pc t).handleCut
  identities : Resolves s.shared.pending s.shared.identities (s.shared.live.map Entry.identity)

/-- The live registrations, by priority and age, under handles of their own. -/
structure Ordered (sh : Shared) : Prop where
  sorted : sh.live.StableDesc (·.middleware.priority) Entry.handle
  fresh : ∀ e ∈ sh.live, e.handle < sh.nextHandle
  nodup : (sh.live.map Entry.handle).Nodup

/-- What the lists of the history say of the threads. -/
structure Recorded (s : State) : Prop where
  pending : ∀ t i, (t, i) ∈ s.shared.pending ↔ (s.pc t).pendingAt = some i
  once : (s.shared.pending.map Prod.fst).Nodup
  noted : ∀ t identity, (t, identity) ∈ s.shared.noted ↔ (s.pc t).notedIdentity = some identity

/-- The map of identities against the vector, with what is under way. -/
structure Mapped (s : State) : Prop where
  registered : ∀ x, some x ∈ s.shared.identities → (s.shared.registeredIdentities x).isSome
  noted : ∀ t x, (t, x) ∈ s.shared.noted → (s.shared.registeredIdentities x).isSome
  cause : ∀ x, (s.shared.registeredIdentities x).isSome → some x ∈ s.shared.identities ∨
    (∃ t, (t, x) ∈ s.shared.noted) ∨ ∃ t, (s.pc t).droppedIdentity = some x
  dropped : ∀ t x, (s.pc t).droppedIdentity = some x → some x ∉ s.shared.identities

structure Inv (s : State) : Prop where
  owned : Locks.Owned Pc.holds s
  vectors : Vectors s
  ordered : Ordered s.shared
  recorded : Recorded s
  mapped : Mapped s

/-- The edits of `identities` keep to the order of the removals, and no removal drops an identity
that an insertion has noted. -/
def inOrder (s : State) : Label → Bool
  | .call _ _ => true
  | .go t =>
    match s.pc t with
    | .insertHasHandles _ _ => s.shared.pending.isEmpty
    | .forgetting _ _ => s.shared.pending.head?.any (·.1 == t)
    | .forgot _ identity => !(s.shared.noted.map Prod.snd).contains identity
    | _ => true

/-- The vectors are those of one list of registrations in stable descending priority order, and the
map has the identities of these registrations. -/
structure Aligned (s : State) : Prop where
  middlewares : s.shared.middlewares = s.shared.live.map Entry.middleware
  handles : s.shared.handles = s.shared.live.map Entry.handle
  identities : s.shared.identities = s.shared.live.map Entry.identity
  sorted : s.shared.live.StableDesc (·.middleware.priority) Entry.handle
  unique : s.shared.handles.Nodup
  registered : ∀ x, (s.shared.registeredIdentities x).isSome ↔
    ∃ e ∈ s.shared.live, e.identity = some x

/-- With no call in progress the manager is aligned. -/
theorem Inv.aligned {s : State} (h : Inv s) (hquiet : Quiet s) : Aligned s := by
  have hpending : s.shared.pending = [] := by
    refine List.eq_nil_iff_forall_not_mem.mpr ?_
    rintro ⟨t, i⟩ hmem
    have hpc := (h.recorded.pending t i).mp hmem
    rw [hquiet t] at hpc
    cases hpc
  have hnoted : ∀ t x, (t, x) ∉ s.shared.noted := by
    intro t x hmem
    have hpc := (h.recorded.noted t x).mp hmem
    rw [hquiet t] at hpc
    cases hpc
  have hidentities : s.shared.identities = s.shared.live.map Entry.identity := by
    have hresolves := h.vectors.identities
    rw [hpending] at hresolves
    exact hresolves
  have hhandles : s.shared.handles = s.shared.live.map Entry.handle :=
    h.vectors.handles.uncut fun t => by rw [hquiet t]; rfl
  refine
    { middlewares := h.vectors.chain.uncut fun t => by rw [hquiet t]; rfl
      handles := hhandles
      identities := hidentities
      sorted := h.ordered.sorted
      unique := hhandles ▸ h.ordered.nodup
      registered := fun x => ?_ }
  constructor
  · intro hx
    rcases h.mapped.cause x hx with hmem | ⟨t, hmem⟩ | ⟨t, hpc⟩
    · rw [hidentities] at hmem
      obtain ⟨e, he, hidentity⟩ := List.mem_map.mp hmem
      exact ⟨e, he, hidentity⟩
    · exact absurd hmem (hnoted t x)
    · rw [hquiet t] at hpc
      cases hpc
  · rintro ⟨e, he, hidentity⟩
    refine h.mapped.registered x ?_
    rw [hidentities, ← hidentity]
    exact List.mem_map_of_mem he

/-! ## What leaves the invariant alone -/

/-- Two counters that look alike to the invariant. -/
structure SameView (p q : Pc) : Prop where
  pendingAt : p.pendingAt = q.pendingAt
  notedIdentity : p.notedIdentity = q.notedIdentity
  droppedIdentity : p.droppedIdentity = q.droppedIdentity
  chainCut : p.chainCut = q.chainCut
  handleCut : p.handleCut = q.handleCut

theorem SameView.refl (p : Pc) : SameView p p := ⟨rfl, rfl, rfl, rfl, rfl⟩

theorem sameView_update {pcs : Nat → Pc} {t : Nat} {pc : Pc} (h : SameView pc (pcs t)) (u : Nat) :
    SameView (Function.update pcs t pc u) (pcs u) := by
  by_cases hu : u = t
  · subst hu
    rwa [Function.update_self]
  · rw [Function.update_of_ne hu]
    exact .refl _

theorem sameView_begin (c : Call) : SameView (begin c) .idle := by
  cases c with
  | insert middleware registration =>
    simp only [begin]
    split_ifs
    · exact .refl _
    · cases registration <;> exact ⟨rfl, rfl, rfl, rfl, rfl⟩
  | remove name => exact ⟨rfl, rfl, rfl, rfl, rfl⟩
  | removeHandle handle => exact ⟨rfl, rfl, rfl, rfl, rfl⟩
  | read reader => exact ⟨rfl, rfl, rfl, rfl, rfl⟩

theorem sameView_leave (lock : Lock) (locks : List Lock) :
    SameView (Pc.leave locks) (.releasing (lock :: locks)) := by
  cases locks <;> exact ⟨rfl, rfl, rfl, rfl, rfl⟩

theorem CutOf.congr {α : Type} {vector whole : List α} {cut cut' : Nat → Option Nat}
    (h : CutOf vector whole cut) (heq : ∀ t, cut' t = cut t) : CutOf vector whole cut' := by
  rwa [funext heq]

/-- A whole vector stays one that is edited as the list is. -/
theorem CutOf.of_eq {α : Type} {vector whole : List α} {cut : Nat → Option Nat}
    (heq : vector = whole) (hnone : ∀ t, cut t = none) : CutOf vector whole cut :=
  ⟨fun _ => heq, fun t i hcut => by rw [hnone t] at hcut; cases hcut⟩

/-- A thread cuts an entry out of a whole vector. -/
theorem CutOf.start {α : Type} {whole : List α} {cut : Nat → Option Nat} {t i : Nat}
    (hi : i < whole.length) (hself : cut t = some i) (hothers : ∀ u, u ≠ t → cut u = none) :
    CutOf (whole.eraseIdx i) whole cut := by
  constructor
  · intro hnone
    rw [hnone t] at hself
    cases hself
  · intro u j hj
    by_cases hu : u = t
    · subst hu
      obtain rfl : i = j := Option.some.inj (hself.symm.trans hj)
      exact ⟨hi, rfl⟩
    · rw [hothers u hu] at hj
      cases hj

/-- The vectors where neither they nor the cuts change. -/
theorem Vectors.frame {s s' : State} (h : Vectors s)
    (hmiddlewares : s'.shared.middlewares = s.shared.middlewares)
    (hhandles : s'.shared.handles = s.shared.handles)
    (hidentities : s'.shared.identities = s.shared.identities)
    (hlive : s'.shared.live = s.shared.live) (hpending : s'.shared.pending = s.shared.pending)
    (hchainCut : ∀ u, (s'.pc u).chainCut = (s.pc u).chainCut)
    (hhandleCut : ∀ u, (s'.pc u).handleCut = (s.pc u).handleCut) : Vectors s' := by
  constructor
  · rw [hmiddlewares, hlive]
    exact h.chain.congr hchainCut
  · rw [hhandles, hlive]
    exact h.handles.congr hhandleCut
  · rw [hpending, hidentities, hlive]
    exact h.identities

/-- The records where neither they nor what they are about change. -/
theorem Recorded.frame {s s' : State} (h : Recorded s)
    (hpending : s'.shared.pending = s.shared.pending) (hnoted : s'.shared.noted = s.shared.noted)
    (hpendingAt : ∀ u, (s'.pc u).pendingAt = (s.pc u).pendingAt)
    (hnotedIdentity : ∀ u, (s'.pc u).notedIdentity = (s.pc u).notedIdentity) : Recorded s' := by
  constructor
  · intro u i
    rw [hpending, hpendingAt u]
    exact h.pending u i
  · rw [hpending]
    exact h.once
  · intro u x
    rw [hnoted, hnotedIdentity u]
    exact h.noted u x

/-- A step that changes neither the shared state nor the view of a thread. -/
theorem Inv.frame {s s' : State} (h : Inv s) (howned : Locks.Owned Pc.holds s')
    (hshared : s'.shared = s.shared) (hview : ∀ u, SameView (s'.pc u) (s.pc u)) : Inv s' := by
  refine ⟨howned, ?_, hshared ▸ h.ordered, ?_, ?_⟩
  · apply h.vectors.frame
    case hchainCut => exact fun u => (hview u).chainCut
    case hhandleCut => exact fun u => (hview u).handleCut
    all_goals rw [hshared]
  · apply h.recorded.frame
    case hpendingAt => exact fun u => (hview u).pendingAt
    case hnotedIdentity => exact fun u => (hview u).notedIdentity
    all_goals rw [hshared]
  · constructor
    · rw [hshared]
      exact h.mapped.registered
    · rw [hshared]
      exact h.mapped.noted
    · intro x hx
      rw [hshared] at hx ⊢
      refine (h.mapped.cause x hx).imp_right (Or.imp_right ?_)
      rintro ⟨t, ht⟩
      exact ⟨t, (hview t).droppedIdentity.trans ht⟩
    · intro t x hx
      rw [hshared]
      exact h.mapped.dropped t x ((hview t).droppedIdentity ▸ hx)

/-! ## Who may have cut a vector -/

theorem holds_of_chainCut {pc : Pc} {i : Nat} (h : pc.chainCut = some i) :
    .middlewares ∈ pc.holds := by
  cases pc <;> first | cases h; exact List.mem_singleton.mpr rfl | cases h

theorem holds_of_handleCut {pc : Pc} {i : Nat} (h : pc.handleCut = some i) :
    .handles ∈ pc.holds := by
  cases pc <;> first | cases h; exact List.mem_singleton.mpr rfl | cases h

theorem holds_of_droppedIdentity {pc : Pc} {x : String} (h : pc.droppedIdentity = some x) :
    .identities ∈ pc.holds := by
  cases pc <;> first | cases h; exact List.mem_cons_self | cases h

/-- With the lock of a vector in one's own hands, or in nobody's, no other thread has cut it. -/
theorem Inv.whole {s : State} (h : Inv s) {cut : Pc → Option Nat} {lock : Lock} {t : Nat}
    (hholds : ∀ {pc : Pc} {i : Nat}, cut pc = some i → lock ∈ pc.holds) (hcut : cut (s.pc t) = none)
    (hlock : s.owner lock = none ∨ lock ∈ (s.pc t).holds) (u : Nat) : cut (s.pc u) = none := by
  cases hu : cut (s.pc u) with
  | none => rfl
  | some i =>
    have hother := hholds hu
    rcases hlock with hfree | hmine
    · exact absurd hother (h.owned.free hfree u)
    · obtain rfl := h.owned.exclusive hmine hother
      rw [hcut] at hu
      cases hu

theorem Inv.chain_whole {s : State} (h : Inv s) {t : Nat} (hcut : (s.pc t).chainCut = none)
    (hlock : s.owner .middlewares = none ∨ .middlewares ∈ (s.pc t).holds) (u : Nat) :
    (s.pc u).chainCut = none :=
  h.whole holds_of_chainCut hcut hlock u

theorem Inv.handles_whole {s : State} (h : Inv s) {t : Nat} (hcut : (s.pc t).handleCut = none)
    (hlock : s.owner .handles = none ∨ .handles ∈ (s.pc t).holds) (u : Nat) :
    (s.pc u).handleCut = none :=
  h.whole holds_of_handleCut hcut hlock u

/-! ## The edits

Each edit is one act of one thread, which leaves the other threads where they are. -/

section Edits

variable {s s' : State} {t : Nat}

theorem pc_self {pc : Pc} (hpcs : s'.pc = Function.update s.pc t pc) : s'.pc t = pc := by
  rw [hpcs, Function.update_self]

theorem pc_of_ne {pc : Pc} (hpcs : s'.pc = Function.update s.pc t pc) {u : Nat} (hu : u ≠ t) :
    s'.pc u = s.pc u := by
  rw [hpcs, Function.update_of_ne hu]

/-- What was and is `none` of the thread that acts is what it was of every thread. -/
theorem proj_none {α : Type} (f : Pc → Option α) {pc : Pc}
    (hpcs : s'.pc = Function.update s.pc t pc) (hold : f (s.pc t) = none) (hnew : f pc = none)
    (u : Nat) : f (s'.pc u) = f (s.pc u) := by
  by_cases hu : u = t
  · subst hu
    rw [pc_self hpcs, hold, hnew]
  · rw [pc_of_ne hpcs hu]

/-- The thread with the lock has no cut any more, and the others had none. -/
theorem Inv.closed (h : Inv s) {cut : Pc → Option Nat} {lock : Lock} {pc : Pc}
    (hholds : ∀ {pc : Pc} {i : Nat}, cut pc = some i → lock ∈ pc.holds)
    (hpcs : s'.pc = Function.update s.pc t pc) (hmine : lock ∈ (s.pc t).holds)
    (hnew : cut pc = none) (u : Nat) : cut (s'.pc u) = none := by
  by_cases hu : u = t
  · subst hu
    rw [pc_self hpcs, hnew]
  · rw [pc_of_ne hpcs hu]
    cases hcut : cut (s.pc u) with
    | none => rfl
    | some j => exact absurd (h.owned.exclusive (hholds hcut) hmine) hu

/-- A thread that has noted nothing and notes `x`. -/
theorem Recorded.noted_cons (h : Recorded s) {x : String} {pc : Pc}
    (hpcs : s'.pc = Function.update s.pc t pc) (hold : (s.pc t).notedIdentity = none)
    (hnew : pc.notedIdentity = some x) (u : Nat) (y : String) :
    (u, y) ∈ (t, x) :: s.shared.noted ↔ (s'.pc u).notedIdentity = some y := by
  by_cases hu : u = t
  · subst hu
    have hnone : (u, y) ∉ s.shared.noted := by
      rw [h.noted, hold]
      exact nofun
    simp [pc_self hpcs, hnew, hnone, eq_comm]
  · simp [pc_of_ne hpcs hu, hu, h.noted]

/-- A thread that has noted nothing any more. -/
theorem Recorded.noted_filter (h : Recorded s) {pc : Pc}
    (hpcs : s'.pc = Function.update s.pc t pc) (hnew : pc.notedIdentity = none) (u : Nat)
    (y : String) :
    (u, y) ∈ s.shared.noted.filter (·.1 != t) ↔ (s'.pc u).notedIdentity = some y := by
  by_cases hu : u = t
  · subst hu
    simp [pc_self hpcs, hnew]
  · simp [pc_of_ne hpcs hu, hu, h.noted]

/-- A thread whose removal is now pending. -/
theorem Recorded.pending_append (h : Recorded s) {i : Nat} {pc : Pc}
    (hpcs : s'.pc = Function.update s.pc t pc) (hold : (s.pc t).pendingAt = none)
    (hnew : pc.pendingAt = some i) :
    (∀ u j, (u, j) ∈ s.shared.pending ++ [(t, i)] ↔ (s'.pc u).pendingAt = some j) ∧
      ((s.shared.pending ++ [(t, i)]).map Prod.fst).Nodup := by
  have hnone : ∀ j, (t, j) ∉ s.shared.pending := by
    intro j
    rw [h.pending, hold]
    exact nofun
  constructor
  · intro u j
    by_cases hu : u = t
    · subst hu
      simp [pc_self hpcs, hnew, hnone, eq_comm]
    · simp [pc_of_ne hpcs hu, hu, h.pending]
  · rw [List.map_append, List.map_singleton, List.nodup_append]
    refine ⟨h.once, by simp, ?_⟩
    rintro u hu v hv rfl
    obtain rfl := List.mem_singleton.mp hv
    obtain ⟨⟨v, j⟩, hmem, rfl⟩ := List.mem_map.mp hu
    exact hnone j hmem

/-- The identity map, unchanged or grown, where the vector and what is dropped are unchanged. -/
theorem Mapped.grow (h : Mapped s) (hidentities : s'.shared.identities = s.shared.identities)
    (hdropped : ∀ u, (s'.pc u).droppedIdentity = (s.pc u).droppedIdentity)
    (hmono : ∀ x, (s.shared.registeredIdentities x).isSome →
      (s'.shared.registeredIdentities x).isSome)
    (hnoted : ∀ u x, (u, x) ∈ s'.shared.noted → (s'.shared.registeredIdentities x).isSome)
    (hcause : ∀ x, (s'.shared.registeredIdentities x).isSome →
      (∃ u, (u, x) ∈ s'.shared.noted) ∨ (s.shared.registeredIdentities x).isSome)
    (hkept : ∀ p ∈ s.shared.noted, p ∈ s'.shared.noted) : Mapped s' := by
  constructor
  · intro x hx
    rw [hidentities] at hx
    exact hmono x (h.registered x hx)
  · exact hnoted
  · intro x hx
    rcases hcause x hx with hnoted | hx
    · exact .inr (.inl hnoted)
    · rcases h.cause x hx with hmem | ⟨u, hmem⟩ | ⟨u, hdrop⟩
      · rw [hidentities]
        exact .inl hmem
      · exact .inr (.inl ⟨u, hkept _ hmem⟩)
      · exact .inr (.inr ⟨u, (hdropped u).trans hdrop⟩)
  · intro u x hdrop
    rw [hidentities]
    exact h.dropped u x ((hdropped u).symm.trans hdrop)

/-- The identity map and everything it is compared with are unchanged. -/
theorem Mapped.same (h : Mapped s) (hidentities : s'.shared.identities = s.shared.identities)
    (hmap : s'.shared.registeredIdentities = s.shared.registeredIdentities)
    (hnoted : s'.shared.noted = s.shared.noted)
    (hdropped : ∀ u, (s'.pc u).droppedIdentity = (s.pc u).droppedIdentity) : Mapped s' := by
  refine h.grow hidentities hdropped ?_ ?_ ?_ ?_
  · intro x hx
    rwa [hmap]
  · intro u x hx
    rw [hmap]
    exact h.noted u x (hnoted ▸ hx)
  · intro x hx
    exact .inr (hmap ▸ hx)
  · intro p hp
    rwa [hnoted]

variable (h : Inv s) (howned : Locks.Owned Pc.holds s')
include h howned

/-- `note_identity`. -/
theorem Inv.noteIdentity {middleware : MiddlewareRef} {r : Registration}
    (hpc : s.pc t = .noting middleware r) (hshared : s'.shared = s.shared.noteIdentity t r)
    (hpcs : s'.pc = Function.update s.pc t (.noted middleware r.identity)) : Inv s' := by
  have hmap : ∀ x, (s'.shared.registeredIdentities x).isSome ↔
      x = r.identity ∨ (s.shared.registeredIdentities x).isSome := by
    intro x
    have heq : s'.shared.registeredIdentities = _ := congrArg Shared.registeredIdentities hshared
    rw [heq]
    simp only [Shared.noteIdentity]
    cases hr : s.shared.registeredIdentities r.identity with
    | some location =>
      constructor
      · exact .inr
      · rintro (rfl | hx)
        · simp [hr]
        · exact hx
    | none =>
      by_cases hx : x = r.identity
      · subst hx
        simp
      · simp [hx]
  have hnoted := h.recorded.noted_cons hpcs (by rw [hpc]; rfl) rfl
  have hpending := proj_none Pc.pendingAt hpcs (by rw [hpc]; rfl) rfl
  refine ⟨howned, ?_, ?_, ?_, ?_⟩
  · apply h.vectors.frame
    case hchainCut => exact proj_none Pc.chainCut hpcs (by rw [hpc]; rfl) rfl
    case hhandleCut => exact proj_none Pc.handleCut hpcs (by rw [hpc]; rfl) rfl
    all_goals
      rw [hshared]
      rfl
  · rw [hshared]
    exact ⟨h.ordered.sorted, h.ordered.fresh, h.ordered.nodup⟩
  · constructor
    · intro u i
      rw [hshared, hpending u]
      exact h.recorded.pending u i
    · rw [hshared]
      exact h.recorded.once
    · rw [hshared]
      exact hnoted
  · refine h.mapped.grow (by rw [hshared]; rfl)
      (proj_none Pc.droppedIdentity hpcs (by rw [hpc]; rfl) rfl)
      (fun x hx => (hmap x).mpr (.inr hx)) ?_ ?_ ?_
    · intro u x hx
      rw [hshared] at hx
      rcases List.mem_cons.mp hx with heq | hx
      · cases heq
        exact (hmap _).mpr (.inl rfl)
      · exact (hmap x).mpr (.inr (h.mapped.noted u x hx))
    · intro x hx
      rcases (hmap x).mp hx with rfl | hx
      · rw [hshared]
        exact .inl ⟨t, List.mem_cons_self⟩
      · exact .inr hx
    · intro p hp
      rw [hshared]
      exact List.mem_cons_of_mem _ hp

/-- `insert` under its three mutexes, with no removal pending. -/
theorem Inv.insertEntry {middleware : MiddlewareRef} {identity : Option String}
    (hpc : s.pc t = .insertHasHandles middleware identity)
    (hshared : s'.shared = s.shared.insertEntry t middleware identity)
    (hpcs : s'.pc = Function.update s.pc t (.releasing [.identities, .handles, .middlewares]))
    (hpending : s.shared.pending = []) (hfree : s.owner .identities = none) : Inv s' := by
  have hcutChain := h.chain_whole (t := t) (by rw [hpc]; rfl) (.inr (by rw [hpc]; simp [Pc.holds]))
  have hcutHandles :=
    h.handles_whole (t := t) (by rw [hpc]; rfl) (.inr (by rw [hpc]; simp [Pc.holds]))
  have hchain := h.vectors.chain.uncut hcutChain
  have hhandles := h.vectors.handles.uncut hcutHandles
  have hidentities : s.shared.identities = s.shared.live.map Entry.identity := by
    have hresolves := h.vectors.identities
    rw [hpending] at hresolves
    exact hresolves
  -- the place is one for all three vectors, and for the list they project
  have hpos : s.shared.middlewares.stablePos (·.priority) middleware.priority =
      s.shared.live.stablePos (·.middleware.priority) middleware.priority := by
    rw [hchain, List.stablePos_map]
    rfl
  let entry : Entry := { handle := s.shared.nextHandle, middleware, identity }
  have hlive : s'.shared.live =
      s.shared.live.insertIdx (s.shared.live.stablePos (·.middleware.priority) middleware.priority)
        entry := by
    rw [hshared, ← hpos]
    rfl
  have hle : s.shared.live.stablePos (·.middleware.priority) middleware.priority ≤
      s.shared.live.length := List.stablePos_le _
  have hmem : ∀ e, e ∈ s'.shared.live ↔ e = entry ∨ e ∈ s.shared.live := by
    intro e
    rw [hlive, List.mem_insertIdx hle]
  have hids : s'.shared.identities = s'.shared.live.map Entry.identity := by
    rw [hlive, List.map_insertIdx, ← hidentities, hshared, ← hpos]
    rfl
  have hmemIds : ∀ x, some x ∈ s'.shared.identities ↔
      identity = some x ∨ some x ∈ s.shared.identities := by
    intro x
    rw [hids, hidentities]
    simp only [List.mem_map, hmem]
    constructor
    · rintro ⟨e, rfl | he, hx⟩
      · exact .inl hx
      · exact .inr ⟨e, he, hx⟩
    · rintro (hx | ⟨e, he, hx⟩)
      · exact ⟨entry, .inl rfl, hx⟩
      · exact ⟨e, .inr he, hx⟩
  have hnotDropped : ∀ u x, (s.pc u).droppedIdentity ≠ some x := fun u x hdrop =>
    h.owned.free hfree u (holds_of_droppedIdentity hdrop)
  have hdropped := proj_none Pc.droppedIdentity hpcs (by rw [hpc]; rfl) rfl
  refine ⟨howned, ?_, ?_, ?_, ?_⟩
  · constructor
    · refine .of_eq ?_ fun u =>
        (proj_none Pc.chainCut hpcs (by rw [hpc]; rfl) rfl u).trans (hcutChain u)
      rw [hlive, List.map_insertIdx, ← hchain, hshared, ← hpos]
      rfl
    · refine .of_eq ?_ fun u =>
        (proj_none Pc.handleCut hpcs (by rw [hpc]; rfl) rfl u).trans (hcutHandles u)
      rw [hlive, List.map_insertIdx, ← hhandles, hshared, ← hpos]
      rfl
    · have hnil : s'.shared.pending = [] := by
        rw [hshared]
        exact hpending
      rw [hnil]
      exact hids
  · have hfresh : s'.shared.nextHandle = s.shared.nextHandle + 1 := by
      rw [hshared]
      rfl
    refine ⟨?_, ?_, ?_⟩
    · rw [hlive]
      exact h.ordered.sorted.insert (a := entry) h.ordered.fresh
    · intro e he
      rw [hfresh]
      rcases (hmem e).mp he with rfl | he
      · exact Nat.lt_succ_self _
      · exact Nat.lt_succ_of_lt (h.ordered.fresh e he)
    · rw [hlive, List.map_insertIdx]
      rw [(List.perm_insertIdx _ _ (by simpa using hle)).nodup_iff, List.nodup_cons]
      refine ⟨fun hin => ?_, h.ordered.nodup⟩
      obtain ⟨e, he, heq⟩ := List.mem_map.mp hin
      have := h.ordered.fresh e he
      rw [heq] at this
      exact Nat.lt_irrefl _ this
  · constructor
    · intro u i
      rw [hshared, proj_none Pc.pendingAt hpcs (by rw [hpc]; rfl) rfl u]
      exact h.recorded.pending u i
    · rw [hshared]
      exact h.recorded.once
    · rw [hshared]
      exact h.recorded.noted_filter hpcs rfl
  · have hmap : s'.shared.registeredIdentities = s.shared.registeredIdentities := by
      rw [hshared]
      rfl
    have hnotedMem : ∀ u x, (u, x) ∈ s'.shared.noted → (u, x) ∈ s.shared.noted := by
      intro u x hx
      rw [hshared] at hx
      exact (List.mem_filter.mp hx).1
    constructor
    · intro x hx
      rw [hmap]
      rcases (hmemIds x).mp hx with hidentity | hx
      · refine h.mapped.noted t x ((h.recorded.noted t x).mpr ?_)
        rw [hpc]
        exact hidentity
      · exact h.mapped.registered x hx
    · intro u x hx
      rw [hmap]
      exact h.mapped.noted u x (hnotedMem u x hx)
    · intro x hx
      rw [hmap] at hx
      rcases h.mapped.cause x hx with hin | ⟨u, hin⟩ | ⟨u, hdrop⟩
      · exact .inl ((hmemIds x).mpr (.inr hin))
      · by_cases hu : u = t
        · -- the identity this insertion had noted
          subst hu
          have hown := (h.recorded.noted u x).mp hin
          rw [hpc] at hown
          exact .inl ((hmemIds x).mpr (.inl hown))
        · refine .inr (.inl ⟨u, ?_⟩)
          rw [hshared]
          exact List.mem_filter.mpr ⟨hin, by simp [hu]⟩
      · exact absurd hdrop (hnotDropped u x)
    · intro u x hdrop
      exact absurd ((hdropped u).symm.trans hdrop) (hnotDropped u x)

/-- An edit of the two vectors by a thread that has nothing on record. -/
theorem Inv.cut {pc : Pc} {middlewares : List MiddlewareRef} {handles : List Nat}
    (hshared : s'.shared = { s.shared with middlewares, handles })
    (hpcs : s'.pc = Function.update s.pc t pc)
    (hold : (s.pc t).pendingAt = none ∧ (s.pc t).notedIdentity = none ∧
      (s.pc t).droppedIdentity = none)
    (hnew : pc.pendingAt = none ∧ pc.notedIdentity = none ∧ pc.droppedIdentity = none)
    (hchain : CutOf middlewares (s.shared.live.map Entry.middleware) fun u => (s'.pc u).chainCut)
    (hhandles : CutOf handles (s.shared.live.map Entry.handle) fun u => (s'.pc u).handleCut) :
    Inv s' := by
  refine ⟨howned, ?_, ?_, ?_, ?_⟩
  · constructor
    · rw [hshared]
      exact hchain
    · rw [hshared]
      exact hhandles
    · rw [hshared]
      exact h.vectors.identities
  · rw [hshared]
    exact ⟨h.ordered.sorted, h.ordered.fresh, h.ordered.nodup⟩
  · apply h.recorded.frame
    case hpendingAt => exact proj_none Pc.pendingAt hpcs hold.1 hnew.1
    case hnotedIdentity => exact proj_none Pc.notedIdentity hpcs hold.2.1 hnew.2.1
    all_goals rw [hshared]
  · refine h.mapped.same ?_ ?_ ?_ (proj_none Pc.droppedIdentity hpcs hold.2.2 hnew.2.2)
    all_goals rw [hshared]

/-- `remove` cuts its entry out of the chain. -/
theorem Inv.cutMiddleware {name : String} {i : Nat} (hpc : s.pc t = .removing name)
    (hfind : s.shared.middlewares.findIdx? (·.name == name) = some i)
    (hshared : s'.shared = s.shared.cutMiddleware i)
    (hpcs : s'.pc = Function.update s.pc t (.removedMiddleware i))
    (hfree : s.owner .middlewares = none) : Inv s' := by
  have hcutChain := h.chain_whole (t := t) (by rw [hpc]; rfl) (.inl hfree)
  have hi : i < s.shared.middlewares.length := (List.findIdx?_eq_some_iff_findIdx_eq.mp hfind).1
  refine h.cut howned hshared hpcs (by rw [hpc]; exact ⟨rfl, rfl, rfl⟩) ⟨rfl, rfl, rfl⟩ ?_ ?_
  · rw [← h.vectors.chain.uncut hcutChain]
    refine .start hi (t := t) (by rw [pc_self hpcs]; rfl) fun u hu => ?_
    rw [pc_of_ne hpcs hu]
    exact hcutChain u
  · exact h.vectors.handles.congr (proj_none Pc.handleCut hpcs (by rw [hpc]; rfl) rfl)

/-- `remove_handle` cuts its entry out of the handles. -/
theorem Inv.cutHandle {handle i : Nat} (hpc : s.pc t = .removingHandle handle)
    (hfind : s.shared.handles.findIdx? (· == handle) = some i)
    (hshared : s'.shared = s.shared.cutHandle i)
    (hpcs : s'.pc = Function.update s.pc t (.handleRemoved i))
    (hfree : s.owner .handles = none) : Inv s' := by
  have hcutHandles := h.handles_whole (t := t) (by rw [hpc]; rfl) (.inl hfree)
  have hi : i < s.shared.handles.length := (List.findIdx?_eq_some_iff_findIdx_eq.mp hfind).1
  refine h.cut howned hshared hpcs (by rw [hpc]; exact ⟨rfl, rfl, rfl⟩) ⟨rfl, rfl, rfl⟩ ?_ ?_
  · exact h.vectors.chain.congr (proj_none Pc.chainCut hpcs (by rw [hpc]; rfl) rfl)
  · rw [← h.vectors.handles.uncut hcutHandles]
    refine .start hi (t := t) (by rw [pc_self hpcs]; rfl) fun u hu => ?_
    rw [pc_of_ne hpcs hu]
    exact hcutHandles u

/-- An entry is out of both vectors: the registration is gone, and its identity is pending. -/
theorem Inv.dropped {i : Nat} {pc : Pc} (hi : i < s.shared.live.length)
    (hpcs : s'.pc = Function.update s.pc t pc) (hold : (s.pc t).pendingAt = none)
    (hnew : pc.pendingAt = some i)
    (hnoted : ∀ u, (s'.pc u).notedIdentity = (s.pc u).notedIdentity)
    (hdropped : ∀ u, (s'.pc u).droppedIdentity = (s.pc u).droppedIdentity)
    (hcutChain : ∀ u, (s'.pc u).chainCut = none) (hcutHandles : ∀ u, (s'.pc u).handleCut = none)
    (hshared : s'.shared =
      { s.shared with
        middlewares := (s.shared.live.map Entry.middleware).eraseIdx i
        handles := (s.shared.live.map Entry.handle).eraseIdx i
        live := s.shared.live.eraseIdx i
        pending := s.shared.pending ++ [(t, i)] }) : Inv s' := by
  refine ⟨howned, ?_, ?_, ?_, ?_⟩
  · constructor
    · rw [hshared]
      exact .of_eq (List.eraseIdx_map _ _ _) hcutChain
    · rw [hshared]
      exact .of_eq (List.eraseIdx_map _ _ _) hcutHandles
    · rw [hshared]
      show Resolves (s.shared.pending ++ [(t, i)]) s.shared.identities
        ((s.shared.live.eraseIdx i).map Entry.identity)
      rw [← List.eraseIdx_map]
      exact h.vectors.identities.append (by simpa using hi)
  · rw [hshared]
    refine ⟨h.ordered.sorted.eraseIdx i, ?_, ?_⟩
    · intro e he
      exact h.ordered.fresh e (List.mem_of_mem_eraseIdx he)
    · show ((s.shared.live.eraseIdx i).map Entry.handle).Nodup
      rw [← List.eraseIdx_map]
      exact h.ordered.nodup.sublist (List.eraseIdx_sublist _ _)
  · obtain ⟨hpending, honce⟩ := h.recorded.pending_append hpcs hold hnew
    constructor
    · rw [hshared]
      exact hpending
    · rw [hshared]
      exact honce
    · intro u x
      rw [hshared, hnoted u]
      exact h.recorded.noted u x
  · refine h.mapped.same ?_ ?_ ?_ hdropped
    all_goals
      rw [hshared]

/-- `remove` takes the handle out, too. -/
theorem Inv.dropHandle {i : Nat} (hpc : s.pc t = .removedMiddleware i)
    (hshared : s'.shared = s.shared.dropHandle t i)
    (hpcs : s'.pc = Function.update s.pc t (.removedHandle i))
    (hfree : s.owner .handles = none) : Inv s' := by
  have hcutHandles := h.handles_whole (t := t) (by rw [hpc]; rfl) (.inl hfree)
  have hhandles := h.vectors.handles.uncut hcutHandles
  obtain ⟨hi, hchain⟩ := h.vectors.chain.cutAt t i (by rw [hpc]; rfl)
  have hholds : .middlewares ∈ (s.pc t).holds := by rw [hpc]; simp [Pc.holds]
  refine h.dropped howned (t := t) (i := i) (by simpa using hi) hpcs (by rw [hpc]; rfl) rfl
    (proj_none Pc.notedIdentity hpcs (by rw [hpc]; rfl) rfl)
    (proj_none Pc.droppedIdentity hpcs (by rw [hpc]; rfl) rfl)
    (h.closed holds_of_chainCut hpcs hholds rfl)
    (fun u => (proj_none Pc.handleCut hpcs (by rw [hpc]; rfl) rfl u).trans (hcutHandles u)) ?_
  rw [hshared, ← hchain, ← hhandles]
  rfl

/-- `remove_handle` takes the middleware out, too. -/
theorem Inv.dropMiddleware {i : Nat} (hpc : s.pc t = .handleRemoved i)
    (hshared : s'.shared = s.shared.dropMiddleware t i)
    (hpcs : s'.pc = Function.update s.pc t (.chainRemoved i))
    (hfree : s.owner .middlewares = none) : Inv s' := by
  have hcutChain := h.chain_whole (t := t) (by rw [hpc]; rfl) (.inl hfree)
  have hchain := h.vectors.chain.uncut hcutChain
  obtain ⟨hi, hhandles⟩ := h.vectors.handles.cutAt t i (by rw [hpc]; rfl)
  have hholds : .handles ∈ (s.pc t).holds := by rw [hpc]; simp [Pc.holds]
  refine h.dropped howned (t := t) (i := i) (by simpa using hi) hpcs (by rw [hpc]; rfl) rfl
    (proj_none Pc.notedIdentity hpcs (by rw [hpc]; rfl) rfl)
    (proj_none Pc.droppedIdentity hpcs (by rw [hpc]; rfl) rfl)
    (fun u => (proj_none Pc.chainCut hpcs (by rw [hpc]; rfl) rfl u).trans (hcutChain u))
    (h.closed holds_of_handleCut hpcs hholds rfl) ?_
  rw [hshared, ← hchain, ← hhandles]
  rfl

/-- `forget_identity_at` of the removal that is pending longest. -/
theorem Inv.forgetIdentityAt {inRemove : Bool} {i : Nat} {pc : Pc}
    (hpc : s.pc t = .forgetting inRemove i)
    (hshared : s'.shared = s.shared.forgetIdentityAt t i)
    (hpcs : s'.pc = Function.update s.pc t pc) (hnewPending : pc.pendingAt = none)
    (hnewNoted : pc.notedIdentity = none) (hnewChain : pc.chainCut = none)
    (hnewHandle : pc.handleCut = none) (hnewDropped : pc.droppedIdentity = s.shared.unshared i)
    (hhead : s.shared.pending.head?.map Prod.fst = some t) (hfree : s.owner .identities = none) :
    Inv s' := by
  obtain ⟨⟨t', j⟩, hfirst, rfl⟩ := Option.map_eq_some_iff.mp hhead
  obtain ⟨rest, hpending⟩ : ∃ rest, s.shared.pending = (t', j) :: rest :=
    ⟨_, List.eq_cons_of_mem_head? hfirst⟩
  dsimp only at hpc hshared hpcs
  obtain rfl : i = j := by
    have hj : (s.pc t').pendingAt = some j :=
      (h.recorded.pending t' j).mp (by rw [hpending]; exact List.mem_cons_self)
    rw [hpc] at hj
    exact Option.some.inj hj
  have honce := h.recorded.once
  rw [hpending, List.map_cons, List.nodup_cons] at honce
  have hrest : s.shared.pending.filter (·.1 != t') = rest := by
    rw [hpending, List.filter_cons_of_neg (by simp)]
    refine List.filter_eq_self.mpr fun p hp => ?_
    have hne : p.1 ≠ t' := by
      intro heq
      exact honce.1 (List.mem_map.mpr ⟨p, hp, heq⟩)
    simpa using hne
  have hresolves := h.vectors.identities
  rw [hpending] at hresolves
  have hids : s'.shared.identities = s.shared.identities.eraseIdx i := by
    rw [hshared]
    rfl
  have hmap : s'.shared.registeredIdentities = s.shared.registeredIdentities := by
    rw [hshared]
    rfl
  have hsub : ∀ x, some x ∈ s'.shared.identities → some x ∈ s.shared.identities := by
    intro x hx
    rw [hids] at hx
    exact List.mem_of_mem_eraseIdx hx
  have hnotDropped : ∀ u x, (s.pc u).droppedIdentity ≠ some x := fun u x hdrop =>
    h.owned.free hfree u (holds_of_droppedIdentity hdrop)
  refine ⟨howned, ?_, ?_, ?_, ?_⟩
  · constructor
    · rw [hshared]
      exact h.vectors.chain.congr (proj_none Pc.chainCut hpcs (by rw [hpc]; rfl) hnewChain)
    · rw [hshared]
      exact h.vectors.handles.congr (proj_none Pc.handleCut hpcs (by rw [hpc]; rfl) hnewHandle)
    · rw [hshared]
      show Resolves (s.shared.pending.filter (·.1 != t')) (s.shared.identities.eraseIdx i) _
      rw [hrest]
      exact hresolves.2
  · rw [hshared]
    exact ⟨h.ordered.sorted, h.ordered.fresh, h.ordered.nodup⟩
  · constructor
    · intro u k
      rw [hshared]
      show (u, k) ∈ s.shared.pending.filter (·.1 != t') ↔ _
      by_cases hu : u = t'
      · subst hu
        simp [pc_self hpcs, hnewPending]
      · simp [pc_of_ne hpcs hu, hu, h.recorded.pending]
    · rw [hshared]
      show ((s.shared.pending.filter (·.1 != t')).map Prod.fst).Nodup
      rw [hrest]
      exact honce.2
    · intro u x
      rw [hshared, proj_none Pc.notedIdentity hpcs (by rw [hpc]; rfl) hnewNoted u]
      exact h.recorded.noted u x
  · constructor
    · intro x hx
      rw [hmap]
      exact h.mapped.registered x (hsub x hx)
    · intro u x hx
      rw [hshared] at hx ⊢
      exact h.mapped.noted u x hx
    · intro x hx
      rw [hmap] at hx
      rcases h.mapped.cause x hx with hin | ⟨u, hin⟩ | ⟨u, hdrop⟩
      · by_cases hkept : some x ∈ s.shared.identities.eraseIdx i
        · rw [hids]
          exact .inl hkept
        · -- the identity that is taken out, and that no other registration has
          have hat : s.shared.identities[i]? = some (some x) := by
            obtain ⟨k, hk⟩ := List.mem_iff_getElem?.mp hin
            by_cases hki : k = i
            · rwa [hki] at hk
            · exact absurd (List.mem_eraseIdx_iff_getElem?.mpr ⟨k, hki, hk⟩) hkept
          refine .inr (.inr ⟨t', ?_⟩)
          rw [pc_self hpcs, hnewDropped]
          simp [Shared.unshared, hat, hkept]
      · refine .inr (.inl ⟨u, ?_⟩)
        rw [hshared]
        exact hin
      · exact absurd hdrop (hnotDropped u x)
    · intro u x hdrop
      by_cases hu : u = t'
      · subst hu
        rw [pc_self hpcs, hnewDropped] at hdrop
        rw [hids]
        have hfilter := (Option.filter_eq_some_iff.mp hdrop).2
        simpa using hfilter
      · rw [pc_of_ne hpcs hu] at hdrop
        exact absurd hdrop (hnotDropped u x)

/-- The map drops an identity that no insertion has noted. -/
theorem Inv.unregister {inRemove : Bool} {identity : String}
    (hpc : s.pc t = .forgot inRemove identity)
    (hshared : s'.shared = s.shared.unregister identity)
    (hpcs : s'.pc = Function.update s.pc t
      (.releasing (.registeredIdentities :: .identities :: Pc.outer inRemove)))
    (hnotNoted : identity ∉ s.shared.noted.map Prod.snd) : Inv s' := by
  have hmap : ∀ x, x ≠ identity →
      s'.shared.registeredIdentities x = s.shared.registeredIdentities x := by
    intro x hx
    rw [hshared]
    exact Function.update_of_ne hx _ _
  have hgone : (s'.shared.registeredIdentities identity).isSome = false := by
    rw [hshared]
    simp [Shared.unregister]
  have hout : some identity ∉ s.shared.identities :=
    h.mapped.dropped t identity (by rw [hpc]; rfl)
  refine ⟨howned, ?_, ?_, ?_, ?_⟩
  · apply h.vectors.frame
    case hchainCut => exact proj_none Pc.chainCut hpcs (by rw [hpc]; rfl) rfl
    case hhandleCut => exact proj_none Pc.handleCut hpcs (by rw [hpc]; rfl) rfl
    all_goals
      rw [hshared]
      rfl
  · rw [hshared]
    exact ⟨h.ordered.sorted, h.ordered.fresh, h.ordered.nodup⟩
  · apply h.recorded.frame
    case hpendingAt => exact proj_none Pc.pendingAt hpcs (by rw [hpc]; rfl) rfl
    case hnotedIdentity => exact proj_none Pc.notedIdentity hpcs (by rw [hpc]; rfl) rfl
    all_goals
      rw [hshared]
      rfl
  · have hids : s'.shared.identities = s.shared.identities := by
      rw [hshared]
      rfl
    have hnotedSame : s'.shared.noted = s.shared.noted := by
      rw [hshared]
      rfl
    constructor
    · intro x hx
      rw [hids] at hx
      have hne : x ≠ identity := by
        rintro rfl
        exact hout hx
      rw [hmap x hne]
      exact h.mapped.registered x hx
    · intro u x hx
      rw [hnotedSame] at hx
      have hne : x ≠ identity := by
        rintro rfl
        exact hnotNoted (List.mem_map.mpr ⟨_, hx, rfl⟩)
      rw [hmap x hne]
      exact h.mapped.noted u x hx
    · intro x hx
      have hne : x ≠ identity := by
        rintro rfl
        rw [hgone] at hx
        cases hx
      rw [hmap x hne] at hx
      rw [hids, hnotedSame]
      refine (h.mapped.cause x hx).imp_right (Or.imp_right ?_)
      rintro ⟨u, hdrop⟩
      have hu : u ≠ t := by
        rintro rfl
        rw [hpc] at hdrop
        exact hne (Option.some.inj hdrop).symm
      exact ⟨u, by rwa [pc_of_ne hpcs hu]⟩
    · intro u x hdrop
      rw [hids]
      by_cases hu : u = t
      · subst hu
        rw [pc_self hpcs] at hdrop
        cases hdrop
      · rw [pc_of_ne hpcs hu] at hdrop
        exact h.mapped.dropped u x hdrop

end Edits

end ManagerLocks

end Apcore
