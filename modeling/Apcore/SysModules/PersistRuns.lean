import Apcore.SysModules.Overrides

/-! # `SysModules.PersistRuns` — overrides persisted side by side

The calls of `persist_one` on a store and of `write_override` on a file, each at its own pace. A
`persist_one` holds no lock from its load to its save, and the save of a file store takes the lock
that a `write_override` holds from before its read. -/

namespace Apcore.Overrides

/-- A value as `serde_json` has it. -/
abbrev Value := { v : Json // v.Ordered }

inductive Kind where
  | persistOne
  | writeOverride
  deriving DecidableEq, Repr

/-- Where a call is: before its lock or load; at its read, with the lock; before its save, with what
was stored when it loaded and what it will save; or back, with or without an error (which
`write_override` logs). -/
inductive Phase where
  | starting
  | reading
  | saving (base : Backing) (current : Entries)
  | returned (ok : Bool)

structure Call where
  kind : Kind
  key : String
  value : Value
  phase : Phase

/-- The call has the lock of the path. -/
def Call.Holds (call : Call) : Prop :=
  call.kind = .writeOverride ∧
    (call.phase = .reading ∨ ∃ base current, call.phase = .saving base current)

structure State where
  backing : Backing
  locked : Bool
  calls : List Call

def State.start (backing : Backing) : State := { backing, locked := false, calls := [] }

/-- The steps: a call is made; a `write_override` gets the lock, or gives up for want of the parent
directory; a call reads, or fails to; it saves, or fails to. -/
inductive Act where
  | call (kind : Kind) (key : String) (value : Value)
  | lock (i : Nat)
  | abandon (i : Nat)
  | read (i : Nat) (fails : Bool)
  | save (i : Nat) (fails : Bool)

def State.setPhase (s : State) (i : Nat) (call : Call) (phase : Phase) : State :=
  { s with calls := s.calls.set i { call with phase } }

/-- The map a call saves: what it has read, where it could, with its own entry. -/
def Call.edit (call : Call) (backing : Backing) (fails : Bool) : Entries :=
  let current := match fails, call.kind with
    | true, _ => []
    | false, .persistOne => backing.load.getD []
    | false, .writeOverride => backing.existing
  Fields.insert call.key call.value.1 current

def step (s : State) : Act → Option State
  | .call kind key value =>
    match kind, s.backing with
    | .writeOverride, .memory _ => none
    | _, _ => some { s with calls := s.calls ++ [{ kind, key, value, phase := .starting }] }
  | .lock i =>
    s.calls[i]?.bind fun call =>
      match call.kind, call.phase, s.locked with
      | .writeOverride, .starting, false => some { s.setPhase i call .reading with locked := true }
      | _, _, _ => none
  | .abandon i =>
    s.calls[i]?.bind fun call =>
      match call.kind, call.phase with
      | .writeOverride, .reading =>
        some { s.setPhase i call (.returned false) with locked := false }
      | _, _ => none
  | .read i fails =>
    s.calls[i]?.bind fun call =>
      match call.kind, call.phase with
      | .persistOne, .starting | .writeOverride, .reading =>
        some (s.setPhase i call (.saving s.backing (call.edit s.backing fails)))
      | _, _ => none
  | .save i fails =>
    s.calls[i]?.bind fun call =>
      match call.kind, call.phase, s.locked with
      | .persistOne, .saving _ current, false | .writeOverride, .saving _ current, _ =>
        some { s.setPhase i call (.returned !fails) with
          backing := if fails then s.backing else s.backing.save current
          locked := false }
      | _, _, _ => none

/-! ## What is promised -/

/-- No override is lost: a call that returned without error has its value stored, and what was
stored before and not written is stored still. -/
structure NoneLost (backing : Backing) (s : State) : Prop where
  written : ∀ call ∈ s.calls, call.phase = .returned true →
    s.backing.stored call.key = some (some call.value.1)
  kept : ∀ key v, key ∉ s.calls.map Call.key → backing.stored key = some v →
    s.backing.stored key = some v

/-- The condition of a step: a read succeeds and finds every entry to be JSON, unless nothing is
stored; and a `persist_one` saves over what it has loaded. -/
def Orderly (s : State) : Act → Prop
  | .read _ fails =>
    (fails = false ∧ s.backing.load.isSome) ∨ ∀ key, s.backing.stored key = none
  | .save i _ => ∀ call base current, s.calls[i]? = some call → call.kind = .persistOne →
    call.phase = .saving base current → s.backing = base
  | .call _ _ _ | .lock _ | .abandon _ => True

/-! ## One step -/

/-- What a call is about to save: what was stored when it loaded, with its own entry. -/
structure Edited (base : Backing) (call : Call) (current : Entries) : Prop where
  wellFormed : WellFormed current
  own : Fields.get? current call.key = some call.value.1
  others : ∀ key, key ≠ call.key → (Fields.get? current key).map some = base.stored key

/-- A read that finds everything there is makes an edit of it. -/
theorem edited_of_read {backing : Backing} {call : Call} {fails : Bool} (h : backing.WellFormed)
    (hread : (fails = false ∧ backing.load.isSome) ∨ ∀ key, backing.stored key = none) :
    Edited backing call (call.edit backing fails) := by
  obtain ⟨current, hcurrent, hwf, hsame⟩ : ∃ current,
      call.edit backing fails = Fields.insert call.key call.value.1 current ∧ WellFormed current ∧
        ∀ key, (Fields.get? current key).map some = backing.stored key := by
    refine ⟨_, rfl, ?_, fun key => ?_⟩
    · cases fails with
      | true => exact ⟨List.Pairwise.nil, fun entry hentry => by cases hentry⟩
      | false =>
        cases call.kind with
        | writeOverride => exact Backing.wellFormed_existing h
        | persistOne =>
          cases hload : backing.load with
          | none => exact ⟨List.Pairwise.nil, fun entry hentry => by cases hentry⟩
          | some entries =>
            have hwf := Backing.wellFormed_existing h
            rw [Backing.existing_of_load hload] at hwf
            exact hwf
    · rcases hread with ⟨rfl, hsome⟩ | hnone
      · obtain ⟨entries, hload⟩ := Option.isSome_iff_exists.mp hsome
        rw [Backing.stored_of_load hload key]
        cases call.kind with
        | writeOverride =>
          dsimp only
          rw [Backing.existing_of_load hload]
        | persistOne =>
          dsimp only
          rw [hload, Option.getD_some]
      · rw [hnone key, Option.map_eq_none_iff]
        cases fails with
        | true => rfl
        | false =>
          cases call.kind with
          | writeOverride => exact Backing.get?_existing_of_stored hnone key
          | persistOne =>
            dsimp only
            cases hload : backing.load with
            | none => rfl
            | some entries =>
              have hkey := hnone key
              rw [Backing.stored_of_load hload key, Option.map_eq_none_iff] at hkey
              exact hkey
  rw [hcurrent]
  exact
    { wellFormed := hwf.insert call.value.2
      own := Fields.get?_insert_self _ _ _
      others := fun key hkey => by rw [Fields.get?_insert_ne hkey, hsame key] }

/-- The state between the steps: who has the lock is alone, a call about to save has edited what it
loaded, which for one under the lock is what is stored. -/
structure Inv (backing : Backing) (s : State) : Prop where
  wellFormed : s.backing.WellFormed
  locked : ∀ (i : Nat) (call : Call), s.calls[i]? = some call → call.Holds →
    s.locked = true ∧ ∀ (j : Nat) (other : Call), s.calls[j]? = some other → other.Holds → j = i
  edited : ∀ call ∈ s.calls, ∀ base current, call.phase = .saving base current →
    Edited base call current
  fresh : ∀ call ∈ s.calls, call.kind = .writeOverride → ∀ base current,
    call.phase = .saving base current → base = s.backing
  noneLost : (s.calls.map Call.key).Nodup → NoneLost backing s

variable {initial : Backing} {s s' : State}

theorem inv_start (h : initial.WellFormed) : Inv initial (.start initial) where
  wellFormed := h
  locked := fun i call hcall => by cases hcall
  edited := fun call hcall => by cases hcall
  fresh := fun call hcall => by cases hcall
  noneLost := fun _ => ⟨fun call hcall => (by cases hcall), fun _ _ _ h => h⟩

section SetPhase

variable {i : Nat} {call : Call} (hcall : s.calls[i]? = some call) (phase : Phase)

include hcall

theorem keys_setPhase : (s.setPhase i call phase).calls.map Call.key = s.calls.map Call.key := by
  show (s.calls.set i { call with phase }).map Call.key = _
  obtain ⟨hi, rfl⟩ := List.getElem?_eq_some_iff.mp hcall
  rw [List.map_set]
  refine List.ext_getElem (by simp) fun j hj _ => ?_
  rw [List.getElem_set]
  split
  · next heq =>
    subst heq
    rw [List.getElem_map]
  · rfl

omit hcall in
theorem mem_setPhase {other : Call} (h : other ∈ (s.setPhase i call phase).calls) :
    other = { call with phase } ∨ other ∈ s.calls := by
  rcases List.mem_or_eq_of_mem_set h with h | h
  · exact .inr h
  · exact .inl h

theorem getElem?_setPhase {j : Nat} {other : Call}
    (h : (s.setPhase i call phase).calls[j]? = some other) :
    (j = i ∧ other = { call with phase }) ∨ j ≠ i ∧ s.calls[j]? = some other := by
  have hset : (s.calls.set i { call with phase })[j]? = some other := h
  by_cases hij : j = i
  · subst hij
    have hi := (List.getElem?_eq_some_iff.mp hcall).1
    rw [List.getElem?_set_self hi] at hset
    exact .inl ⟨rfl, (Option.some.inj hset).symm⟩
  · rw [List.getElem?_set_ne (Ne.symm hij)] at hset
    exact .inr ⟨hij, hset⟩

end SetPhase

/-- A call moves on and stores nothing. -/
theorem NoneLost.setPhase {i : Nat} {call : Call} {phase : Phase} {locked : Bool}
    (h : NoneLost initial s) (hcall : s.calls[i]? = some call) (hphase : phase ≠ .returned true) :
    NoneLost initial { s.setPhase i call phase with locked } where
  written := by
    intro other hother hreturned
    rcases mem_setPhase phase hother with rfl | hother
    · exact absurd hreturned hphase
    · exact h.written other hother hreturned
  kept := by
    intro key v hkey
    have hkeys := keys_setPhase hcall phase
    exact h.kept key v (hkeys ▸ hkey)

/-- Two calls under distinct keys are one where the keys agree. -/
theorem index_of_key {calls : List Call} (h : (calls.map Call.key).Nodup) {i j : Nat}
    {call other : Call} (hi : calls[i]? = some call) (hj : calls[j]? = some other)
    (hkey : other.key = call.key) : j = i := by
  have hi' : (calls.map Call.key)[i]? = some call.key := by rw [List.getElem?_map, hi]; rfl
  have hj' : (calls.map Call.key)[j]? = some call.key := by
    rw [List.getElem?_map, hj, ← hkey]; rfl
  obtain ⟨hlt, _⟩ := List.getElem?_eq_some_iff.mp hj'
  exact (List.getElem?_inj hlt h).mp (hj'.trans hi'.symm)

/-- **A save over what was loaded** changes one entry, its own. -/
theorem NoneLost.save {i : Nat} {call : Call} {current : Entries} {locked : Bool}
    (h : NoneLost initial s) (hcall : s.calls[i]? = some call)
    (hedited : Edited s.backing call current) (hkeys : (s.calls.map Call.key).Nodup) :
    NoneLost initial { s.setPhase i call (.returned true) with
      backing := s.backing.save current, locked } where
  written := by
    intro other hother hreturned
    show (s.backing.save current).stored other.key = _
    rw [Backing.stored_save hedited.wellFormed]
    obtain ⟨j, hj⟩ := List.mem_iff_getElem?.mp hother
    rcases getElem?_setPhase hcall _ hj with ⟨rfl, rfl⟩ | ⟨hij, hj⟩
    · show (Fields.get? current call.key).map some = some (some call.value.1)
      rw [hedited.own, Option.map_some]
    · have hne : other.key ≠ call.key := fun heq => hij (index_of_key hkeys hcall hj heq)
      rw [hedited.others _ hne]
      exact h.written other (List.mem_of_getElem? hj) hreturned
  kept := by
    intro key v hkey hstored
    show (s.backing.save current).stored key = _
    replace hkey : key ∉ s.calls.map Call.key := keys_setPhase hcall (.returned true) ▸ hkey
    have hne : key ≠ call.key := by
      rintro rfl
      exact hkey (List.mem_map_of_mem (List.mem_of_getElem? hcall))
    rw [Backing.stored_save hedited.wellFormed, hedited.others key hne]
    exact h.kept key v hkey hstored

/-- What a call holds depends on its phase. -/
theorem holds_setPhase {call : Call} {phase : Phase} :
    Call.Holds { call with phase } ↔ call.kind = .writeOverride ∧
      (phase = .reading ∨ ∃ base current, phase = .saving base current) := Iff.rfl

theorem inv_call (h : Inv initial s) (kind : Kind) (key : String) (value : Value) :
    Inv initial { s with calls := s.calls ++ [{ kind, key, value, phase := .starting }] } := by
  have hmem : ∀ call ∈ s.calls ++ [{ kind, key, value, phase := .starting }],
      call ∈ s.calls ∨ call.phase = .starting := by
    intro call hcall
    rcases List.mem_append.mp hcall with hcall | hcall
    · exact .inl hcall
    · obtain rfl := List.mem_singleton.mp hcall
      exact .inr rfl
  have hold : ∀ (i : Nat) (call : Call),
      (s.calls ++ [{ kind, key, value, phase := .starting }])[i]? = some call →
      call.Holds → s.calls[i]? = some call := by
    intro i call hcall hholds
    rw [List.getElem?_append] at hcall
    split at hcall
    · exact hcall
    · obtain rfl := List.mem_singleton.mp (List.mem_of_getElem? hcall)
      rcases hholds.2 with hphase | ⟨base, current, hphase⟩ <;> cases hphase
  refine ⟨h.wellFormed, fun i call hcall hholds => ?_, fun call hcall base current hphase => ?_,
    fun call hcall hkind base current hphase => ?_, fun hkeys => ?_⟩
  · obtain ⟨hlocked, honly⟩ := h.locked i call (hold i call hcall hholds) hholds
    exact ⟨hlocked, fun j other hother hholds' => honly j other (hold j other hother hholds') hholds'⟩
  · rcases hmem call hcall with hcall | hstarting
    · exact h.edited call hcall base current hphase
    · rw [hstarting] at hphase
      cases hphase
  · rcases hmem call hcall with hcall | hstarting
    · exact h.fresh call hcall hkind base current hphase
    · rw [hstarting] at hphase
      cases hphase
  · rw [List.map_append] at hkeys
    have hlost := h.noneLost (List.nodup_append.mp hkeys).1
    refine ⟨fun call hcall hreturned => ?_, fun other v hother => ?_⟩
    · rcases hmem call hcall with hcall | hstarting
      · exact hlost.written call hcall hreturned
      · rw [hstarting] at hreturned
        cases hreturned
    · refine hlost.kept other v fun hin => hother ?_
      rw [List.map_append]
      exact List.mem_append_left _ hin

/-- One call moves on: what it and the others are then entitled to. -/
theorem Inv.move (h : Inv initial s) {i : Nat} {call : Call} (hcall : s.calls[i]? = some call)
    {phase : Phase} {locked : Bool} {backing : Backing} (hwf : backing.WellFormed)
    (hself : Call.Holds { call with phase } → locked = true)
    (hothers : (∀ (j : Nat) (other : Call), j ≠ i → s.calls[j]? = some other → ¬ other.Holds) ∨
      locked = s.locked ∧ backing = s.backing ∧ ¬ Call.Holds { call with phase })
    (hedited : ∀ base current, phase = .saving base current → Edited base call current ∧
      (call.kind = .writeOverride → base = backing))
    (hlost : (s.calls.map Call.key).Nodup →
      NoneLost initial { s.setPhase i call phase with backing, locked }) :
    Inv initial { s.setPhase i call phase with backing, locked } := by
  refine ⟨hwf, fun j other hother hholds => ?_, fun other hother base current hphase => ?_,
    fun other hother hkind base current hphase => ?_, fun hkeys => ?_⟩
  · rcases getElem?_setPhase hcall phase hother with ⟨rfl, rfl⟩ | ⟨hij, hother⟩
    · refine ⟨hself hholds, fun k third hthird hholds' => ?_⟩
      rcases getElem?_setPhase hcall phase hthird with ⟨rfl, _⟩ | ⟨hkj, hthird⟩
      · rfl
      · rcases hothers with hnone | ⟨_, _, hnot⟩
        · exact absurd hholds' (hnone k third hkj hthird)
        · exact absurd hholds hnot
    · rcases hothers with hnone | ⟨hlocked, _, hnot⟩
      · exact absurd hholds (hnone j other hij hother)
      · obtain ⟨htaken, honly⟩ := h.locked j other hother hholds
        refine ⟨hlocked.trans htaken, fun k third hthird hholds' => ?_⟩
        rcases getElem?_setPhase hcall phase hthird with ⟨rfl, rfl⟩ | ⟨_, hthird⟩
        · exact absurd hholds' hnot
        · exact honly k third hthird hholds'
  · rcases mem_setPhase phase hother with rfl | hother
    · obtain ⟨hwf', hown, hrest⟩ := (hedited base current hphase).1
      exact ⟨hwf', hown, hrest⟩
    · exact h.edited other hother base current hphase
  · obtain ⟨j, hj⟩ := List.mem_iff_getElem?.mp hother
    rcases getElem?_setPhase hcall phase hj with ⟨_, rfl⟩ | ⟨hij, hj⟩
    · exact (hedited base current hphase).2 hkind
    · rcases hothers with hnone | ⟨_, hbacking, _⟩
      · exact absurd ⟨hkind, .inr ⟨base, current, hphase⟩⟩ (hnone j other hij hj)
      · exact (h.fresh other (List.mem_of_getElem? hj) hkind base current hphase).trans hbacking.symm
  · refine hlost ?_
    rw [← keys_setPhase hcall phase]
    exact hkeys

/-- Nobody else has the lock when it is free, or when the call has it. -/
theorem Inv.alone (h : Inv initial s) {i : Nat} {call : Call} (hcall : s.calls[i]? = some call)
    (hfree : s.locked = false ∨ call.Holds) (j : Nat) (other : Call) (hij : j ≠ i)
    (hother : s.calls[j]? = some other) : ¬ other.Holds := by
  intro hholds
  rcases hfree with hfree | hself
  · have htaken := (h.locked j other hother hholds).1
    rw [hfree] at htaken
    cases htaken
  · exact hij ((h.locked i call hcall hself).2 j other hother hholds)

/-- **One orderly step** keeps the invariant. -/
theorem inv_step {act : Act} (h : Inv initial s) (horderly : Orderly s act)
    (hstep : step s act = some s') : Inv initial s' := by
  cases act with
  | call kind key value =>
    unfold step at hstep
    dsimp only at hstep
    split at hstep
    · cases hstep
    · obtain rfl := Option.some.inj hstep
      exact inv_call h _ key value
  | lock i =>
    obtain ⟨call, hcall, hstep⟩ := Option.bind_eq_some_iff.mp hstep
    split at hstep
    · next hkind hphase hfree =>
      obtain rfl := Option.some.inj hstep
      exact h.move hcall h.wellFormed (fun _ => rfl) (.inl (h.alone hcall (.inl hfree)))
        (fun base current hsaving => by cases hsaving)
        (fun hkeys => (h.noneLost hkeys).setPhase hcall (by simp))
    · cases hstep
  | abandon i =>
    obtain ⟨call, hcall, hstep⟩ := Option.bind_eq_some_iff.mp hstep
    split at hstep
    · next hkind hphase =>
      obtain rfl := Option.some.inj hstep
      refine h.move hcall h.wellFormed (fun hholds => ?_)
        (.inl (h.alone hcall (.inr ⟨hkind, .inl hphase⟩)))
        (fun base current hsaving => by cases hsaving)
        (fun hkeys => (h.noneLost hkeys).setPhase hcall (by simp))
      rcases hholds.2 with hreturned | ⟨_, _, hreturned⟩ <;> cases hreturned
    · cases hstep
  | read i fails =>
    obtain ⟨call, hcall, hstep⟩ := Option.bind_eq_some_iff.mp hstep
    have hedited : Edited s.backing call (call.edit s.backing fails) :=
      edited_of_read h.wellFormed horderly
    have hsaving : ∀ base current,
        Phase.saving s.backing (call.edit s.backing fails) = .saving base current →
        Edited base call current ∧ (call.kind = .writeOverride → base = s.backing) := by
      intro base current heq
      obtain ⟨rfl, rfl⟩ := Phase.saving.inj heq
      exact ⟨hedited, fun _ => rfl⟩
    have hlost : (s.calls.map Call.key).Nodup → NoneLost initial
        (s.setPhase i call (.saving s.backing (call.edit s.backing fails))) := fun hkeys =>
      (h.noneLost hkeys).setPhase hcall (by simp)
    split at hstep
    · next hkind hphase =>
      obtain rfl := Option.some.inj hstep
      have hnot : ∀ phase, ¬ Call.Holds { call with phase } := fun phase hholds => by
        rw [holds_setPhase, hkind] at hholds
        cases hholds.1
      exact h.move hcall h.wellFormed (fun hholds => absurd hholds (hnot _))
        (.inr ⟨rfl, rfl, hnot _⟩) hsaving hlost
    · next hkind hphase =>
      obtain rfl := Option.some.inj hstep
      have hholds : call.Holds := ⟨hkind, .inl hphase⟩
      exact h.move hcall h.wellFormed (fun _ => (h.locked i call hcall hholds).1)
        (.inl (h.alone hcall (.inr hholds))) hsaving hlost
    · cases hstep
  | save i fails =>
    obtain ⟨call, hcall, hstep⟩ := Option.bind_eq_some_iff.mp hstep
    have hmem := List.mem_of_getElem? hcall
    -- both kinds save over what is stored, and nobody else has the lock
    obtain ⟨base, current, hphase, hbase, hfree, rfl⟩ : ∃ base current,
        call.phase = .saving base current ∧ base = s.backing ∧ (s.locked = false ∨ call.Holds) ∧
        s' = { s.setPhase i call (.returned !fails) with
          backing := if fails then s.backing else s.backing.save current
          locked := false } := by
      split at hstep
      · next base current hkind hphase hfree =>
        exact ⟨base, current, hphase, (horderly call base current hcall hkind hphase).symm,
          .inl hfree, (Option.some.inj hstep).symm⟩
      · next hkind hphase =>
        exact ⟨_, _, hphase, h.fresh call hmem hkind _ _ hphase,
          .inr ⟨hkind, .inr ⟨_, _, hphase⟩⟩, (Option.some.inj hstep).symm⟩
      · cases hstep
    have hedited := h.edited call hmem base current hphase
    subst hbase
    have hself : ∀ ok, ¬ Call.Holds { call with phase := .returned ok } := by
      intro ok hholds
      rcases hholds.2 with hreturned | ⟨_, _, hreturned⟩ <;> cases hreturned
    cases fails with
    | true =>
      exact h.move hcall h.wellFormed (fun hholds => absurd hholds (hself _))
        (.inl (h.alone hcall hfree)) (fun base current hsaving => by cases hsaving)
        (fun hkeys => (h.noneLost hkeys).setPhase hcall (by simp))
    | false =>
      exact h.move hcall (Backing.wellFormed_save hedited.wellFormed)
        (fun hholds => absurd hholds (hself _)) (.inl (h.alone hcall hfree))
        (fun base current hsaving => by cases hsaving)
        (fun hkeys => (h.noneLost hkeys).save hcall hedited hkeys)

/-! ## The runs -/

/-- **No override is lost** in a run whose steps are all orderly, of calls for distinct keys. -/
theorem noneLost_of_orderly (h : initial.WellFormed) {acts : List Act}
    (horderly : Transition.Along step Orderly (.start initial) acts)
    (hrun : Transition.exec step (.start initial) acts = some s)
    (hkeys : (s.calls.map Call.key).Nodup) : NoneLost initial s :=
  (Transition.exec_invariant_along (fun _ _ _ hs hact hstep => inv_step hs hact hstep)
    (inv_start h) horderly hrun).noneLost hkeys

theorem wellFormed_empty : (Backing.memory []).WellFormed :=
  ⟨List.Pairwise.nil, fun entry hentry => by cases hentry⟩

/-- The value of a toggle. -/
def toggleValue (enabled : Bool) : Value := ⟨.bool enabled, by simp [Json.Ordered]⟩

/-- Two calls one after the other. -/
theorem noneLost_of_sequence : ∃ s, Transition.exec step (.start (.memory []))
    [.call .persistOne "toggle.a" (toggleValue false), .read 0 false, .save 0 false,
      .call .persistOne "toggle.b" (toggleValue false), .read 1 false, .save 1 false] = some s ∧
    NoneLost (.memory []) s := by
  obtain ⟨s, hrun, hkeys⟩ : ∃ s, Transition.exec step (.start (.memory []))
      [.call .persistOne "toggle.a" (toggleValue false), .read 0 false, .save 0 false,
        .call .persistOne "toggle.b" (toggleValue false), .read 1 false, .save 1 false] = some s ∧
      s.calls.map Call.key = ["toggle.a", "toggle.b"] := ⟨_, rfl, rfl⟩
  refine ⟨s, hrun, noneLost_of_orderly wellFormed_empty ?_ hrun (by rw [hkeys]; decide)⟩
  have hsave : ∀ (backing : Backing) (calls : List Call) (i : Nat) (fails : Bool) (call : Call)
      (current : Entries), calls[i]? = some call → call.phase = .saving backing current →
      Orderly { backing, locked := false, calls } (.save i fails) := by
    intro backing calls i fails call current hcall hphase other base current' hother _ hphase'
    obtain rfl : call = other := Option.some.inj (hcall.symm.trans hother)
    exact (Phase.saving.inj (hphase.symm.trans hphase')).1
  refine Transition.along_cons trivial rfl (Transition.along_cons (.inl ⟨rfl, rfl⟩) rfl
    (Transition.along_cons (hsave _ _ 0 _ _ _ rfl rfl) rfl (Transition.along_cons trivial rfl
      (Transition.along_cons (.inl ⟨rfl, rfl⟩) rfl
        (Transition.along_cons (hsave _ _ 1 _ _ _ rfl rfl) rfl trivial)))))

/-- Two calls that both load before either saves: the override of the first is gone. -/
theorem not_noneLost_overlap :
    ¬ ∀ (backing : Backing), backing.WellFormed → ∀ (acts : List Act) (s : State),
      Transition.exec step (.start backing) acts = some s → (s.calls.map Call.key).Nodup →
      NoneLost backing s := by
  intro h
  obtain ⟨s, hrun, hkeys, hcall, hgone⟩ : ∃ s, Transition.exec step (.start (.memory []))
      [.call .persistOne "toggle.a" (toggleValue false),
        .call .persistOne "toggle.b" (toggleValue false),
        .read 0 false, .read 1 false, .save 0 false, .save 1 false] = some s ∧
      s.calls.map Call.key = ["toggle.a", "toggle.b"] ∧
      s.calls[0]? = some { kind := .persistOne, key := "toggle.a", value := toggleValue false
                           phase := .returned true } ∧
      s.backing.stored "toggle.a" = none := ⟨_, rfl, rfl, rfl, rfl⟩
  have hlost := h (.memory []) wellFormed_empty _ s hrun (by rw [hkeys]; decide)
  have hwritten := hlost.written _ (List.mem_of_getElem? hcall) rfl
  rw [hgone] at hwritten
  cases hwritten

end Apcore.Overrides
