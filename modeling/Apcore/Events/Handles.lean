import Mathlib.Data.List.InsertIdx
import Mathlib.Data.List.Nodup
import Apcore.Events.Emitter

/-! # `Events.Handles` — what `unsubscribe_handle` removes

The handle of a registration stands in `handles` where its subscriber stands in `subscribers`. The
two calls that edit both vectors keep it so; the removals by id and by event type edit `subscribers`
alone, and from then on handles stand for other subscribers or for none. -/

namespace Apcore

namespace EmitterLocks

/-- The call reported whether the subscriber of its handle was registered, and removed it and no
other. -/
structure Removal.Exact (r : Removal) : Prop where
  result : r.result = some (r.before.any (·.handle == r.handle))
  after : r.after = r.before.filter (·.handle != r.handle)

/-- The step removes a subscriber and leaves its handle: `unsubscribe_by_id`, where `unsubscribe`
ends too, or `unsubscribe_by_event_type`. -/
def removesUnhandled (s : State) : Label → Bool
  | .call _ _ => false
  | .go t =>
    match s.pc t with
    | .removingById subscriberId => (s.shared.positionOfId subscriberId).isSome
    | .removingByEventType eventType =>
      s.shared.subscribers.any (·.eventTypeFilter == some eventType)
    | _ => false

/-! ## What a thread has under way -/

namespace Pc

/-- The handle of a subscriber that is not in `handles` yet. -/
def ahead : Pc → Option Nat
  | pushing handle => some handle
  | _ => none

/-- The handle that is not in `handles` any more, and the position it had. -/
def cut : Pc → Option (Nat × Nat)
  | handleRemoved handle pos => some (handle, pos)
  | _ => none

/-- The handle `subscribe` is about to return. -/
def unreturned : Pc → Option Nat
  | pushing handle => some handle
  | pushed handle => some handle
  | returning handle => some handle
  | _ => none

/-- The handle `unsubscribe_handle` works on. -/
def wanted : Pc → Option Nat
  | removingHandle handle => some handle
  | handleRemoved handle _ => some handle
  | _ => none

theorem unreturned_of_ahead {pc : Pc} {handle : Nat} (h : pc.ahead = some handle) :
    pc.unreturned = some handle := by
  cases pc
  case pushing => exact h
  all_goals cases h

theorem holds_of_unreturned {pc : Pc} {handle : Nat} (h : pc.unreturned = some handle) :
    (.write, .subscribers) ∈ pc.holds := by
  cases pc
  case pushing => exact List.mem_singleton.mpr rfl
  case pushed => exact List.mem_cons_of_mem _ (List.mem_singleton.mpr rfl)
  case returning => exact List.mem_singleton.mpr rfl
  all_goals cases h

theorem holds_of_cut {pc : Pc} {cut : Nat × Nat} (h : pc.cut = some cut) :
    (.write, .handles) ∈ pc.holds := by
  cases pc
  case handleRemoved => exact List.mem_singleton.mpr rfl
  all_goals cases h

end Pc

/-- The vectors are those of one list of registrations, up to what is under way. -/
structure Vectors (sh : Shared) (ahead : Nat → Option Nat) (cut : Nat → Option (Nat × Nat))
    (live : List Nat) : Prop where
  whole : (∀ t, ahead t = none) → sh.subscribers.map Subscription.handle = live
  ahead : ∀ t handle, ahead t = some handle →
    sh.subscribers.map Subscription.handle = live ++ [handle]
  uncut : (∀ t, cut t = none) → sh.handles = live
  cutAt : ∀ t handle pos, cut t = some (handle, pos) →
    live[pos]? = some handle ∧ sh.handles = live.eraseIdx pos

/-- Handles are given out once, and used when they have been returned. -/
structure Issues (sh : Shared) (unreturned wanted : Nat → Option Nat) : Prop where
  nodup : (sh.subscribers.map Subscription.handle).Nodup
  bound : ∀ s ∈ sh.subscribers, s.handle < sh.nextHandle
  issued : ∀ handle ∈ sh.issued, handle < sh.nextHandle
  unreturned : ∀ t handle, unreturned t = some handle →
    handle < sh.nextHandle ∧ handle ∉ sh.issued
  wanted : ∀ t handle, wanted t = some handle → handle ∈ sh.issued

structure Inv (s : State) (live : List Nat) : Prop where
  owned : RwLocks.Owned Pc.holds s
  vectors : Vectors s.shared (Pc.ahead ∘ s.pc) (Pc.cut ∘ s.pc) live
  issues : Issues s.shared (Pc.unreturned ∘ s.pc) (Pc.wanted ∘ s.pc)
  exact : ∀ r ∈ s.shared.removals, r.Exact

variable {sh : Shared} {live : List Nat} {t handle pos : Nat} {ahead unreturned wanted : Nat → Option Nat}
  {cut : Nat → Option (Nat × Nat)}

/-! ## Positions of handles -/

/-- Where no two elements agree, taking one out by position is filtering it out. -/
theorem eraseIdx_eq_filter {l : List Subscription} (hnodup : (l.map Subscription.handle).Nodup)
    (hpos : (l.map Subscription.handle)[pos]? = some handle) :
    l.eraseIdx pos = l.filter (·.handle != handle) := by
  induction l generalizing pos with
  | nil => rfl
  | cons s rest ih =>
    rw [List.map_cons, List.nodup_cons] at hnodup
    cases pos with
    | zero =>
      obtain rfl : s.handle = handle := by simpa using hpos
      have hkeep : ∀ r ∈ rest, (r.handle != s.handle) = true := by
        intro r hr
        have hne : r.handle ≠ s.handle := by
          intro heq
          exact hnodup.1 (heq ▸ List.mem_map_of_mem hr)
        simp [hne]
      simp [List.filter_eq_self.mpr hkeep]
    | succ pos =>
      have hrest : (rest.map Subscription.handle)[pos]? = some handle := by simpa using hpos
      have hne : s.handle ≠ handle := by
        rintro rfl
        exact hnodup.1 (List.mem_of_getElem? hrest)
      simp [hne, ih hnodup.2 hrest]

theorem any_handle_iff {l : List Subscription} :
    l.any (·.handle == handle) = true ↔ handle ∈ l.map Subscription.handle := by
  simp [List.any_eq_true, List.mem_map]

/-- A subscriber that is not there is not removed. -/
theorem Removal.Exact.missing {l : List Subscription} (h : handle ∉ l.map Subscription.handle) :
    Removal.Exact { handle, result := some false, before := l, after := l } where
  result := by
    have hany : l.any (·.handle == handle) = false := by
      rw [← Bool.not_eq_true, any_handle_iff]
      exact h
    rw [hany]
  after := by
    refine (List.filter_eq_self.mpr fun s hs => ?_).symm
    have hne : s.handle ≠ handle := by
      rintro rfl
      exact h (List.mem_map_of_mem hs)
    simp [hne]

/-- The subscriber at the position of its handle is removed. -/
theorem Removal.Exact.found {l : List Subscription} (hnodup : (l.map Subscription.handle).Nodup)
    (hpos : (l.map Subscription.handle)[pos]? = some handle) :
    Removal.Exact { handle, result := some true, before := l, after := l.eraseIdx pos } where
  result := by
    have hany : l.any (·.handle == handle) = true := any_handle_iff.mpr (List.mem_of_getElem? hpos)
    rw [hany]
  after := eraseIdx_eq_filter hnodup hpos

/-! ## The acts that matter -/

theorem forall_update {α : Type} {P : α → Prop} {f : Nat → Option α} {o : Option α}
    (ho : ∀ a, o = some a → P a) (h : ∀ u a, f u = some a → P a) :
    ∀ u a, Function.update f t o u = some a → P a :=
  (Function.forall_update_iff f fun _ v => ∀ a, v = some a → P a).mpr ⟨ho, fun u _ => h u⟩

/-- What no other thread has under way is gone when this one is done with it. -/
theorem update_none {α : Type} {f : Nat → Option α} (h : ∀ u, u ≠ t → f u = none) (u : Nat) :
    Function.update f t none u = none := by
  by_cases hu : u = t
  · subst hu
    exact Function.update_self ..
  · rw [Function.update_of_ne hu]
    exact h u hu

/-- `subscribe` pushes the subscriber. -/
theorem Vectors.subscribe (h : Vectors sh ahead cut live) (hahead : ∀ u, ahead u = none)
    (subscriberId : String) (eventTypeFilter : Option String) :
    Vectors (sh.pushSubscriber subscriberId eventTypeFilter)
      (Function.update ahead t (some sh.nextHandle)) cut live := by
  have hmap : (sh.pushSubscriber subscriberId eventTypeFilter).subscribers.map Subscription.handle =
      live ++ [sh.nextHandle] := by
    simp [Shared.pushSubscriber, h.whole hahead]
  refine { whole := fun hall => ?_, ahead := fun u n hn => ?_, uncut := h.uncut, cutAt := h.cutAt }
  · have hself := hall t
    rw [Function.update_self] at hself
    cases hself
  · refine forall_update (P := fun n => _ = live ++ [n]) (fun a ha => ?_) (fun v a ha => ?_) u n hn
    · obtain rfl := Option.some.inj ha
      exact hmap
    · rw [hahead v] at ha
      cases ha

theorem Issues.subscribe (h : Issues sh unreturned wanted) (subscriberId : String)
    (eventTypeFilter : Option String) :
    Issues (sh.pushSubscriber subscriberId eventTypeFilter)
      (Function.update unreturned t (some sh.nextHandle)) wanted := by
  refine { nodup := ?_, bound := ?_, issued := ?_, unreturned := ?_, wanted := h.wanted }
  · simp only [Shared.pushSubscriber, List.map_append, List.map_cons, List.map_nil]
    refine List.nodup_append.mpr ⟨h.nodup, List.nodup_singleton _, ?_⟩
    intro n hn m hm heq
    obtain ⟨s, hs, rfl⟩ := List.mem_map.mp hn
    obtain rfl := List.mem_singleton.mp hm
    exact Nat.lt_irrefl _ (heq ▸ h.bound s hs)
  · intro s hs
    rcases List.mem_append.mp hs with hs | hs
    · exact Nat.lt_succ_of_lt (h.bound s hs)
    · obtain rfl := List.mem_singleton.mp hs
      exact Nat.lt_succ_self _
  · exact fun n hn => Nat.lt_succ_of_lt (h.issued n hn)
  · refine forall_update (fun n hn => ?_) fun u n hn => ?_
    · obtain rfl := Option.some.inj hn
      exact ⟨Nat.lt_succ_self _, fun hmem => Nat.lt_irrefl _ (h.issued _ hmem)⟩
    · obtain ⟨hlt, hnot⟩ := h.unreturned u n hn
      exact ⟨Nat.lt_succ_of_lt hlt, hnot⟩

/-- `subscribe` pushes the handle: the registration is in both vectors. -/
theorem Vectors.push (h : Vectors sh ahead cut live) (hself : ahead t = some handle)
    (hother : ∀ u, u ≠ t → ahead u = none) (hcut : ∀ u, cut u = none) :
    Vectors (sh.pushHandle handle) (Function.update ahead t none) cut (live ++ [handle]) := by
  refine { whole := fun _ => h.ahead t handle hself, ahead := fun u n hn => ?_,
           uncut := fun _ => ?_, cutAt := fun u n p hn => ?_ }
  · rw [update_none hother u] at hn
    cases hn
  · show sh.handles ++ [handle] = live ++ [handle]
    rw [h.uncut hcut]
  · rw [hcut u] at hn
    cases hn

/-- `subscribe` returns the handle. -/
theorem Issues.issue (h : Issues sh unreturned wanted) (hself : unreturned t = some handle)
    (hother : ∀ u, u ≠ t → unreturned u = none) :
    Issues (sh.issue handle) (Function.update unreturned t none) wanted := by
  refine { nodup := h.nodup, bound := h.bound, issued := ?_, unreturned := fun u n hn => ?_,
           wanted := fun u n hn => List.mem_append_left _ (h.wanted u n hn) }
  · intro n hn
    rcases List.mem_append.mp hn with hn | hn
    · exact h.issued n hn
    · obtain rfl := List.mem_singleton.mp hn
      exact (h.unreturned t n hself).1
  · rw [update_none hother u] at hn
    cases hn

/-- `unsubscribe_handle` takes out the handle. -/
theorem Vectors.cutHandle (h : Vectors sh ahead cut live) (hcut : ∀ u, cut u = none)
    (hfind : sh.handles.findIdx? (· == handle) = some pos) :
    Vectors (sh.cutHandle pos) ahead (Function.update cut t (some (handle, pos))) live := by
  have hlive : sh.handles = live := h.uncut hcut
  have hpos : live[pos]? = some handle := by
    obtain ⟨hlt, heq, -⟩ := List.findIdx?_eq_some_iff_getElem.mp hfind
    subst hlive
    rw [List.getElem?_eq_getElem hlt]
    exact congrArg some (by simpa using heq)
  refine { whole := h.whole, ahead := h.ahead, uncut := fun hall => ?_, cutAt := fun u n p hn => ?_ }
  · have hself := hall t
    rw [Function.update_self] at hself
    cases hself
  · refine forall_update (P := fun c : Nat × Nat => live[c.2]? = some c.1 ∧
      (sh.cutHandle pos).handles = live.eraseIdx c.2) (fun c hc => ?_) (fun v c hc => ?_) u (n, p) hn
    · obtain rfl := Option.some.inj hc
      exact ⟨hpos, congrArg (List.eraseIdx · pos) hlive⟩
    · rw [hcut v] at hc
      cases hc

/-- `unsubscribe_handle` takes out the subscriber: the registration is in neither vector. -/
theorem Vectors.remove (h : Vectors sh ahead cut live) (hahead : ∀ u, ahead u = none)
    (hself : cut t = some (handle, pos)) (hother : ∀ u, u ≠ t → cut u = none)
    (result : Option Bool) :
    Vectors (sh.finish handle result (sh.subscribers.eraseIdx pos)) ahead
      (Function.update cut t none) (live.eraseIdx pos) := by
  obtain ⟨-, hhandles⟩ := h.cutAt t handle pos hself
  refine { whole := fun _ => ?_, ahead := fun u n hn => ?_, uncut := fun _ => hhandles,
           cutAt := fun u n p hn => ?_ }
  · show (sh.subscribers.eraseIdx pos).map Subscription.handle = live.eraseIdx pos
    rw [← List.eraseIdx_map, h.whole hahead]
  · rw [hahead u] at hn
    cases hn
  · rw [update_none hother u] at hn
    cases hn

theorem Issues.finish (h : Issues sh unreturned wanted) {after : List Subscription}
    (hafter : after.Sublist sh.subscribers) (result : Option Bool) :
    Issues (sh.finish handle result after) unreturned (Function.update wanted t none) where
  nodup := (hafter.map Subscription.handle).nodup h.nodup
  bound := fun s hs => h.bound s (hafter.subset hs)
  issued := h.issued
  unreturned := h.unreturned
  wanted := forall_update (fun n hn => by cases hn) h.wanted

/-! ## Steps -/

section Steps

variable {s s' : State}

/-- Of a lock that can be taken to write, nobody has anything under way. -/
theorem none_of_free {α : Type} {f : Pc → Option α} {lock : Lock}
    (hf : ∀ {pc a}, f pc = some a → (.write, lock) ∈ pc.holds) (hown : RwLocks.Owned Pc.holds s)
    (hfree : s.grants lock .write = true) (u : Nat) : f (s.pc u) = none := by
  cases hu : f (s.pc u) with
  | none => rfl
  | some a => exact absurd (hf hu) (hown.free hfree u .write)

/-- Of a lock that a thread has to write, no other thread has anything under way. -/
theorem none_of_holds {α : Type} {f : Pc → Option α} {lock : Lock}
    (hf : ∀ {pc a}, f pc = some a → (.write, lock) ∈ pc.holds) (hown : RwLocks.Owned Pc.holds s)
    (hself : (.write, lock) ∈ (s.pc t).holds) (u : Nat) (hu : u ≠ t) : f (s.pc u) = none := by
  cases hf' : f (s.pc u) with
  | none => rfl
  | some a => exact absurd (hown.exclusive hself (hf hf')).1.symm hu

theorem grants_of_perform {mode : RwLocks.Mode} {lock : Lock} {sh' : Shared} {pc' : Pc}
    (h : s.perform t (.acquire mode lock sh' pc') = some s') : s.grants lock mode = true := by
  rw [RwLocks.State.perform] at h
  split_ifs at h with hgrants
  exact hgrants

theorem comp_update_same {α : Type} {f : Pc → Option α} {pc' : Pc} (h : f pc' = f (s.pc t)) :
    f ∘ Function.update s.pc t pc' = f ∘ s.pc := by
  rw [Function.comp_update, h]
  exact Function.update_eq_self t (f ∘ s.pc)

/-- The invariant after an act, from what the act leaves. -/
theorem Inv.of_act {act : RwLocks.Act Lock Shared Pc} (hown : RwLocks.Owned Pc.holds s')
    (hperform : s.perform t act = some s')
    (hvectors : Vectors act.shared (Pc.ahead ∘ Function.update s.pc t act.target)
      (Pc.cut ∘ Function.update s.pc t act.target) live)
    (hissues : Issues act.shared (Pc.unreturned ∘ Function.update s.pc t act.target)
      (Pc.wanted ∘ Function.update s.pc t act.target))
    (hexact : ∀ r ∈ act.shared.removals, r.Exact) : Inv s' live := by
  obtain ⟨hsh, hpc⟩ := RwLocks.perform_eq hperform
  rw [← hsh, ← hpc] at hvectors hissues
  rw [← hsh] at hexact
  exact { owned := hown, vectors := hvectors, issues := hissues, exact := hexact }

/-- An act that touches neither the vectors nor the handles that are out. -/
theorem Inv.of_frame {act : RwLocks.Act Lock Shared Pc} (h : Inv s live)
    (hown : RwLocks.Owned Pc.holds s') (hperform : s.perform t act = some s')
    (hsh : act.shared = s.shared) (hahead : act.target.ahead = (s.pc t).ahead)
    (hcut : act.target.cut = (s.pc t).cut)
    (hunreturned : act.target.unreturned = (s.pc t).unreturned)
    (hwanted : act.target.wanted = (s.pc t).wanted) : Inv s' live := by
  refine .of_act hown hperform ?_ ?_ ?_
  · rw [comp_update_same hahead, comp_update_same hcut, hsh]
    exact h.vectors
  · rw [comp_update_same hunreturned, comp_update_same hwanted, hsh]
    exact h.issues
  · rw [hsh]
    exact h.exact

theorem removeById_eq_self {subscriberId : String} (h : (sh.positionOfId subscriberId).isSome = false) :
    sh.removeById subscriberId = sh := by
  have hnone : sh.positionOfId subscriberId = none := by simpa using h
  rw [Shared.removeById, hnone]

theorem retainOtherTypes_eq_self {eventType : String}
    (h : (sh.subscribers.any (·.eventTypeFilter == some eventType)) = false) :
    sh.retainOtherTypes eventType = sh := by
  have hkeep : (sh.subscribers.filter fun s => s.eventTypeFilter.all (· != eventType)) =
      sh.subscribers := by
    refine List.filter_eq_self.mpr fun s hs => ?_
    have hne : s.eventTypeFilter ≠ some eventType := by
      have hnot := List.any_eq_false.mp h s hs
      simpa using hnot
    cases hfilter : s.eventTypeFilter with
    | none => rfl
    | some ty =>
      rw [hfilter] at hne
      simpa using hne
  rw [Shared.retainOtherTypes, hkeep]

theorem Inv.subscribing (h : Inv s live) (hown : RwLocks.Owned Pc.holds s') {subscriberId : String}
    {eventTypeFilter : Option String} (hpc : s.pc t = .subscribing subscriberId eventTypeFilter)
    (hperform : s.perform t (.acquire .write .subscribers
      (s.shared.pushSubscriber subscriberId eventTypeFilter) (.pushing s.shared.nextHandle)) =
        some s') : Inv s' live := by
  have hfree := grants_of_perform hperform
  have hahead := none_of_free (f := Pc.ahead)
    (fun ha => Pc.holds_of_unreturned (Pc.unreturned_of_ahead ha)) h.owned hfree
  refine .of_act hown hperform ?_ ?_ h.exact
  · rw [Function.comp_update, comp_update_same (f := Pc.cut) (by rw [hpc]; rfl)]
    exact h.vectors.subscribe hahead _ _
  · rw [Function.comp_update, comp_update_same (f := Pc.wanted) (by rw [hpc]; rfl)]
    exact h.issues.subscribe _ _

theorem Inv.pushing (h : Inv s live) (hown : RwLocks.Owned Pc.holds s')
    (hpc : s.pc t = .pushing handle)
    (hperform : s.perform t (.acquire .write .handles (s.shared.pushHandle handle)
      (.pushed handle)) = some s') : Inv s' (live ++ [handle]) := by
  have hcut := none_of_free (f := Pc.cut) Pc.holds_of_cut h.owned (grants_of_perform hperform)
  have hself : (.write, .subscribers) ∈ (s.pc t).holds := by
    rw [hpc]
    exact List.mem_singleton.mpr rfl
  have hother := none_of_holds (f := Pc.ahead)
    (fun ha => Pc.holds_of_unreturned (Pc.unreturned_of_ahead ha)) h.owned hself
  refine .of_act hown hperform ?_ ?_ h.exact
  · rw [Function.comp_update, comp_update_same (f := Pc.cut) (by rw [hpc]; rfl)]
    exact h.vectors.push (by rw [Function.comp_apply, hpc]; rfl) hother hcut
  · rw [comp_update_same (f := Pc.unreturned) (by rw [hpc]; rfl),
      comp_update_same (f := Pc.wanted) (by rw [hpc]; rfl)]
    exact { h.issues with }

theorem Inv.returning (h : Inv s live) (hown : RwLocks.Owned Pc.holds s')
    (hpc : s.pc t = .returning handle)
    (hperform : s.perform t (.release .write .subscribers (s.shared.issue handle) .idle) =
      some s') : Inv s' live := by
  have hself : (.write, .subscribers) ∈ (s.pc t).holds := by
    rw [hpc]
    exact List.mem_singleton.mpr rfl
  refine .of_act hown hperform ?_ ?_ h.exact
  · rw [comp_update_same (f := Pc.ahead) (by rw [hpc]; rfl),
      comp_update_same (f := Pc.cut) (by rw [hpc]; rfl)]
    exact { h.vectors with }
  · rw [Function.comp_update, comp_update_same (f := Pc.wanted) (by rw [hpc]; rfl)]
    exact h.issues.issue (by rw [Function.comp_apply, hpc]; rfl)
      (none_of_holds (f := Pc.unreturned) Pc.holds_of_unreturned h.owned hself)

/-- A handle that is not found is that of no subscriber. -/
theorem Inv.missing (h : Inv s live) (hown : RwLocks.Owned Pc.holds s')
    (hpc : s.pc t = .removingHandle handle)
    (hfind : s.shared.handles.findIdx? (· == handle) = none)
    (hperform : s.perform t (.acquire .write .handles
      (s.shared.finish handle (some false) s.shared.subscribers) (.releasing [.handles])) =
        some s') : Inv s' live := by
  have hcut := none_of_free (f := Pc.cut) Pc.holds_of_cut h.owned (grants_of_perform hperform)
  have hlive : handle ∉ live := by
    rw [← h.vectors.uncut hcut]
    intro hmem
    have hnot := List.findIdx?_eq_none_iff.mp hfind handle hmem
    simp at hnot
  have hissued : handle ∈ s.shared.issued :=
    h.issues.wanted t handle (by rw [Function.comp_apply, hpc]; rfl)
  have hmissing : handle ∉ s.shared.subscribers.map Subscription.handle := by
    by_cases hahead : ∀ u, (s.pc u).ahead = none
    · rw [h.vectors.whole hahead]
      exact hlive
    · -- the subscriber that is in one vector only has a handle that nobody has seen
      obtain ⟨u, hu⟩ := not_forall.mp hahead
      obtain ⟨n, hn⟩ := Option.ne_none_iff_exists'.mp hu
      rw [h.vectors.ahead u n hn]
      have hunseen := (h.issues.unreturned u n (Pc.unreturned_of_ahead hn)).2
      intro hmem
      rcases List.mem_append.mp hmem with hmem | hmem
      · exact hlive hmem
      · obtain rfl := List.mem_singleton.mp hmem
        exact hunseen hissued
  refine .of_act hown hperform ?_ ?_ ?_
  · rw [comp_update_same (f := Pc.ahead) (by rw [hpc]; rfl),
      comp_update_same (f := Pc.cut) (by rw [hpc]; rfl)]
    exact { h.vectors with }
  · rw [comp_update_same (f := Pc.unreturned) (by rw [hpc]; rfl), Function.comp_update]
    exact h.issues.finish (List.Sublist.refl _) _
  · intro r hr
    rcases List.mem_append.mp hr with hr | hr
    · exact h.exact r hr
    · obtain rfl := List.mem_singleton.mp hr
      exact .missing hmissing

theorem Inv.found (h : Inv s live) (hown : RwLocks.Owned Pc.holds s')
    (hpc : s.pc t = .removingHandle handle)
    (hfind : s.shared.handles.findIdx? (· == handle) = some pos)
    (hperform : s.perform t (.acquire .write .handles (s.shared.cutHandle pos)
      (.handleRemoved handle pos)) = some s') : Inv s' live := by
  have hcut := none_of_free (f := Pc.cut) Pc.holds_of_cut h.owned (grants_of_perform hperform)
  refine .of_act hown hperform ?_ ?_ h.exact
  · rw [comp_update_same (f := Pc.ahead) (by rw [hpc]; rfl), Function.comp_update]
    exact h.vectors.cutHandle hcut hfind
  · rw [comp_update_same (f := Pc.unreturned) (by rw [hpc]; rfl),
      comp_update_same (f := Pc.wanted) (by rw [hpc]; rfl)]
    exact { h.issues with }

/-- The position is that of the subscriber. -/
theorem Inv.position (h : Inv s live) (hpc : s.pc t = .handleRemoved handle pos)
    (hfree : s.grants .subscribers .write = true) :
    (s.shared.subscribers.map Subscription.handle)[pos]? = some handle := by
  have hahead := none_of_free (f := Pc.ahead)
    (fun ha => Pc.holds_of_unreturned (Pc.unreturned_of_ahead ha)) h.owned hfree
  rw [h.vectors.whole hahead]
  exact (h.vectors.cutAt t handle pos (by rw [Function.comp_apply, hpc]; rfl)).1

theorem Inv.removed (h : Inv s live) (hown : RwLocks.Owned Pc.holds s')
    (hpc : s.pc t = .handleRemoved handle pos)
    (hperform : s.perform t (.acquire .write .subscribers
      (s.shared.finish handle (some true) (s.shared.subscribers.eraseIdx pos))
      (.releasing [.subscribers, .handles])) = some s') : Inv s' (live.eraseIdx pos) := by
  have hfree := grants_of_perform hperform
  have hahead := none_of_free (f := Pc.ahead)
    (fun ha => Pc.holds_of_unreturned (Pc.unreturned_of_ahead ha)) h.owned hfree
  have hself : (.write, .handles) ∈ (s.pc t).holds := by
    rw [hpc]
    exact List.mem_singleton.mpr rfl
  refine .of_act hown hperform ?_ ?_ ?_
  · rw [comp_update_same (f := Pc.ahead) (by rw [hpc]; rfl), Function.comp_update]
    exact h.vectors.remove hahead (by rw [Function.comp_apply, hpc]; rfl)
      (none_of_holds (f := Pc.cut) Pc.holds_of_cut h.owned hself) _
  · rw [comp_update_same (f := Pc.unreturned) (by rw [hpc]; rfl), Function.comp_update]
    exact h.issues.finish (List.eraseIdx_sublist _ _) _
  · intro r hr
    rcases List.mem_append.mp hr with hr | hr
    · exact h.exact r hr
    · obtain rfl := List.mem_singleton.mp hr
      exact .found h.issues.nodup (h.position hpc hfree)

/-- What a call begins with, and that `unsubscribe_handle` is called with a handle that is out. -/
theorem begin_view (sh : Shared) (c : Call) : (begin c).ahead = none ∧ (begin c).cut = none ∧
    (begin c).unreturned = none ∧
    ∀ n, (begin c).wanted = some n → c.known sh = true → n ∈ sh.issued := by
  cases c
  case unsubscribeHandle m =>
    refine ⟨rfl, rfl, rfl, fun n hn hknown => ?_⟩
    obtain rfl : m = n := Option.some.inj hn
    exact List.contains_iff_mem.mp hknown
  case unsubscribe subscriberId =>
    simp only [begin]
    split_ifs <;> exact ⟨rfl, rfl, rfl, fun _ hn => (by cases hn)⟩
  all_goals exact ⟨rfl, rfl, rfl, fun _ hn => (by cases hn)⟩

theorem Inv.call {c : Call} (h : Inv s live) (hstep : step s (.call t c) = some s') : Inv s' live := by
  have hown := owned_step h.owned hstep
  have hknown : c.known s.shared = true := by
    rw [step] at hstep
    split_ifs at hstep with hguard
    exact hguard.2
  obtain ⟨hidle, rfl⟩ := step_call hstep
  obtain ⟨hahead, hcut, hunreturned, hwanted⟩ := begin_view s.shared c
  refine { owned := hown, vectors := ?_, issues := ?_, exact := h.exact }
  · show Vectors s.shared (Pc.ahead ∘ Function.update s.pc t (begin c))
      (Pc.cut ∘ Function.update s.pc t (begin c)) live
    rw [comp_update_same (f := Pc.ahead) (by rw [hidle, hahead]; rfl),
      comp_update_same (f := Pc.cut) (by rw [hidle, hcut]; rfl)]
    exact h.vectors
  · show Issues s.shared (Pc.unreturned ∘ Function.update s.pc t (begin c))
      (Pc.wanted ∘ Function.update s.pc t (begin c))
    rw [comp_update_same (f := Pc.unreturned) (by rw [hidle, hunreturned]; rfl),
      Function.comp_update]
    refine { h.issues with wanted := ?_ }
    exact forall_update (fun n hn => hwanted n hn hknown) h.issues.wanted

/-- Every step that leaves no handle without its subscriber keeps the vectors together. -/
theorem Inv.go (h : Inv s live) (hok : removesUnhandled s (.go t) = false)
    (hstep : step s (.go t) = some s') : ∃ live', Inv s' live' := by
  have hown := owned_step h.owned hstep
  obtain ⟨act, hnext, hperform⟩ := step_go hstep
  rw [removesUnhandled] at hok
  cases hpc : s.pc t <;> rw [hpc] at hnext hok
  case idle => cases hnext
  case subscribing =>
    cases hnext
    exact ⟨_, h.subscribing hown hpc hperform⟩
  case pushing =>
    cases hnext
    exact ⟨_, h.pushing hown hpc hperform⟩
  case returning =>
    cases hnext
    exact ⟨_, h.returning hown hpc hperform⟩
  case removingHandle handle =>
    simp only [next] at hnext
    cases hfind : s.shared.handles.findIdx? (· == handle) with
    | none =>
      rw [hfind] at hnext
      cases hnext
      exact ⟨_, h.missing hown hpc hfind hperform⟩
    | some pos =>
      rw [hfind] at hnext
      cases hnext
      exact ⟨_, h.found hown hpc hfind hperform⟩
  case handleRemoved handle pos =>
    simp only [next] at hnext
    split_ifs at hnext with hlt
    · cases hnext
      exact ⟨_, h.removed hown hpc hperform⟩
    · cases hnext
      -- the position is in the vector
      have hpos := h.position hpc (grants_of_perform hperform)
      obtain ⟨hlt', -⟩ := List.getElem?_eq_some_iff.mp hpos
      rw [List.length_map] at hlt'
      exact absurd hlt' hlt
  case removingById subscriberId =>
    cases hnext
    exact ⟨_, h.of_frame hown hperform (removeById_eq_self hok) (by rw [hpc]; rfl)
      (by rw [hpc]; rfl) (by rw [hpc]; rfl) (by rw [hpc]; rfl)⟩
  case removingByEventType eventType =>
    cases hnext
    exact ⟨_, h.of_frame hown hperform (retainOtherTypes_eq_self hok) (by rw [hpc]; rfl)
      (by rw [hpc]; rfl) (by rw [hpc]; rfl) (by rw [hpc]; rfl)⟩
  case snapshotTaken tracks =>
    cases hnext
    cases tracks <;> exact ⟨_, h.of_frame hown hperform rfl (by rw [hpc]; rfl) (by rw [hpc]; rfl)
      (by rw [hpc]; rfl) (by rw [hpc]; rfl)⟩
  case taken unfinished =>
    cases hnext
    cases unfinished <;> exact ⟨_, h.of_frame hown hperform rfl (by rw [hpc]; rfl)
      (by rw [hpc]; rfl) (by rw [hpc]; rfl) (by rw [hpc]; rfl)⟩
  case releasing locks =>
    cases locks with
    | nil => cases hnext
    | cons lock rest =>
      cases hnext
      cases rest <;> exact ⟨_, h.of_frame hown hperform rfl (by rw [hpc]; rfl) (by rw [hpc]; rfl)
        (by rw [hpc]; rfl) (by rw [hpc]; rfl)⟩
  all_goals
    cases hnext
    exact ⟨_, h.of_frame hown hperform rfl (by rw [hpc]; rfl) (by rw [hpc]; rfl) (by rw [hpc]; rfl)
      (by rw [hpc]; rfl)⟩

theorem Inv.init : Inv init [] where
  owned := owned_init
  vectors :=
    { whole := fun _ => rfl
      ahead := fun _ _ hn => by cases hn
      uncut := fun _ => rfl
      cutAt := fun _ _ _ hn => by cases hn }
  issues :=
    { nodup := List.nodup_nil
      bound := fun _ hs => by cases hs
      issued := fun _ hn => by cases hn
      unreturned := fun _ _ hn => by cases hn
      wanted := fun _ _ hn => by cases hn }
  exact := fun _ hr => by cases hr

/-- **While the removals by id and by event type find nothing, handles are exact**: in every run,
whatever calls overlap, every `unsubscribe_handle` returns whether the subscriber of its handle is
registered, removes that one and no other, and does not panic. -/
theorem unsubscribeHandle_exact {ls : List Label} (hrun : Transition.exec step EmitterLocks.init ls = some s)
    (hok : Transition.Along step (fun s l => removesUnhandled s l = false) EmitterLocks.init ls) :
    ∀ r ∈ s.shared.removals, r.Exact := by
  have hinv : ∃ live, Inv s live := by
    refine Transition.exec_invariant_along (I := fun s => ∃ live, Inv s live) ?_ ⟨[], Inv.init⟩ hok hrun
    rintro m l m' ⟨live, h⟩ hl hstep
    cases l with
    | call t c => exact ⟨live, h.call hstep⟩
    | go t => exact h.go hl hstep
  obtain ⟨live, h⟩ := hinv
  exact h.exact

end Steps

/-! ## Runs -/

/-- Two registrations. -/
def subscribeTwo : List Label :=
  callRun 0 (.subscribe "audit" none) 4 ++ callRun 0 (.subscribe "cache" none) 4

/-- The first of two goes by its handle, which is good for nothing from then on. -/
def unsubscribeTwice : List Label :=
  subscribeTwo ++ (callRun 1 (.unsubscribeHandle 0) 4 ++ callRun 1 (.unsubscribeHandle 0) 2)

theorem unsubscribeHandle_exact_twice :
    ∃ s, Transition.exec step init unsubscribeTwice = some s ∧
      s.shared.removals.map Removal.result = [some true, some false] ∧
      ∀ r ∈ s.shared.removals, r.Exact :=
  ⟨_, rfl, rfl, @unsubscribeHandle_exact _ unsubscribeTwice rfl (by decide)⟩

/-- `unsubscribe_by_id` has removed the first of two: its handle reports a removal, and removes the
second. -/
theorem unsubscribeHandle_inexact :
    ∃ s, Transition.exec step init (subscribeTwo ++ (callRun 1 (.unsubscribeById "audit") 2 ++
        callRun 1 (.unsubscribeHandle 0) 4)) = some s ∧
      ¬∀ r ∈ s.shared.removals, r.Exact := by
  refine ⟨_, rfl, fun hall => ?_⟩
  have hresult := (hall _ List.mem_cons_self).result
  revert hresult
  decide

/-- With nobody left its handle makes the call panic. -/
example : ((Transition.exec step init (callRun 0 (.subscribe "audit" none) 4 ++
    (callRun 1 (.unsubscribeById "audit") 2 ++ callRun 1 (.unsubscribeHandle 0) 4))).map
      fun s => s.shared.removals.map Removal.result) = some [none] := by
  decide

end EmitterLocks

end Apcore
