import Apcore.Lib.Transition
import Apcore.Middleware.Retry

/-! # `Middleware.RetryTree` — the budgets of the calls of one tree

The contexts of a tree of calls share one data map, and `RetryMiddleware` keeps one counter there for
each module id. A call has a budget of its own as long as the counter it finds is one that it has
written itself, or none. An `on_error` that grants a retry sleeps between its look at the counter and
its write, and the hooks of other calls may come in between. -/

namespace Apcore

variable {σ : Type}

namespace RetryMiddleware

open Transition

/-! ## Hooks -/

/-- A call the hooks are run for. -/
structure HookCall where
  moduleId : String
  ctx : Context

/-- A tree of calls. `granted` and `writer` are not in the program: the retries that a call has been
granted, and the call that has written the counter of a module last. -/
structure RetryTree (σ : Type) where
  root : Context
  world : World σ
  calls : List HookCall
  /-- The count that an `on_error` has found, which now sleeps. -/
  sleeping : Nat → Option Nat
  granted : Nat → Nat
  writer : String → Option Nat

/-- The tree before its first call. -/
def RetryTree.start (root : Context) (w : World σ) : RetryTree σ where
  root := root
  world := w
  calls := []
  sleeping := fun _ => none
  granted := fun _ => 0
  writer := fun _ => none

inductive HookEvent where
  /-- A call begins, under the root or under another call. -/
  | opens (parent : Option Nat) (moduleId : String)
  /-- `on_error` up to its sleep; the rest of it; or it is dropped while it sleeps. -/
  | fails (c : Nat) (error : ModuleError)
  | wakes (c : Nat)
  | drops (c : Nat)
  /-- `after`. -/
  | succeeds (c : Nat)

namespace RetryTree

/-- The counter of a module. -/
def counter (s : RetryTree σ) (moduleId : String) : Nat := retryCount s.world s.root moduleId

def step (mw : RetryMiddleware σ) (s : RetryTree σ) : HookEvent → Option (RetryTree σ)
  | .opens none moduleId => some { s with calls := s.calls ++ [⟨moduleId, s.root.child moduleId⟩] }
  | .opens (some parent) moduleId =>
    (s.calls[parent]?).map fun call =>
      { s with calls := s.calls ++ [⟨moduleId, call.ctx.child moduleId⟩] }
  | .fails c error =>
    match s.calls[c]?, s.sleeping c with
    | some call, none =>
      if mw.grants call.moduleId error call.ctx s.world then
        some { s with
          sleeping :=
            Function.update s.sleeping c (some (retryCount s.world call.ctx call.moduleId)) }
      else some s
    | _, _ => none
  | .wakes c =>
    match s.calls[c]?, s.sleeping c with
    | some call, some count =>
      some { s with
        world := setRetryCount call.ctx call.moduleId (count + 1) s.world
        sleeping := Function.update s.sleeping c none
        granted := Function.update s.granted c (s.granted c + 1)
        writer := Function.update s.writer call.moduleId (some c) }
    | _, _ => none
  | .drops c => some { s with sleeping := Function.update s.sleeping c none }
  | .succeeds c =>
    match s.calls[c]?, s.sleeping c with
    | some call, none =>
      some { s with
        world := (mw.toMiddleware.after call.moduleId .null .null call.ctx s.world).world
        writer := Function.update s.writer call.moduleId none }
    | _, _ => none

/-- An `on_error` that asks for the counter finds the one that the call has written itself; or none, and
the call has been granted no retry yet. -/
def counterIsOwn (s : RetryTree σ) : HookEvent → Bool
  | .fails c error =>
    (s.calls[c]?).all fun call =>
      error.retryable != some true || s.writer call.moduleId == some c ||
        (s.granted c == 0 &&
          (Fields.get? (s.world.data call.ctx.data) (retryCountKey call.moduleId)).isNone)
  | _ => true

/-- A retry is granted exactly when the error is retryable and the call has some of its budget left. -/
def Right (mw : RetryMiddleware σ) (s : RetryTree σ) : HookEvent → Prop
  | .fails c error => ∀ call, s.calls[c]? = some call →
    (mw.grants call.moduleId error call.ctx s.world = true ↔
      error.retryable = some true ∧ s.granted c < mw.config.maxRetries)
  | _ => True

end RetryTree

/-! ## Counters -/

section Counter

variable {w : World σ} {ctx : Context} {moduleId moduleId' : String} {count : Nat}

theorem retryCountKey_injective (h : retryCountKey moduleId = retryCountKey moduleId') :
    moduleId = moduleId' :=
  (String.append_right_inj ("_apcore.mw.retry.count" ++ ".")).mp h

/-- The counter is read off the data map of the context only. -/
theorem retryCount_congr {ctx' : Context} (h : ctx'.data = ctx.data) :
    retryCount w ctx' moduleId = retryCount w ctx moduleId := by
  rw [retryCount, h, retryCount]

theorem data_writeData (cell : Nat) (map : List (String × Json)) :
    (w.writeData cell map).data cell = map :=
  Function.update_self ..

/-- A count that a `u32` can hold is read as it was written. -/
theorem retryCount_setRetryCount (h : count < 2 ^ 32) :
    retryCount (setRetryCount ctx moduleId count w) ctx moduleId = count := by
  have hnat : (UInt64.ofNat count).toNat = count := by
    rw [UInt64.toNat_ofNat']
    exact Nat.mod_eq_of_lt (by omega)
  rw [retryCount, setRetryCount, data_writeData, Fields.get?_insert_self, Option.bind_some,
    ModuleError.countJson, asI64, hnat, if_pos (by omega), Option.bind_some, asU32, if_pos (by omega)]
  rfl

theorem retryCount_setRetryCount_ne (h : moduleId' ≠ moduleId) :
    retryCount (setRetryCount ctx moduleId count w) ctx moduleId' = retryCount w ctx moduleId' := by
  rw [retryCount, setRetryCount, data_writeData,
    Fields.get?_insert_ne fun hkey => h (retryCountKey_injective hkey), retryCount]

/-- `after` takes the counter of the module out of the map, and no other one. -/
theorem retryCount_after_ne (mw : RetryMiddleware σ) (h : moduleId' ≠ moduleId) (inputs output : Json) :
    retryCount (mw.toMiddleware.after moduleId inputs output ctx w).world ctx moduleId' =
      retryCount w ctx moduleId' := by
  have hworld : (mw.toMiddleware.after moduleId inputs output ctx w).world =
      w.writeData ctx.data (Fields.erase (w.data ctx.data) (retryCountKey moduleId)) := rfl
  rw [hworld, retryCount, data_writeData,
    Fields.get?_erase_ne _ fun hkey => h (retryCountKey_injective hkey), retryCount]

end Counter

/-! ## Runs -/

namespace RetryTree

/-- The calls share the data map of the root; a sleeping `on_error` has found the count of its call, and
so has whoever looks at a counter that a call has written last. -/
structure Inv (mw : RetryMiddleware σ) (s : RetryTree σ) : Prop where
  data : ∀ (c : Nat) (call : HookCall), s.calls[c]? = some call → call.ctx.data = s.root.data
  sleeping : ∀ c count, s.sleeping c = some count →
    count = s.granted c ∧ count < mw.config.maxRetries
  writer : ∀ moduleId c, s.writer moduleId = some c →
    (∃ call, s.calls[c]? = some call ∧ call.moduleId = moduleId) ∧
      s.counter moduleId = s.granted c

theorem inv_start (mw : RetryMiddleware σ) (root : Context) (w : World σ) : Inv mw (start root w) where
  data := fun _ _ h => (by cases h)
  sleeping := fun _ _ h => (by cases h)
  writer := fun _ _ h => (by cases h)

namespace Inv

variable {mw : RetryMiddleware σ} {s : RetryTree σ} {c : Nat} {call : HookCall}

/-- The counter that a call reads is that of its module in the tree. -/
theorem retryCount_eq (h : Inv mw s) (hcall : s.calls[c]? = some call) (moduleId : String) :
    retryCount s.world call.ctx moduleId = s.counter moduleId :=
  retryCount_congr (h.data c call hcall)

/-- **The counter that is the call's own counts its retries.** -/
theorem counter_eq (h : Inv mw s) (hcall : s.calls[c]? = some call) {error : ModuleError}
    (hretryable : error.retryable = some true) (hown : s.counterIsOwn (.fails c error) = true) :
    s.counter call.moduleId = s.granted c := by
  simp only [counterIsOwn, hcall, Option.all_some, hretryable, bne_self_eq_false, Bool.false_or,
    Bool.or_eq_true, beq_iff_eq, Bool.and_eq_true, Option.isNone_iff_eq_none] at hown
  rcases hown with hwriter | ⟨hgranted, hnone⟩
  · exact (h.writer call.moduleId c hwriter).2
  · rw [hgranted, ← h.retryCount_eq hcall, retryCount, hnone]
    rfl

theorem right (h : Inv mw s) {event : HookEvent} (hown : s.counterIsOwn event = true) :
    Right mw s event := by
  cases event with
  | fails c error =>
    intro call hcall
    rw [grants, Bool.and_eq_true, beq_iff_eq, decide_eq_true_eq]
    refine and_congr_right fun hretryable => ?_
    rw [h.retryCount_eq hcall, h.counter_eq hcall hretryable hown]
  | _ => trivial

/-- A call begins. -/
theorem opens (h : Inv mw s) (hdata : call.ctx.data = s.root.data) :
    Inv mw { s with calls := s.calls ++ [call] } where
  data := by
    intro c call' hcall
    rcases List.mem_append.mp (List.mem_of_getElem? hcall) with hold | hnew
    · obtain ⟨c', hc'⟩ := List.mem_iff_getElem?.mp hold
      exact h.data c' call' hc'
    · rwa [List.mem_singleton.mp hnew]
  sleeping := h.sleeping
  writer := by
    intro moduleId c hwriter
    obtain ⟨⟨call', hcall, hmodule⟩, hcount⟩ := h.writer moduleId c hwriter
    refine ⟨⟨call', ?_, hmodule⟩, hcount⟩
    exact (List.getElem?_append_left (List.getElem?_eq_some_iff.mp hcall).1).trans hcall

/-- A hook falls asleep, or is dropped. -/
theorem sleeps (h : Inv mw s) {count : Option Nat}
    (hcount : ∀ n, count = some n → n = s.granted c ∧ n < mw.config.maxRetries) :
    Inv mw { s with sleeping := Function.update s.sleeping c count } where
  data := h.data
  sleeping := (Function.forall_update_iff s.sleeping fun c (count : Option Nat) =>
    ∀ n, count = some n → n = s.granted c ∧ n < mw.config.maxRetries).mpr
    ⟨hcount, fun c _ => h.sleeping c⟩
  writer := h.writer

/-- A hook wakes up, and writes one more than it has found. -/
theorem wakes (h : Inv mw s) (hmax : mw.config.maxRetries < 2 ^ 32) (hcall : s.calls[c]? = some call)
    {count : Nat} (hsleeping : s.sleeping c = some count) :
    Inv mw { s with
      world := setRetryCount call.ctx call.moduleId (count + 1) s.world
      sleeping := Function.update s.sleeping c none
      granted := Function.update s.granted c (s.granted c + 1)
      writer := Function.update s.writer call.moduleId (some c) } where
  data := h.data
  sleeping := by
    intro c' n hn
    by_cases hc : c' = c
    · rw [hc] at hn
      exact absurd ((Function.update_self ..).symm.trans hn) nofun
    · have hn : s.sleeping c' = some n := (Function.update_of_ne hc ..).symm.trans hn
      show n = Function.update s.granted c (s.granted c + 1) c' ∧ _
      rw [Function.update_of_ne hc]
      exact h.sleeping c' n hn
  writer := by
    obtain ⟨hfound, hlt⟩ := h.sleeping c count hsleeping
    have hdata := h.data c call hcall
    intro moduleId c' hwriter
    replace hwriter : Function.update s.writer call.moduleId (some c) moduleId = some c' := hwriter
    show _ ∧ retryCount (setRetryCount call.ctx call.moduleId (count + 1) s.world) s.root moduleId =
      Function.update s.granted c (s.granted c + 1) c'
    by_cases hmodule : moduleId = call.moduleId
    · subst hmodule
      rw [Function.update_self] at hwriter
      obtain rfl : c = c' := Option.some.inj hwriter
      refine ⟨⟨call, hcall, rfl⟩, ?_⟩
      rw [Function.update_self, ← hfound]
      exact (retryCount_congr hdata.symm).trans (retryCount_setRetryCount (by omega))
    · rw [Function.update_of_ne hmodule] at hwriter
      obtain ⟨⟨call', hcall', rfl⟩, hcount⟩ := h.writer moduleId c' hwriter
      -- a call of another module is another call
      have hc : c' ≠ c := by
        rintro rfl
        exact hmodule (congrArg HookCall.moduleId (Option.some.inj (hcall'.symm.trans hcall)))
      refine ⟨⟨call', hcall', rfl⟩, ?_⟩
      rw [Function.update_of_ne hc, ← hcount]
      calc retryCount (setRetryCount call.ctx call.moduleId (count + 1) s.world) s.root call'.moduleId
          = retryCount (setRetryCount call.ctx call.moduleId (count + 1) s.world) call.ctx
              call'.moduleId := retryCount_congr hdata.symm
        _ = retryCount s.world call.ctx call'.moduleId := retryCount_setRetryCount_ne hmodule
        _ = s.counter call'.moduleId := retryCount_congr hdata

/-- A call succeeds, and takes the counter of its module away. -/
theorem succeeds (h : Inv mw s) (hcall : s.calls[c]? = some call) :
    Inv mw { s with
      world := (mw.toMiddleware.after call.moduleId .null .null call.ctx s.world).world
      writer := Function.update s.writer call.moduleId none } where
  data := h.data
  sleeping := h.sleeping
  writer := by
    have hdata := h.data c call hcall
    intro moduleId c' hwriter
    have hmodule : moduleId ≠ call.moduleId := by
      rintro rfl
      exact absurd ((Function.update_self ..).symm.trans hwriter) nofun
    have hwriter : s.writer moduleId = some c' :=
      (Function.update_of_ne hmodule ..).symm.trans hwriter
    obtain ⟨hcall', hcount⟩ := h.writer moduleId c' hwriter
    refine ⟨hcall', ?_⟩
    rw [← hcount]
    calc retryCount (mw.toMiddleware.after call.moduleId .null .null call.ctx s.world).world s.root
          moduleId
        = retryCount (mw.toMiddleware.after call.moduleId .null .null call.ctx s.world).world call.ctx
            moduleId := retryCount_congr hdata.symm
      _ = retryCount s.world call.ctx moduleId := retryCount_after_ne mw hmodule .null .null
      _ = s.counter moduleId := retryCount_congr hdata

theorem step (h : Inv mw s) (hmax : mw.config.maxRetries < 2 ^ 32) {event : HookEvent}
    (hown : s.counterIsOwn event = true) {s' : RetryTree σ}
    (hstep : RetryTree.step mw s event = some s') : Inv mw s' := by
  cases event with
  | opens parent moduleId =>
    cases parent with
    | none =>
      obtain rfl := Option.some.inj hstep
      exact h.opens rfl
    | some parent =>
      obtain ⟨call, hcall, rfl⟩ := Option.map_eq_some_iff.mp hstep
      exact h.opens (h.data parent call hcall)
  | fails c error =>
    simp only [RetryTree.step] at hstep
    split at hstep
    · next call hcall hawake =>
      split_ifs at hstep with hgrants
      · obtain rfl := Option.some.inj hstep
        refine h.sleeps fun n hn => ?_
        obtain rfl := Option.some.inj hn
        have hboth : error.retryable = some true ∧
            retryCount s.world call.ctx call.moduleId < mw.config.maxRetries := by
          simpa only [grants, Bool.and_eq_true, beq_iff_eq, decide_eq_true_eq] using hgrants
        exact ⟨(h.retryCount_eq hcall _).trans (h.counter_eq hcall hboth.1 hown), hboth.2⟩
      · obtain rfl := Option.some.inj hstep
        exact h
    · cases hstep
  | wakes c =>
    simp only [RetryTree.step] at hstep
    split at hstep
    · next call count hcall hsleeping =>
      obtain rfl := Option.some.inj hstep
      exact h.wakes hmax hcall hsleeping
    · cases hstep
  | drops c =>
    obtain rfl := Option.some.inj hstep
    exact h.sleeps fun n hn => absurd hn.symm (Option.some_ne_none n)
  | succeeds c =>
    simp only [RetryTree.step] at hstep
    split at hstep
    · next call hcall hawake =>
      obtain rfl := Option.some.inj hstep
      exact h.succeeds hcall
    · cases hstep

end Inv

end RetryTree

/-- **Where every counter that is asked for is the call's own, every call has a budget of its own**, in
every order of the hooks of all calls. -/
theorem retry_budget_per_call (mw : RetryMiddleware σ) (hmax : mw.config.maxRetries < 2 ^ 32)
    (root : Context) (w : World σ) (events : List HookEvent)
    (hown : Along (RetryTree.step mw) (fun s event => s.counterIsOwn event = true)
      (RetryTree.start root w) events) :
    Along (RetryTree.step mw) (RetryTree.Right mw) (RetryTree.start root w) events :=
  along_of_along (I := RetryTree.Inv mw) (fun _ _ h hown => h.right hown)
    (fun _ _ _ h hown hstep => h.step hmax hown hstep) (RetryTree.inv_start mw root w) hown

/-- One retry, without waiting. -/
def oneRetry : RetryMiddleware Unit where
  config := { maxRetries := 1, baseDelayMs := 0, jitter := false }
  sleep := fun _ w => w

def backendDown : ModuleError :=
  { ModuleError.new .moduleExecuteError "backend down" with retryable := some true }

/-- A call within another one, of another module: both fail until their budgets are used up. -/
def nestedCalls : List HookEvent :=
  [.opens none "billing.charge", .opens (some 0) "ledger.post", .fails 1 backendDown, .wakes 1,
    .fails 1 backendDown, .fails 0 backendDown, .wakes 0, .fails 0 backendDown]

theorem retry_budget_nestedCalls :
    Along (RetryTree.step oneRetry) (RetryTree.Right oneRetry)
      (RetryTree.start (Context.anonymous "trace" 0) (World.fresh ())) nestedCalls :=
  retry_budget_per_call oneRetry (by decide) _ _ _ (by decide)

/-- A call of the same module within the call has used its budget up. -/
theorem retry_budget_shared :
    ¬ ∀ (mw : RetryMiddleware Unit) (root : Context) (w : World Unit) (events : List HookEvent),
      mw.config.maxRetries < 2 ^ 32 →
        Along (RetryTree.step mw) (RetryTree.Right mw) (RetryTree.start root w) events := by
  intro h
  have hrun := h oneRetry (Context.anonymous "trace" 0) (World.fresh ())
    [.opens none "ledger.post", .opens (some 0) "ledger.post", .fails 1 backendDown, .wakes 1,
      .fails 0 backendDown] (by decide)
  have hright := hrun.2.2.2.2.1 ⟨"ledger.post", (Context.anonymous "trace" 0).child "ledger.post"⟩ rfl
  exact absurd (hright.mpr ⟨rfl, Nat.one_pos⟩) (by decide)

end RetryMiddleware

end Apcore
