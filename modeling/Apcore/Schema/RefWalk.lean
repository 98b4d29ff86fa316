import Apcore.Lib.Fallible
import Apcore.Schema.RefResolver

/-! # `Schema.RefWalk` — the walk of `resolve_inner`

A visit is a call of `resolve_inner`. Its steps are the calls it makes, so that a call succeeds
exactly where the calls below it do, and an error of theirs is its own. -/

namespace Apcore

open Fallible (ok_of_mapM_eq_ok error_of_mapM_eq_error bind_eq_ok map_eq_ok map_eq_error)

variable {Path : Type}

/-- A node, and the document it is resolved in. -/
structure Site (Path : Type) where
  node : Json
  base : DocumentBase Path

/-- A call of `resolve_inner`. -/
structure Visit (Path : Type) where
  site : Site Path
  seen : List String
  /-- `max_depth - depth`. -/
  budget : Nat
  fromRefChain : Bool

/-- The visit of a child, which no reference leads to. -/
def Visit.child (v : Visit Path) (value : Json) : Visit Path :=
  { v with site := { v.site with node := value }, fromRefChain := false }

theorem refOf_eq_some {node : Json} {ref : String} (h : refOf node = some ref) :
    ∃ map, node = .object map := by
  cases node with
  | object map => exact ⟨map, rfl⟩
  | _ => cases h

/-- The site of a target. -/
def targetSite (base : DocumentBase Path) (target : RefTarget Path) : Site Path :=
  ⟨target.value, RefResolver.targetBase base target⟩

/-- The visit of the target a reference opens. -/
def Visit.opened (v : Visit Path) (ref : String) (target : RefTarget Path) (budget : Nat) :
    Visit Path :=
  ⟨targetSite v.site.base target, ref :: target.seenKey :: v.seen, budget, true⟩

namespace RefResolver

variable (resolver : RefResolver Path)

/-- The result of a visit. -/
def resolveVisit (v : Visit Path) : Except ModuleError Json :=
  resolver.resolveInner v.budget v.fromRefChain v.site.node v.site.base v.seen

/-- The reference of the visit is open already, by its text or by the key of its target. -/
def ReEnters (v : Visit Path) (ref : String) : Prop :=
  refOf v.site.node = some ref ∧
    (ref ∈ v.seen ∨ ∃ target, resolver.lookupRef ref v.site.base = .ok target ∧
      target.seenKey ∈ v.seen)

/-- The visit follows its reference. -/
structure Opens (v : Visit Path) (ref : String) (target : RefTarget Path) : Prop where
  reference : refOf v.site.node = some ref
  fresh : ref ∉ v.seen
  found : resolver.lookupRef ref v.site.base = .ok target
  freshKey : target.seenKey ∉ v.seen

/-- The visit of the target of a reference. -/
def FollowStep (v v' : Visit Path) : Prop :=
  ∃ ref target budget, resolver.Opens v ref target ∧ v.budget = budget + 1 ∧
    v' = v.opened ref target budget

/-- The references from a site on end in an object. -/
inductive EndsInObject : Site Path → Prop
  | body {site map} (hnode : site.node = .object map) (hbody : refOf site.node = none) :
      EndsInObject site
  | ref {site ref target} (href : refOf site.node = some ref)
      (hfound : resolver.lookupRef ref site.base = .ok target)
      (hend : EndsInObject (targetSite site.base target)) : EndsInObject site

/-- The calls a visit makes. -/
inductive Step (v : Visit Path) : Visit Path → Prop
  | field {map entry} (hnode : v.site.node = .object map) (hbody : refOf (.object map) = none)
      (hmem : entry ∈ map) : Step v (v.child entry.2)
  | elem {elems value} (hnode : v.site.node = .array elems) (hmem : value ∈ elems) :
      Step v (v.child value)
  | follow {v'} (h : resolver.FollowStep v v') : Step v v'
  | sibling {map ref target entry} (hnode : v.site.node = .object map)
      (hopens : resolver.Opens v ref target)
      (hobject : resolver.EndsInObject (targetSite v.site.base target))
      (hmem : entry ∈ map) (hkey : entry.1 ≠ "$ref") : Step v (v.child entry.2)

/-! ## What `resolve_inner` does with a node -/

section

variable {resolver} {follow : Json → DocumentBase Path → List String → Except ModuleError Json}
variable {base : DocumentBase Path} {seen : List String}

/-- The result of a child. -/
abbrev childResult (resolver : RefResolver Path)
    (follow : Json → DocumentBase Path → List String → Except ModuleError Json)
    (base : DocumentBase Path) (seen : List String) (entry : String × Json) :
    Except ModuleError (String × Json) :=
  (resolver.resolveNode follow base seen false entry.2).map (entry.1, ·)

theorem resolveFields_eq_mapM (map : List (String × Json)) :
    resolver.resolveFields follow base seen map =
      map.mapM (resolver.childResult follow base seen) := by
  induction map with
  | nil => rfl
  | cons entry rest ih =>
    unfold resolveFields
    rw [ih, List.mapM_cons]
    unfold childResult
    cases resolver.resolveNode follow base seen false entry.2 with
    | ok value => rfl
    | error e => rfl

theorem resolveSiblings_eq_mapM (map : List (String × Json)) :
    resolver.resolveSiblings follow base seen map =
      (map.filter (·.1 ≠ "$ref")).mapM (resolver.childResult follow base seen) := by
  induction map with
  | nil => rfl
  | cons entry rest ih =>
    unfold resolveSiblings
    by_cases hkey : entry.1 = "$ref"
    · rw [if_pos hkey, ih, List.filter_cons_of_neg (by simpa using hkey)]
    · rw [if_neg hkey, ih, List.filter_cons_of_pos (by simpa using hkey), List.mapM_cons]
      unfold childResult
      cases resolver.resolveNode follow base seen false entry.2 with
      | ok value => rfl
      | error e => rfl

theorem resolveElems_eq_mapM (elems : List Json) :
    resolver.resolveElems follow base seen elems =
      elems.mapM (resolver.resolveNode follow base seen false) := by
  induction elems with
  | nil => rfl
  | cons value rest ih =>
    unfold resolveElems
    rw [ih, List.mapM_cons]

/-- An object that is no reference. -/
theorem resolveNode_body {map : List (String × Json)} {fromRefChain : Bool}
    (h : refOf (.object map) = none) :
    resolver.resolveNode follow base seen fromRefChain (.object map) =
      (map.mapM (resolver.childResult follow base seen)).map .object := by
  unfold resolveNode
  rw [h, resolveFields_eq_mapM]

theorem resolveNode_array (elems : List Json) (fromRefChain : Bool) :
    resolver.resolveNode follow base seen fromRefChain (.array elems) =
      (elems.mapM (resolver.resolveNode follow base seen false)).map .array := by
  unfold resolveNode
  rw [resolveElems_eq_mapM]

/-- What a followed reference becomes, given what its target became. -/
def overlay (resolver : RefResolver Path)
    (follow : Json → DocumentBase Path → List String → Except ModuleError Json)
    (base : DocumentBase Path) (seen : List String) (map : List (String × Json)) :
    Except ModuleError Json → Except ModuleError Json
  | .ok (.object result) =>
    ((map.filter (·.1 ≠ "$ref")).mapM (resolver.childResult follow base seen)).map fun siblings =>
      .object (siblings.foldl (fun result entry => Fields.insert entry.1 entry.2 result) result)
  | result => result

theorem resolveNode_ref {map : List (String × Json)} {fromRefChain : Bool} {ref : String}
    (h : refOf (.object map) = some ref) :
    resolver.resolveNode follow base seen fromRefChain (.object map) =
      if ref ∈ seen then reenter fromRefChain ref (.object map)
      else match resolver.lookupRef ref base with
        | .error e => .error e
        | .ok target =>
          if target.seenKey ∈ seen then reenter fromRefChain ref (.object map)
          else resolver.overlay follow base seen map
            (follow target.value (targetBase base target) (ref :: target.seenKey :: seen)) := by
  unfold resolveNode
  rw [h]
  dsimp only
  split_ifs with hseen
  · rfl
  · cases resolver.lookupRef ref base with
    | error e => rfl
    | ok target =>
      dsimp only
      split_ifs with hkey
      · rfl
      · unfold overlay
        cases follow target.value (targetBase base target) (ref :: target.seenKey :: seen) with
        | error e => rfl
        | ok result =>
          cases result with
          | object fields => rw [resolveSiblings_eq_mapM]
          | _ => rfl

end

variable {resolver}

theorem resolveVisit_zero {v : Visit Path} (h : v.budget = 0) :
    resolver.resolveVisit v = .error resolver.maxDepthError := by
  unfold resolveVisit
  rw [h]
  rfl

theorem resolveVisit_succ {v : Visit Path} {budget : Nat} (h : v.budget = budget + 1) :
    resolver.resolveVisit v =
      resolver.resolveNode (resolver.resolveInner budget true) v.site.base v.seen v.fromRefChain
        v.site.node := by
  unfold resolveVisit
  rw [h]
  rfl

/-- A visit that succeeds has budget left. -/
theorem budget_of_ok {v : Visit Path} {result : Json} (h : resolver.resolveVisit v = .ok result) :
    ∃ budget, v.budget = budget + 1 := by
  cases hbudget : v.budget with
  | zero =>
    rw [resolveVisit_zero hbudget] at h
    cases h
  | succ budget => exact ⟨budget, rfl⟩

/-- A reference is open, or its lookup fails, or the visit follows it. -/
theorem reference_cases {v : Visit Path} {ref : String} (href : refOf v.site.node = some ref) :
    resolver.ReEnters v ref ∨ (ref ∉ v.seen ∧ ∃ e, resolver.lookupRef ref v.site.base = .error e) ∨
      ∃ target, resolver.Opens v ref target := by
  by_cases hseen : ref ∈ v.seen
  · exact .inl ⟨href, .inl hseen⟩
  · cases hfound : resolver.lookupRef ref v.site.base with
    | error e => exact .inr (.inl ⟨hseen, e, rfl⟩)
    | ok target =>
      by_cases hkey : target.seenKey ∈ v.seen
      · exact .inl ⟨href, .inr ⟨target, hfound, hkey⟩⟩
      · exact .inr (.inr ⟨target, href, hseen, hfound, hkey⟩)

/-- An open reference stays as it is, or is circular. -/
theorem resolveVisit_of_reEnters {v : Visit Path} {ref : String} (h : resolver.ReEnters v ref)
    {budget : Nat} (hbudget : v.budget = budget + 1) :
    resolver.resolveVisit v = reenter v.fromRefChain ref v.site.node := by
  obtain ⟨href, hseen⟩ := h
  obtain ⟨map, hnode⟩ := refOf_eq_some href
  rw [resolveVisit_succ hbudget, hnode]
  rw [hnode] at href
  rw [resolveNode_ref href]
  by_cases hmem : ref ∈ v.seen
  · rw [if_pos hmem]
  · rw [if_neg hmem]
    obtain ⟨target, hfound, hkey⟩ := hseen.resolve_left hmem
    rw [hfound]
    dsimp only
    rw [if_pos hkey]

/-- A followed reference is the overlay of the keys beside it on its target. -/
theorem resolveVisit_of_opens {v : Visit Path} {ref : String} {target : RefTarget Path}
    (h : resolver.Opens v ref target) {budget : Nat} (hbudget : v.budget = budget + 1)
    {map : List (String × Json)} (hnode : v.site.node = .object map) :
    resolver.resolveVisit v =
      resolver.overlay (resolver.resolveInner budget true) v.site.base v.seen map
        (resolver.resolveVisit (v.opened ref target budget)) := by
  have href := h.reference
  rw [hnode] at href
  rw [resolveVisit_succ hbudget, hnode, resolveNode_ref href, if_neg h.fresh, h.found]
  dsimp only
  rw [if_neg h.freshKey]
  rfl

/-! ## Where the references end -/

/-- A reference that is followed ends where its target does. -/
theorem endsInObject_opened {v : Visit Path} {ref : String} {target : RefTarget Path} {budget : Nat}
    (h : resolver.Opens v ref target) :
    resolver.EndsInObject v.site ↔ resolver.EndsInObject (v.opened ref target budget).site := by
  constructor
  · intro hend
    have href := h.reference
    cases hend with
    | body _ hbody =>
      rw [hbody] at href
      cases href
    | ref href' hfound hend =>
      obtain rfl := Option.some.inj (href.symm.trans href')
      obtain rfl := Except.ok.inj (h.found.symm.trans hfound)
      exact hend
  · exact fun hend => .ref h.reference h.found hend

/-- What is no reference ends where it is. -/
theorem endsInObject_of_not_ref {site : Site Path} (href : refOf site.node = none) :
    resolver.EndsInObject site ↔ ∃ map, site.node = .object map := by
  constructor
  · intro hend
    cases hend with
    | body hnode _ => exact ⟨_, hnode⟩
    | ref href' =>
      rw [href] at href'
      cases href'
  · rintro ⟨map, hnode⟩
    exact .body hnode href

/-- The keys beside a reference are laid over an object, and make it no other kind of value. -/
theorem object_iff_of_overlay {follow : Json → DocumentBase Path → List String → Except ModuleError Json}
    {base : DocumentBase Path} {seen : List String} {map : List (String × Json)} {value result : Json}
    (hok : resolver.overlay follow base seen map (.ok value) = .ok result) :
    (∃ map, result = .object map) ↔ ∃ map, value = .object map := by
  cases value with
  | object fields =>
    obtain ⟨siblings, -, hresult⟩ := map_eq_ok.mp hok
    exact iff_of_true ⟨_, hresult.symm⟩ ⟨fields, rfl⟩
  | _ =>
    obtain rfl := Except.ok.inj hok
    exact Iff.rfl

/-- What is no reference becomes an object where it is one. -/
theorem object_iff_of_not_ref {v : Visit Path} (href : refOf v.site.node = none) {result : Json}
    (hok : resolver.resolveVisit v = .ok result) :
    (∃ map, result = .object map) ↔ ∃ map, v.site.node = .object map := by
  obtain ⟨budget, hbudget⟩ := budget_of_ok hok
  rw [resolveVisit_succ hbudget] at hok
  cases hnode : v.site.node with
  | object map =>
    rw [hnode] at href hok
    rw [resolveNode_body href] at hok
    obtain ⟨fields, -, hresult⟩ := map_eq_ok.mp hok
    exact iff_of_true ⟨fields, hresult.symm⟩ ⟨map, rfl⟩
  | array elems =>
    rw [hnode, resolveNode_array] at hok
    obtain ⟨results, -, rfl⟩ := map_eq_ok.mp hok
    simp
  | _ =>
    rw [hnode] at hok
    obtain rfl := Except.ok.inj hok
    simp

/-- The result of a target is an object exactly where its references end in one. -/
theorem object_iff_endsInObject {budget : Nat} {v : Visit Path} (hbudget : v.budget = budget)
    (hchain : v.fromRefChain = true) {result : Json} (hok : resolver.resolveVisit v = .ok result) :
    (∃ map, result = .object map) ↔ resolver.EndsInObject v.site := by
  induction budget generalizing v result with
  | zero =>
    rw [resolveVisit_zero hbudget] at hok
    cases hok
  | succ budget ih =>
    cases href : refOf v.site.node with
    | none => rw [endsInObject_of_not_ref href, object_iff_of_not_ref href hok]
    | some ref =>
      obtain ⟨map, hnode⟩ := refOf_eq_some href
      rcases @reference_cases _ resolver _ _ href with hopen | ⟨hfresh, e, he⟩ | ⟨target, h⟩
      · rw [resolveVisit_of_reEnters hopen hbudget, hchain] at hok
        cases hok
      · rw [hnode] at href
        rw [resolveVisit_succ hbudget, hnode, resolveNode_ref href, if_neg hfresh, he] at hok
        cases hok
      · rw [resolveVisit_of_opens h hbudget hnode] at hok
        cases htarget : resolver.resolveVisit (v.opened ref target budget) with
        | error e =>
          rw [htarget] at hok
          cases hok
        | ok value =>
          rw [htarget] at hok
          rw [object_iff_of_overlay hok, ih rfl rfl htarget, endsInObject_opened h]

/-! ## Calls that succeed, and errors -/

theorem resolveVisit_child {v : Visit Path} {budget : Nat} (h : v.budget = budget + 1)
    (entry : String × Json) :
    resolver.childResult (resolver.resolveInner budget true) v.site.base v.seen entry =
      (resolver.resolveVisit (v.child entry.2)).map (entry.1, ·) := by
  have hchild : (v.child entry.2).budget = budget + 1 := h
  rw [resolveVisit_succ hchild]
  rfl

theorem ok_of_childResult {v : Visit Path} {budget : Nat} (h : v.budget = budget + 1)
    {entry : String × Json} {result : String × Json}
    (hok : resolver.childResult (resolver.resolveInner budget true) v.site.base v.seen entry =
      .ok result) :
    ∃ value, resolver.resolveVisit (v.child entry.2) = .ok value := by
  rw [resolveVisit_child h] at hok
  cases hvalue : resolver.resolveVisit (v.child entry.2) with
  | ok value => exact ⟨value, rfl⟩
  | error e =>
    rw [hvalue] at hok
    cases hok

theorem error_of_childResult {v : Visit Path} {budget : Nat} (h : v.budget = budget + 1)
    {entry : String × Json} {e : ModuleError}
    (herr : resolver.childResult (resolver.resolveInner budget true) v.site.base v.seen entry =
      .error e) :
    resolver.resolveVisit (v.child entry.2) = .error e := by
  rw [resolveVisit_child h] at herr
  cases hvalue : resolver.resolveVisit (v.child entry.2) with
  | ok value =>
    rw [hvalue] at herr
    cases herr
  | error e' =>
    rw [hvalue] at herr
    cases herr
    rfl

/-- The calls of a visit that succeeds succeed. -/
theorem ok_of_step {v v' : Visit Path} (hstep : resolver.Step v v') {result : Json}
    (hok : resolver.resolveVisit v = .ok result) :
    ∃ result', resolver.resolveVisit v' = .ok result' := by
  obtain ⟨budget, hbudget⟩ := budget_of_ok hok
  cases hstep with
  | field hnode hbody hmem =>
    rw [resolveVisit_succ hbudget, hnode, resolveNode_body hbody] at hok
    obtain ⟨fields, hfields, -⟩ := map_eq_ok.mp hok
    obtain ⟨field, hfield⟩ := ok_of_mapM_eq_ok hfields _ hmem
    exact ok_of_childResult hbudget hfield
  | @elem elems value hnode hmem =>
    rw [resolveVisit_succ hbudget, hnode, resolveNode_array] at hok
    obtain ⟨results, hresults, -⟩ := map_eq_ok.mp hok
    obtain ⟨elem, helem⟩ := ok_of_mapM_eq_ok hresults _ hmem
    have hchild : (v.child value).budget = budget + 1 := hbudget
    refine ⟨elem, ?_⟩
    rw [resolveVisit_succ hchild]
    exact helem
  | follow h =>
    obtain ⟨ref, target, budget', hopens, hbudget', rfl⟩ := h
    obtain ⟨map, hnode⟩ := refOf_eq_some hopens.reference
    rw [resolveVisit_of_opens hopens hbudget' hnode] at hok
    cases htarget : resolver.resolveVisit (v.opened ref target budget') with
    | ok value => exact ⟨value, rfl⟩
    | error e =>
      rw [htarget] at hok
      cases hok
  | @sibling map ref target entry hnode hopens hobject hmem hkey =>
    rw [resolveVisit_of_opens hopens hbudget hnode] at hok
    cases htarget : resolver.resolveVisit (v.opened ref target budget) with
    | error e =>
      rw [htarget] at hok
      cases hok
    | ok value =>
      obtain ⟨fields, rfl⟩ := (object_iff_endsInObject rfl rfl htarget).mpr hobject
      rw [htarget] at hok
      obtain ⟨siblings, hsiblings, -⟩ := map_eq_ok.mp hok
      have hmem' : entry ∈ map.filter (·.1 ≠ "$ref") :=
        List.mem_filter.mpr ⟨hmem, by simpa using hkey⟩
      obtain ⟨sibling, hsibling⟩ := ok_of_mapM_eq_ok hsiblings _ hmem'
      exact ok_of_childResult hbudget hsibling

theorem ok_of_reaches {v v' : Visit Path} (h : Relation.ReflTransGen resolver.Step v v')
    {result : Json} (hok : resolver.resolveVisit v = .ok result) :
    ∃ result', resolver.resolveVisit v' = .ok result' := by
  induction h with
  | refl => exact ⟨result, hok⟩
  | tail _ hstep ih =>
    obtain ⟨before, hbefore⟩ := ih
    exact ok_of_step hstep hbefore

theorem firstFile_code {ref : String} {root : Path} {tried : List Path} {e : ModuleError}
    (h : resolver.firstFile ref root tried = .error e) : e.code ≠ .schemaCircularRef := by
  induction tried with
  | nil => cases h
  | cons candidate rest ih =>
    unfold firstFile at h
    dsimp only at h
    split_ifs at h with houtside hfile
    · obtain rfl := Except.error.inj h
      simp
    · exact ih h

theorem resolveRefFile_code {filePart ref : String} {baseFile : Option Path} {isCanonical : Bool}
    {e : ModuleError} (h : resolver.resolveRefFile filePart baseFile isCanonical ref = .error e) :
    e.code ≠ .schemaCircularRef := by
  unfold resolveRefFile at h
  split at h
  · obtain rfl := Except.error.inj h
    simp
  · dsimp only at h
    split at h
    · next hfirst =>
      obtain rfl := Except.error.inj h
      exact firstFile_code hfirst
    · cases h
    · obtain rfl := Except.error.inj h
      simp

theorem loadSchemaDocument_code {path : Path} {e : ModuleError}
    (h : resolver.loadSchemaDocument path = .error e) : e.code ≠ .schemaCircularRef := by
  unfold loadSchemaDocument at h
  split at h
  · obtain rfl := Except.error.inj h
    simp
  · dsimp only at h
    split at h
    · cases h
    · obtain rfl := Except.error.inj h
      simp

/-- No lookup reports a circular reference. -/
theorem lookupRef_code {ref : String} {base : DocumentBase Path} {e : ModuleError}
    (h : resolver.lookupRef ref base = .error e) : e.code ≠ .schemaCircularRef := by
  unfold lookupRef at h
  split at h
  · dsimp only at h
    split at h
    · cases h
    · obtain rfl := Except.error.inj h
      simp
  · split at h
    · cases h
    · unfold lookupFile at h
      dsimp only at h
      split at h
      · next hfile =>
        obtain rfl := Except.error.inj h
        exact resolveRefFile_code hfile
      · split at h
        · next hload =>
          obtain rfl := Except.error.inj h
          exact loadSchemaDocument_code hload
        · split_ifs at h
          split at h
          · cases h
          · obtain rfl := Except.error.inj h
            simp

/-- A circular reference is reported where the walk comes to an open one behind another reference. -/
theorem circular_of_error {v : Visit Path} {e : ModuleError}
    (herr : resolver.resolveVisit v = .error e) (hcode : e.code = .schemaCircularRef) :
    ∃ v' ref, Relation.ReflTransGen resolver.Step v v' ∧ v'.fromRefChain = true ∧
      resolver.ReEnters v' ref := by
  -- by induction on the references left, and on the node for those at the same depth
  induction hbudget : v.budget generalizing v with
  | zero =>
    rw [resolveVisit_zero hbudget] at herr
    obtain rfl := Except.error.inj herr
    cases hcode
  | succ budget ihBudget =>
    induction hnode : v.site.node using Json.children_induction generalizing v with
    | array elems ih =>
      rw [resolveVisit_succ hbudget, hnode, resolveNode_array] at herr
      obtain ⟨value, hmem, hvalue⟩ := error_of_mapM_eq_error (map_eq_error.mp herr)
      have hchild : (v.child value).budget = budget + 1 := hbudget
      have herr' : resolver.resolveVisit (v.child value) = .error e := by
        rw [resolveVisit_succ hchild]
        exact hvalue
      obtain ⟨v', ref, hreach, hhit⟩ := ih value hmem herr' hchild rfl
      exact ⟨v', ref, .head (.elem hnode hmem) hreach, hhit⟩
    | object map ih =>
      cases href : refOf v.site.node with
      | none =>
        rw [hnode] at href
        rw [resolveVisit_succ hbudget, hnode, resolveNode_body href] at herr
        obtain ⟨entry, hmem, hentry⟩ := error_of_mapM_eq_error (map_eq_error.mp herr)
        have herr' := error_of_childResult hbudget hentry
        obtain ⟨v', ref, hreach, hhit⟩ := ih entry hmem herr' hbudget rfl
        exact ⟨v', ref, .head (.field hnode href hmem) hreach, hhit⟩
      | some ref =>
        rcases @reference_cases _ resolver _ _ href with hopen | ⟨hfresh, e', he'⟩ | ⟨target, h⟩
        · rw [resolveVisit_of_reEnters hopen hbudget] at herr
          refine ⟨v, ref, .refl, ?_, hopen⟩
          cases hchain : v.fromRefChain with
          | true => rfl
          | false =>
            rw [hchain] at herr
            cases herr
        · rw [hnode] at href
          rw [resolveVisit_succ hbudget, hnode, resolveNode_ref href, if_neg hfresh, he'] at herr
          obtain rfl := Except.error.inj herr
          exact absurd hcode (lookupRef_code he')
        · rw [resolveVisit_of_opens h hbudget hnode] at herr
          have hfollow : resolver.Step v (v.opened ref target budget) :=
            .follow ⟨ref, target, budget, h, hbudget, rfl⟩
          cases htarget : resolver.resolveVisit (v.opened ref target budget) with
          | error e' =>
            rw [htarget] at herr
            obtain rfl := Except.error.inj herr
            obtain ⟨v', ref', hreach, hhit⟩ := ihBudget htarget rfl
            exact ⟨v', ref', .head hfollow hreach, hhit⟩
          | ok value =>
            rw [htarget] at herr
            cases value with
            | object fields =>
              obtain ⟨entry, hmem, hentry⟩ := error_of_mapM_eq_error (map_eq_error.mp herr)
              obtain ⟨hmem, hkey⟩ := List.mem_filter.mp hmem
              have herr' := error_of_childResult hbudget hentry
              have hobject := (object_iff_endsInObject rfl rfl htarget).mp ⟨fields, rfl⟩
              obtain ⟨v', ref', hreach, hhit⟩ := ih entry hmem herr' hbudget rfl
              exact ⟨v', ref', .head (.sibling hnode h hobject hmem (by simpa using hkey)) hreach, hhit⟩
            | _ => cases herr
    | _ =>
      rw [resolveVisit_succ hbudget, hnode] at herr
      cases herr

end RefResolver

end Apcore
