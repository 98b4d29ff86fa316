import Apcore.Schema.Positions
import Apcore.Schema.Keys
import Apcore.Schema.RefCycles

/-! # `Schema.Inlining` — what the walk makes of a node, and a schema without its references

The result of a visit is put together from those of the visits below it: of the parts of a node, and of
the target of a reference, with the keys beside it laid over. -/

namespace Apcore

open Relation
open Fallible (mapM_eq_ok_iff mapM_eq_self_iff eq_of_mapM_eq_ok map_eq_ok)

variable {Path : Type}

namespace RefResolver

variable {resolver : RefResolver Path}

/-! ## What a visit makes of the parts of its node -/

/-- The children of a visit, in its result. -/
theorem get?_of_children {v : Visit Path} {budget : Nat} (hbudget : v.budget = budget + 1)
    {map fields : List (String × Json)}
    (h : map.mapM (resolver.childResult (resolver.resolveInner budget true) v.site.base v.seen) =
      .ok fields) (key : String) :
    (Fields.get? map key).map (fun x => resolver.resolveVisit (v.child x)) =
      (Fields.get? fields key).map .ok := by
  have hall := mapM_eq_ok_iff.mp h
  induction hall with
  | nil => rfl
  | @cons entry field rest fields hentry _ ih =>
    rw [resolveVisit_child hbudget] at hentry
    obtain ⟨value, hvalue, rfl⟩ := map_eq_ok.mp hentry
    rw [Fields.get?_cons, Fields.get?_cons]
    by_cases hkey : entry.1 = key
    · rw [if_pos hkey, if_pos hkey]
      exact congrArg some hvalue
    · rw [if_neg hkey, if_neg hkey]
      exact ih (mapM_eq_ok_iff.mpr ‹_›)

theorem keys_of_children {follow : Json → DocumentBase Path → List String → Except ModuleError Json}
    {base : DocumentBase Path} {seen : List String} {map fields : List (String × Json)}
    (h : map.mapM (resolver.childResult follow base seen) = .ok fields) :
    fields.map (·.1) = map.map (·.1) := by
  have hall := mapM_eq_ok_iff.mp h
  induction hall with
  | nil => rfl
  | cons hentry _ ih =>
    obtain ⟨value, -, rfl⟩ := map_eq_ok.mp hentry
    rw [List.map_cons, List.map_cons, ih (mapM_eq_ok_iff.mpr ‹_›)]

theorem getElem?_of_elems {v : Visit Path} {budget : Nat} (hbudget : v.budget = budget + 1)
    {elems results : List Json}
    (h : elems.mapM (resolver.resolveNode (resolver.resolveInner budget true) v.site.base v.seen false) =
      .ok results) (i : Nat) :
    elems[i]?.map (fun x => resolver.resolveVisit (v.child x)) = results[i]?.map .ok := by
  have hall := mapM_eq_ok_iff.mp h
  induction hall generalizing i with
  | nil => rfl
  | @cons elem _ _ _ helem _ ih =>
    cases i with
    | zero =>
      have hchild : (v.child elem).budget = budget + 1 := hbudget
      exact congrArg some ((resolveVisit_succ hchild).trans helem)
    | succ i => exact ih (mapM_eq_ok_iff.mpr ‹_›) i

/-- A part of what is no reference is what became of that part. -/
theorem select_of_not_ref {v : Visit Path} (href : refOf v.site.node = none) {result : Json}
    (hok : resolver.resolveVisit v = .ok result) {s : Selector} {child : Json}
    (hchild : v.site.node.select s = some child) :
    ∃ part, resolver.resolveVisit (v.child child) = .ok part ∧ result.select s = some part := by
  obtain ⟨budget, hbudget⟩ := budget_of_ok hok
  have hpart : ∀ {x? : Option Json} {y? : Option Json}, x? = some child →
      x?.map (fun x => resolver.resolveVisit (v.child x)) = y?.map .ok →
        ∃ part, resolver.resolveVisit (v.child child) = .ok part ∧ y? = some part := by
    rintro x? y? rfl heq
    obtain ⟨part, rfl, hpart⟩ := Option.map_eq_some_iff.mp heq.symm
    exact ⟨part, hpart.symm, rfl⟩
  rw [resolveVisit_succ hbudget] at hok
  cases hnode : v.site.node with
  | object map =>
    rw [hnode] at href hok hchild
    rw [resolveNode_body href] at hok
    obtain ⟨fields, hfields, rfl⟩ := map_eq_ok.mp hok
    cases s with
    | key name => exact hpart hchild (get?_of_children hbudget hfields name)
    | index i => cases hchild
  | array elems =>
    rw [hnode, resolveNode_array] at hok
    rw [hnode] at hchild
    obtain ⟨results, hresults, rfl⟩ := map_eq_ok.mp hok
    cases s with
    | key name => cases hchild
    | index i => exact hpart hchild (getElem?_of_elems hbudget hresults i)
  | _ =>
    rw [hnode] at hchild
    cases s <;> cases hchild

/-- A key beside a reference that is followed is what became of it, where there is an object to lay it
on. -/
theorem select_of_opens {v : Visit Path} {ref : String} {target : RefTarget Path}
    (hopens : resolver.Opens v ref target)
    (hobject : resolver.EndsInObject (targetSite v.site.base target)) {map : List (String × Json)}
    (hnode : v.site.node = .object map) (hkeys : (map.map (·.1)).Nodup) {result : Json}
    (hok : resolver.resolveVisit v = .ok result) {s : Selector} (hs : s ≠ .key "$ref") {child : Json}
    (hchild : v.site.node.select s = some child) :
    ∃ part, resolver.resolveVisit (v.child child) = .ok part ∧ result.select s = some part := by
  obtain ⟨budget, hbudget⟩ := budget_of_ok hok
  rw [resolveVisit_of_opens hopens hbudget hnode] at hok
  cases htarget : resolver.resolveVisit (v.opened ref target budget) with
  | error e =>
    rw [htarget] at hok
    cases hok
  | ok value =>
    obtain ⟨fields, rfl⟩ := (object_iff_endsInObject rfl rfl htarget).mpr hobject
    rw [htarget] at hok
    obtain ⟨siblings, hsiblings, rfl⟩ := map_eq_ok.mp hok
    rw [hnode] at hchild
    cases s with
    | index i => cases hchild
    | key name =>
      have hname : name ≠ "$ref" := fun heq => hs (congrArg _ heq)
      have hsibling := get?_of_children hbudget hsiblings name
      rw [Fields.get?_filter (fun _ => by simpa using hname), show Fields.get? map name = some child from hchild]
        at hsibling
      obtain ⟨part, hpart, heq⟩ := Option.map_eq_some_iff.mp hsibling.symm
      refine ⟨part, heq.symm, ?_⟩
      show Fields.get? _ name = some part
      rw [Fields.get?_foldl_insert, hpart]
      · rfl
      · rw [keys_of_children hsiblings]
        exact hkeys.sublist (List.filter_sublist.map _)

/-- Without one there is nothing of the keys in the result. -/
theorem not_object_of_opens {v : Visit Path} {ref : String} {target : RefTarget Path}
    (hopens : resolver.Opens v ref target)
    (hobject : ¬resolver.EndsInObject (targetSite v.site.base target)) {result : Json}
    (hok : resolver.resolveVisit v = .ok result) : ¬∃ fields, result = .object fields := by
  obtain ⟨budget, hbudget⟩ := budget_of_ok hok
  obtain ⟨map, hnode⟩ := refOf_eq_some hopens.reference
  rw [resolveVisit_of_opens hopens hbudget hnode] at hok
  cases htarget : resolver.resolveVisit (v.opened ref target budget) with
  | error e =>
    rw [htarget] at hok
    cases hok
  | ok value =>
    rw [htarget] at hok
    rw [object_iff_of_overlay hok, object_iff_endsInObject rfl rfl htarget]
    exact hobject

/-! ## References in a result -/

/-- An open reference that does not fail stays. -/
theorem eq_node_of_reEnters {v : Visit Path} {ref : String} (h : resolver.ReEnters v ref)
    {result : Json} (hok : resolver.resolveVisit v = .ok result) : result = v.site.node := by
  obtain ⟨budget, hbudget⟩ := budget_of_ok hok
  rw [resolveVisit_of_reEnters h hbudget] at hok
  unfold reenter at hok
  split at hok
  · cases hok
  · exact (Except.ok.inj hok).symm

/-- The result of a followed reference is what its target became, with the keys beside it laid on an
object. -/
theorem result_of_opens {v : Visit Path} {ref : String} {target : RefTarget Path} {budget : Nat}
    (hopens : resolver.Opens v ref target) (hbudget : v.budget = budget + 1) {result : Json}
    (hok : resolver.resolveVisit v = .ok result) :
    ∃ value, resolver.resolveVisit (v.opened ref target budget) = .ok value ∧
      (value.isObject = false ∧ result = value ∨
        ∃ map fields siblings, v.site.node = .object map ∧ value = .object fields ∧
        (map.filter (·.1 ≠ "$ref")).mapM
          (resolver.childResult (resolver.resolveInner budget true) v.site.base v.seen) = .ok siblings ∧
        result = .object (siblings.foldl (fun result entry => Fields.insert entry.1 entry.2 result) fields)) := by
  obtain ⟨map, hnode⟩ := refOf_eq_some hopens.reference
  rw [resolveVisit_of_opens hopens hbudget hnode] at hok
  cases htarget : resolver.resolveVisit (v.opened ref target budget) with
  | error e =>
    rw [htarget] at hok
    cases hok
  | ok value =>
    rw [htarget] at hok
    refine ⟨value, rfl, ?_⟩
    cases value with
    | object fields =>
      obtain ⟨siblings, hsiblings, rfl⟩ := map_eq_ok.mp hok
      exact .inr ⟨map, fields, siblings, hnode, rfl, hsiblings, rfl⟩
    | _ => exact .inl ⟨rfl, (Except.ok.inj hok).symm⟩

/-- A reference whose lookup fails does so itself. -/
theorem not_ok_of_lookup {v : Visit Path} {ref : String} (href : refOf v.site.node = some ref)
    (hfresh : ref ∉ v.seen) {e : ModuleError} (he : resolver.lookupRef ref v.site.base = .error e)
    (result : Json) : resolver.resolveVisit v ≠ .ok result := by
  intro hok
  obtain ⟨budget, hbudget⟩ := budget_of_ok hok
  obtain ⟨map, hnode⟩ := refOf_eq_some href
  rw [hnode] at href
  rw [resolveVisit_succ hbudget, hnode, resolveNode_ref href, if_neg hfresh, he] at hok
  cases hok

/-- A string in a result is one that references lead to. -/
theorem string_of_resolveVisit {v : Visit Path} {text : String}
    (hok : resolver.resolveVisit v = .ok (.string text)) :
    ∃ v', ReflTransGen resolver.FollowStep v v' ∧ v'.site.node = .string text := by
  induction hbudget : v.budget generalizing v with
  | zero =>
    rw [resolveVisit_zero hbudget] at hok
    cases hok
  | succ budget ih =>
    cases href : refOf v.site.node with
    | some ref =>
      rcases @reference_cases _ resolver _ _ href with hopen | ⟨hfresh, e, he⟩ | ⟨target, hopens⟩
      · rw [← eq_node_of_reEnters hopen hok] at href
        cases href
      · exact absurd hok (not_ok_of_lookup href hfresh he _)
      · obtain ⟨value, hvalue, ⟨-, rfl⟩ | ⟨map, fields, siblings, -, -, -, heq⟩⟩ :=
          result_of_opens hopens hbudget hok
        · obtain ⟨v', hpath, hstring⟩ := ih hvalue rfl
          exact ⟨v', .head ⟨ref, target, budget, hopens, hbudget, rfl⟩ hpath, hstring⟩
        · cases heq
    | none =>
      rw [resolveVisit_succ hbudget] at hok
      cases hnode : v.site.node with
      | object map =>
        rw [hnode] at href hok
        rw [resolveNode_body href] at hok
        obtain ⟨fields, -, heq⟩ := map_eq_ok.mp hok
        cases heq
      | array elems =>
        rw [hnode, resolveNode_array] at hok
        obtain ⟨results, -, heq⟩ := map_eq_ok.mp hok
        cases heq
      | _ =>
        rw [hnode] at hok
        exact ⟨v, .refl, hnode.trans (Except.ok.inj hok)⟩

end RefResolver

end Apcore

/-! ## What a schema is without its references

Inlining is a relation between a site and a value: a reference stands for what its target stands for,
with the keys beside it laid over. It says nothing of a walk, of a depth or of what is open. -/

namespace Apcore

open Relation

variable {Path : Type}

namespace RefResolver

variable (resolver : RefResolver Path) (schema : Json)

/-- A step in the documents: to a part of a node, or to what its reference denotes. -/
inductive Leads (site : Site Path) : Site Path → Prop
  | part {part : Json} (h : part.PartOf site.node) : Leads site ⟨part, site.base⟩
  | reference {target : Site Path} (h : resolver.Denotes schema site target) : Leads site target

/-- The sites that a schema is made of. -/
def Reached (site : Site Path) : Prop :=
  ReflTransGen (resolver.Leads schema) ⟨schema, resolver.documentBase schema⟩ site

/-- No site of the schema leads back to itself. -/
def Acyclic : Prop := ∀ site, resolver.Reached schema site → ¬TransGen (resolver.Leads schema) site site

/-- No object becomes a reference: what stands under its `$ref`, where it is no string, is no reference
that leads to one. -/
def NoSpelledReference : Prop :=
  ∀ site map w target text, resolver.Reached schema site → site.node = .object map →
    refOf site.node = none → Fields.get? map "$ref" = some w →
      ReflTransGen (resolver.Denotes schema) ⟨w, site.base⟩ target → target.node ≠ .string text

variable {resolver schema}

theorem Reached.part {site : Site Path} (h : resolver.Reached schema site) {part : Json}
    (hpart : part.PartOf site.node) : resolver.Reached schema ⟨part, site.base⟩ :=
  h.tail (.part hpart)

theorem partOf_entry {node : Json} {map : List (String × Json)} {entry : String × Json}
    (hnode : node = .object map) (hmem : entry ∈ map) : entry.2.PartOf node :=
  .inl ⟨map, hnode, entry, hmem, rfl⟩

theorem partOf_elem {node elem : Json} {elems : List Json} (hnode : node = .array elems)
    (hmem : elem ∈ elems) : elem.PartOf node :=
  .inr ⟨elems, hnode, hmem⟩

/-- Every part of a value, and the value, is so. -/
def Everywhere (p : Json → Prop) (value : Json) : Prop :=
  ∀ node, ReflTransGen Json.PartOf node value → p node

section

variable {p : Json → Prop} {value : Json}

theorem Everywhere.part {inner : Json} (h : Everywhere p value) (hpart : inner.PartOf value) :
    Everywhere p inner :=
  fun node hnode => h node (hnode.tail hpart)

theorem everywhere_of_parts (hself : p value) (h : ∀ part : Json, part.PartOf value → Everywhere p part) :
    Everywhere p value := by
  intro node hnode
  rcases ReflTransGen.cases_tail hnode with rfl | ⟨part, hbelow, hpart⟩
  · exact hself
  · exact h part hpart node hbelow

theorem everywhere_object {map : List (String × Json)} (hself : p (.object map))
    (h : ∀ entry ∈ map, Everywhere p entry.2) : Everywhere p (.object map) := by
  refine everywhere_of_parts hself ?_
  rintro part (⟨map', heq, entry, hmem, rfl⟩ | ⟨elems, harray, -⟩)
  · obtain rfl := Json.object.inj heq
    exact h entry hmem
  · cases harray

theorem everywhere_string {text : String} (hself : p (.string text)) : Everywhere p (.string text) := by
  refine everywhere_of_parts hself ?_
  rintro part (⟨map, hobject, -⟩ | ⟨elems, harray, -⟩)
  · cases hobject
  · cases harray

end

/-- There is no reference anywhere in a value. -/
abbrev RefFree (value : Json) : Prop := Everywhere (refOf · = none) value

/-- The keys laid over a value are no `$ref`. -/
theorem not_mem_siblings {map siblings : List (String × Json)}
    (hkeys : siblings.map (·.1) = (map.filter (·.1 ≠ "$ref")).map (·.1)) :
    "$ref" ∉ siblings.map (·.1) := by
  rw [hkeys]
  intro hmem
  obtain ⟨entry, hentry, heq⟩ := List.mem_map.mp hmem
  have hother := (List.mem_filter.mp hentry).2
  rw [heq] at hother
  exact absurd hother (by decide)

/-- So an object they are laid over is a reference where it was one. -/
theorem refOf_overlay {map fields siblings : List (String × Json)}
    (hkeys : siblings.map (·.1) = (map.filter (·.1 ≠ "$ref")).map (·.1)) :
    refOf (.object (siblings.foldl (fun result entry => Fields.insert entry.1 entry.2 result) fields)) =
      refOf (.object fields) :=
  congrArg (·.bind Json.asStr?) (Fields.get?_foldl_insert_of_not_mem (not_mem_siblings hkeys) fields)

/-- A step of the walk is one in the documents. -/
theorem leads_of_step {v v' : Visit Path} (hv : resolver.Visited schema v) (hstep : resolver.Step v v') :
    resolver.Leads schema v.site v'.site := by
  cases hstep with
  | field hnode _ hmem => exact .part (partOf_entry hnode hmem)
  | elem hnode hmem => exact .part (partOf_elem hnode hmem)
  | sibling hnode _ _ hmem _ => exact .part (partOf_entry hnode hmem)
  | follow hfollow =>
    obtain ⟨ref, target, budget, hopens, -, rfl⟩ := hfollow
    exact .reference (hopens.denotes (Visited.aliases hv))

theorem Visited.reached {v : Visit Path} (h : resolver.Visited schema v) :
    resolver.Reached schema v.site := by
  induction h with
  | refl => exact .refl
  | tail hv hstep ih => exact ih.tail (leads_of_step hv hstep)

/-- References that are followed denote what they are followed to. -/
theorem denotes_of_follows {v v' : Visit Path} (hv : resolver.Visited schema v)
    (h : ReflTransGen resolver.FollowStep v v') :
    ReflTransGen (resolver.Denotes schema) v.site v'.site := by
  induction h with
  | refl => exact .refl
  | tail hpath hstep ih =>
    obtain ⟨ref, target, budget, hopens, -, rfl⟩ := hstep
    exact ih.tail (hopens.denotes (visited_of_follows hv hpath).1.aliases)

end RefResolver

end Apcore
