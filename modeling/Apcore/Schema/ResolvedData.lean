import Apcore.Schema.InstanceData
import Apcore.Schema.Inlining

/-! # `Schema.ResolvedData` — data in a schema that is resolved

The resolver goes into data as into anything else, and a reference in it is one to the resolver. What
stands at a place stays where the references on the way to it and in it are open, or are overlaid. -/

namespace Apcore

open Relation
open Fallible (mapM_eq_ok_iff mapM_eq_self_iff eq_of_mapM_eq_ok map_eq_ok)

variable {Path : Type}

namespace RefResolver

variable {resolver : RefResolver Path}

/-! ## What the resolver has nothing to do with -/

/-- A step to a child, where there is no reference. -/
inductive Descent (v : Visit Path) : Visit Path → Prop
  | field {map : List (String × Json)} {entry : String × Json} (hnode : v.site.node = .object map)
      (hbody : refOf v.site.node = none) (hmem : entry ∈ map) : Descent v (v.child entry.2)
  | elem {elems : List Json} {value : Json} (hnode : v.site.node = .array elems)
      (hmem : value ∈ elems) : Descent v (v.child value)

variable (resolver) in
/-- The outermost references of a visit are open. -/
def Inert (v : Visit Path) : Prop :=
  ∀ v' ref, ReflTransGen Descent v v' → refOf v'.site.node = some ref → resolver.ReEnters v' ref

variable (resolver) in
/-- What is at a place stays there: the references on the way are open, or followed to an object and
overlaid. -/
inductive Stands : Visit Path → Place → Prop
  | here {v : Visit Path} (h : resolver.Inert v) : Stands v []
  | held {v : Visit Path} {ref : String} {place : Place} (h : resolver.ReEnters v ref) : Stands v place
  | inside {v : Visit Path} {s : Selector} {child : Json} {rest : Place}
      (href : refOf v.site.node = none) (hchild : v.site.node.select s = some child)
      (h : Stands (v.child child) rest) : Stands v (s :: rest)
  | beside {v : Visit Path} {ref : String} {target : RefTarget Path} {s : Selector} {child : Json}
      {rest : Place} (hopens : resolver.Opens v ref target)
      (hobject : resolver.EndsInObject (targetSite v.site.base target)) (hs : s ≠ .key "$ref")
      (hchild : v.site.node.select s = some child) (h : Stands (v.child child) rest) :
      Stands v (s :: rest)

theorem Inert.child {v v' : Visit Path} (h : resolver.Inert v) (hstep : Descent v v') :
    resolver.Inert v' :=
  fun _ _ hpath => h _ _ (.head hstep hpath)

theorem eq_node_of_inert {v : Visit Path} (h : resolver.Inert v) {result : Json}
    (hok : resolver.resolveVisit v = .ok result) : result = v.site.node := by
  obtain ⟨budget, hbudget⟩ := budget_of_ok hok
  induction hnode : v.site.node using Json.children_induction generalizing v result with
  | object map ih =>
    cases href : refOf v.site.node with
    | some ref =>
      rw [← hnode]
      exact eq_node_of_reEnters (h v ref .refl href) hok
    | none =>
      have hbody := href
      rw [hnode] at hbody
      rw [resolveVisit_succ hbudget, hnode, resolveNode_body hbody] at hok
      obtain ⟨fields, hfields, rfl⟩ := map_eq_ok.mp hok
      refine congrArg Json.object (eq_of_mapM_eq_ok hfields fun entry hmem field hentry => ?_)
      rw [resolveVisit_child hbudget] at hentry
      obtain ⟨value, hvalue, rfl⟩ := map_eq_ok.mp hentry
      exact congrArg (Prod.mk entry.1) (ih entry hmem (h.child (.field hnode href hmem)) hvalue hbudget rfl)
  | array elems ih =>
    rw [resolveVisit_succ hbudget, hnode, resolveNode_array] at hok
    obtain ⟨results, hresults, rfl⟩ := map_eq_ok.mp hok
    refine congrArg Json.array (eq_of_mapM_eq_ok hresults fun elem hmem value helem => ?_)
    have hchild : (v.child elem).budget = budget + 1 := hbudget
    exact ih elem hmem (h.child (.elem hnode hmem)) ((resolveVisit_succ hchild).trans helem) hbudget rfl
  | _ =>
    rw [resolveVisit_succ hbudget, hnode] at hok
    exact (Except.ok.inj hok).symm

/-- A visit with nothing to resolve gives the node. -/
theorem resolveVisit_of_inert {v : Visit Path} {budget : Nat} (hbudget : v.budget = budget + 1)
    (hchain : v.fromRefChain = false) (h : resolver.Inert v) :
    resolver.resolveVisit v = .ok v.site.node := by
  induction hnode : v.site.node using Json.children_induction generalizing v with
  | object map ih =>
    cases href : refOf v.site.node with
    | some ref =>
      rw [resolveVisit_of_reEnters (h v ref .refl href) hbudget, hchain, hnode]
      rfl
    | none =>
      have hbody : refOf (.object map) = none := hnode ▸ href
      have hsame : map.mapM (resolver.childResult (resolver.resolveInner budget true) v.site.base
          v.seen) = .ok map := by
        refine mapM_eq_self_iff.mpr fun entry hmem => ?_
        have hchild : (v.child entry.2).budget = budget + 1 := hbudget
        rw [resolveVisit_child hbudget,
          ih entry hmem hchild rfl (h.child (.field hnode href hmem)) rfl]
        rfl
      rw [resolveVisit_succ hbudget, hnode, resolveNode_body hbody, hsame]
      rfl
  | array elems ih =>
    have hsame : elems.mapM (resolver.resolveNode (resolver.resolveInner budget true) v.site.base
        v.seen false) = .ok elems := by
      refine mapM_eq_self_iff.mpr fun elem hmem => ?_
      have hchild : (v.child elem).budget = budget + 1 := hbudget
      exact (resolveVisit_succ hchild).symm.trans
        (ih elem hmem hchild rfl (h.child (.elem hnode hmem)) rfl)
    rw [resolveVisit_succ hbudget, hnode, resolveNode_array, hsame]
    rfl
  | _ =>
    rw [resolveVisit_succ hbudget, hnode]
    rfl

/-- A descent stays in its document. -/
theorem descent_site {v v' : Visit Path} (h : ReflTransGen Descent v v') :
    v'.site.base = v.site.base ∧ v'.seen = v.seen ∧
      ReflTransGen Json.PartOf v'.site.node v.site.node := by
  induction h with
  | refl => exact ⟨rfl, rfl, .refl⟩
  | tail _ hstep ih =>
    obtain ⟨hbase, hseen, hpart⟩ := ih
    cases hstep with
    | field hnode _ hmem => exact ⟨hbase, hseen, .head (partOf_entry hnode hmem) hpart⟩
    | elem hnode hmem => exact ⟨hbase, hseen, .head (partOf_elem hnode hmem) hpart⟩

/-- Whether there is nothing to resolve depends on the lookups of the references that are there. -/
theorem Inert.of_lookups {resolver' : RefResolver Path} {v : Visit Path} (h : resolver.Inert v)
    (hsame : ∀ ref, ¬Everywhere (refOf · ≠ some ref) v.site.node →
      resolver'.lookupRef ref v.site.base = resolver.lookupRef ref v.site.base) : resolver'.Inert v := by
  intro v' ref hpath href
  obtain ⟨hbase, -, hpart⟩ := descent_site hpath
  obtain ⟨-, hopen⟩ := h v' ref hpath href
  have hlookup := hsame ref fun hnone => hnone v'.site.node hpart href
  refine ⟨href, hopen.imp id fun hfound => ?_⟩
  rw [hbase] at hfound ⊢
  rwa [hlookup]

/-- What stands at a place is there in the result. -/
theorem descend_of_stands {v : Visit Path} {place : Place} (h : resolver.Stands v place)
    (hkeys : v.site.node.DistinctKeys) {result : Json} (hok : resolver.resolveVisit v = .ok result)
    {x : Json} (hx : v.site.node.descend place = some x) : result.descend place = some x := by
  induction h generalizing result with
  | here hinert =>
    rw [eq_node_of_inert hinert hok]
    exact hx
  | held hopen =>
    rw [eq_node_of_reEnters hopen hok]
    exact hx
  | inside href hchild _ ih =>
    obtain ⟨part, hpart, hselect⟩ := select_of_not_ref href hok hchild
    rw [Json.descend_cons, hchild] at hx
    rw [Json.descend_cons, hselect]
    exact ih (hkeys.select hchild) hpart hx
  | beside hopens hobject hs hchild _ ih =>
    obtain ⟨map, hnode⟩ := refOf_eq_some hopens.reference
    obtain ⟨part, hpart, hselect⟩ :=
      select_of_opens hopens hobject hnode (hkeys [] map (congrArg some hnode)) hok hs hchild
    rw [Json.descend_cons, hchild] at hx
    rw [Json.descend_cons, hselect]
    exact ih (hkeys.select hchild) hpart hx

/-! ## What the resolver changes -/

variable {schema : Json}

/-- What is no reference becomes none. -/
theorem refOf_of_not_ref (hplain : resolver.NoSpelledReference schema) {v : Visit Path}
    (hv : resolver.Visited schema v) (href : refOf v.site.node = none) {result : Json}
    (hok : resolver.resolveVisit v = .ok result) : refOf result = none := by
  obtain ⟨budget, hbudget⟩ := budget_of_ok hok
  cases hresult : refOf result with
  | none => rfl
  | some text =>
    obtain ⟨fields, rfl⟩ := refOf_eq_some hresult
    obtain ⟨map, hnode⟩ := (object_iff_of_not_ref href hok).mp ⟨fields, rfl⟩
    have hbody := href
    rw [resolveVisit_succ hbudget, hnode] at hok
    rw [hnode] at hbody
    rw [resolveNode_body hbody] at hok
    obtain ⟨fields', hfields, heq⟩ := map_eq_ok.mp hok
    obtain rfl := Json.object.inj heq
    obtain ⟨part, hpart, hstring⟩ := Option.bind_eq_some_iff.mp hresult
    have hlookup := get?_of_children hbudget hfields "$ref"
    rw [show Fields.get? fields' "$ref" = some part from hpart] at hlookup
    obtain ⟨w, hw, hresolved⟩ := Option.map_eq_some_iff.mp hlookup
    obtain rfl : part = .string text := by
      cases part with
      | string s => exact congrArg Json.string (Option.some.inj hstring)
      | _ => cases hstring
    obtain ⟨v', hpath, hnode'⟩ := string_of_resolveVisit hresolved
    have hchild : resolver.Visited schema (v.child w) :=
      hv.tail (.field hnode hbody (Fields.mem_of_get? hw))
    exact absurd hnode' (hplain v.site map w v'.site text hv.reached hnode href hw
      (denotes_of_follows hchild hpath))

/-- A reference that is followed is none in the result. -/
theorem refOf_of_follows (hplain : resolver.NoSpelledReference schema) {v : Visit Path}
    (hv : resolver.Visited schema v) (hv' : v.fromRefChain = true ∨ ∃ ref target, resolver.Opens v ref target)
    {result : Json} (hok : resolver.resolveVisit v = .ok result) : refOf result = none := by
  induction hbudget : v.budget generalizing v result with
  | zero =>
    rw [resolveVisit_zero hbudget] at hok
    cases hok
  | succ budget ih =>
    cases href : refOf v.site.node with
    | some ref =>
      rcases @reference_cases _ resolver _ _ href with hopen | ⟨hfresh, e, he⟩ | ⟨target, hopens⟩
      · rcases hv' with hchain | ⟨ref', target, hopens⟩
        · exact absurd hok (not_ok_of_reEnters hchain hopen result)
        · obtain rfl := Option.some.inj (href.symm.trans hopens.reference)
          rcases hopen.2 with hseen | ⟨target', hfound, hseen⟩
          · exact absurd hseen hopens.fresh
          · obtain rfl := Except.ok.inj (hopens.found.symm.trans hfound)
            exact absurd hseen hopens.freshKey
      · exact absurd hok (not_ok_of_lookup href hfresh he result)
      · have hstep : resolver.FollowStep v (v.opened ref target budget) :=
          ⟨ref, target, budget, hopens, hbudget, rfl⟩
        obtain ⟨value, hvalue, hresult⟩ := result_of_opens hopens hbudget hok
        have hnone := ih (hv.tail (.follow hstep)) (.inl rfl) hvalue rfl
        rcases hresult with ⟨-, rfl⟩ | ⟨map, fields, siblings, -, rfl, hsiblings, rfl⟩
        · exact hnone
        · exact (refOf_overlay (keys_of_children hsiblings)).trans hnone
    | none => exact refOf_of_not_ref hplain hv href hok

/-- What is not changed is inert. -/
theorem inert_of_resolveVisit (hplain : resolver.NoSpelledReference schema) {v : Visit Path}
    (hv : resolver.Visited schema v) (hok : resolver.resolveVisit v = .ok v.site.node) :
    resolver.Inert v := by
  obtain ⟨budget, hbudget⟩ := budget_of_ok hok
  induction hnode : v.site.node using Json.children_induction generalizing v with
  | object map ih =>
    intro v' ref' hpath href'
    cases href : refOf v.site.node with
    | some ref =>
      have hself : v' = v := by
        rcases ReflTransGen.cases_head hpath with heq | ⟨u, hstep, -⟩
        · exact heq.symm
        · cases hstep with
          | field _ hbody _ =>
            rw [href] at hbody
            cases hbody
          | elem harray _ =>
            rw [hnode] at harray
            cases harray
      subst hself
      obtain rfl := Option.some.inj (href.symm.trans href')
      rcases @reference_cases _ resolver _ _ href with hopen | ⟨hfresh, e, he⟩ | ⟨target, hopens⟩
      · exact hopen
      · exact absurd hok (not_ok_of_lookup href hfresh he _)
      · rw [refOf_of_follows hplain hv (.inr ⟨ref, target, hopens⟩) hok] at href
        cases href
    | none =>
      have hbody := href
      rw [hnode] at hbody
      rw [resolveVisit_succ hbudget, hnode, resolveNode_body hbody] at hok
      obtain ⟨fields, hfields, heq⟩ := map_eq_ok.mp hok
      obtain rfl := Json.object.inj heq
      rcases ReflTransGen.cases_head hpath with heq | ⟨u, hstep, hrest⟩
      · rw [← heq, href] at href'
        cases href'
      · cases hstep with
        | @field map' entry hnode' _ hmem =>
          obtain rfl := Json.object.inj (hnode.symm.trans hnode')
          have hentry := mapM_eq_self_iff.mp hfields entry hmem
          rw [resolveVisit_child hbudget] at hentry
          obtain ⟨value, hvalue, heq⟩ := map_eq_ok.mp hentry
          obtain rfl : value = entry.2 := congrArg Prod.snd heq
          exact ih entry hmem (hv.tail (.field hnode hbody hmem)) hvalue hbudget rfl v' ref' hrest href'
        | elem harray _ =>
          rw [hnode] at harray
          cases harray
  | array elems ih =>
    intro v' ref' hpath href'
    rw [resolveVisit_succ hbudget, hnode, resolveNode_array] at hok
    obtain ⟨results, hresults, heq⟩ := map_eq_ok.mp hok
    obtain rfl := Json.array.inj heq
    rcases ReflTransGen.cases_head hpath with heq | ⟨u, hstep, hrest⟩
    · rw [← heq, hnode] at href'
      cases href'
    · cases hstep with
      | field hobject _ _ =>
        rw [hnode] at hobject
        cases hobject
      | @elem elems' value hnode' hmem =>
        obtain rfl := Json.array.inj (hnode.symm.trans hnode')
        have hchild : (v.child value).budget = budget + 1 := hbudget
        have helem := (resolveVisit_succ hchild).trans (mapM_eq_self_iff.mp hresults value hmem)
        exact ih value hmem (hv.tail (.elem hnode hmem)) helem hbudget rfl v' ref' hrest href'
  | _ =>
    intro v' ref' hpath href'
    rcases ReflTransGen.cases_head hpath with heq | ⟨u, hstep, -⟩
    · rw [← heq, hnode] at href'
      cases href'
    · cases hstep with
      | field hobject _ _ =>
        rw [hnode] at hobject
        cases hobject
      | elem harray _ =>
        rw [hnode] at harray
        cases harray

/-- A part of what is no reference is visited. -/
theorem Visited.select {v : Visit Path} (hv : resolver.Visited schema v) (href : refOf v.site.node = none)
    {s : Selector} {child : Json} (hchild : v.site.node.select s = some child) :
    resolver.Visited schema (v.child child) := by
  cases hnode : v.site.node with
  | object map =>
    rw [hnode] at hchild href
    cases s with
    | key name => exact hv.tail (.field hnode href (Fields.mem_of_get? hchild))
    | index i => cases hchild
  | array elems =>
    rw [hnode] at hchild
    cases s with
    | key name => cases hchild
    | index i => exact hv.tail (.elem hnode (List.mem_of_getElem? hchild))
  | _ =>
    rw [hnode] at hchild
    cases s <;> cases hchild

/-- What is at a place in the result, as it was, stands there. -/
theorem stands_of_descend (hplain : resolver.NoSpelledReference schema) {place : Place} {v : Visit Path}
    (hv : resolver.Visited schema v) (hkeys : v.site.node.DistinctKeys) {result : Json}
    (hok : resolver.resolveVisit v = .ok result) {x : Json} (hx : v.site.node.descend place = some x)
    (hresult : result.descend place = some x) (hlast : place.getLast? ≠ some (.key "$ref")) :
    resolver.Stands v place := by
  induction place generalizing v result with
  | nil =>
    obtain rfl := Option.some.inj hx
    obtain rfl := Option.some.inj hresult
    exact .here (inert_of_resolveVisit hplain hv hok)
  | cons s rest ih =>
    rw [Json.descend_cons] at hx hresult
    obtain ⟨child, hchild, hbelow⟩ := Option.bind_eq_some_iff.mp hx
    have hlast' : rest.getLast? ≠ some (.key "$ref") := by
      cases rest with
      | nil => exact fun h => by cases h
      | cons s' rest => rwa [List.getLast?_cons_cons] at hlast
    have hstands : resolver.Visited schema (v.child child) →
        (∃ part, resolver.resolveVisit (v.child child) = .ok part ∧ result.select s = some part) →
          resolver.Stands (v.child child) rest := by
      rintro hvisited ⟨part, hpart, hselect⟩
      rw [hselect] at hresult
      exact ih hvisited (hkeys.select hchild) hpart hbelow hresult hlast'
    cases href : refOf v.site.node with
    | none =>
      exact .inside href hchild (hstands (hv.select href hchild) (select_of_not_ref href hok hchild))
    | some ref =>
      rcases @reference_cases _ resolver _ _ href with hopen | ⟨hfresh, e, he⟩ | ⟨target, hopens⟩
      · exact .held hopen
      · exact absurd hok (not_ok_of_lookup href hfresh he result)
      · obtain ⟨map, hnode⟩ := refOf_eq_some href
        have hselect := hchild
        rw [hnode] at hselect
        cases s with
        | index i => cases hselect
        | key name =>
          have hname : name ≠ "$ref" := by
            rintro rfl
            -- the reference is a string, and the place does not end there
            obtain ⟨w, hw, htext⟩ := Option.bind_eq_some_iff.mp href
            obtain rfl := Option.some.inj (hchild.symm.trans hw)
            cases rest with
            | nil => exact hlast rfl
            | cons s' rest =>
              obtain ⟨part, hpart, -⟩ := Option.bind_eq_some_iff.mp hbelow
              cases child with
              | string s => cases s' <;> cases hpart
              | _ => cases htext
          have hs : Selector.key name ≠ .key "$ref" := fun heq => hname (Selector.key.inj heq)
          have hobject : resolver.EndsInObject (targetSite v.site.base target) := by
            by_contra hends
            obtain ⟨part, hpart, -⟩ := Option.bind_eq_some_iff.mp hresult
            exact not_object_of_opens hopens hends hok
              (Json.isObject_iff.mp (Json.isObject_of_ofJson? hpart))
          refine .beside hopens hobject hs hchild (hstands ?_ ?_)
          · exact hv.tail (.sibling hnode hopens hobject (Fields.mem_of_get? hselect) hname)
          · exact select_of_opens hopens hobject hnode (hkeys [] map (congrArg some hnode)) hok hs hchild

end RefResolver

/-! ## All the rewrites -/

/-- Every rewrite leaves the data in a schema where it is, as it is. -/
structure LeavesData (resolver : RefResolver Path) (schema : Json) : Prop where
  strict : StrictKeepsData schema
  stripped : KeepsData keptKeywords schema (stripExtensionKeywords schema)
  described : KeepsData keptKeywords schema (applyLlmDescriptions schema)
  undeclared : KeepsData keptKeywords schema (stripNestedSchema schema true)
  resolved : ∀ result, resolver.resolve schema = .ok result → KeepsData keptKeywords schema result

/-- The rewrites find nothing to do in the data of a schema. -/
structure PlainData (resolver : RefResolver Path) (schema : Json) : Prop where
  strict : ∀ place keyword v, DataAt dataKeywords schema place keyword v → Stays schema place →
    BareData true v
  stripped : ∀ place keyword v, DataAt keptKeywords schema place keyword v → BareData false v
  described : ∀ place keyword v, DataAt keptKeywords schema place keyword v → DescribedData v
  undeclared : ∀ place keyword v, DataAt keptKeywords schema place keyword v → UndeclaredData v
  stands : ∀ result, resolver.resolve schema = .ok result → ∀ place keyword v,
    DataAt keptKeywords schema place keyword v →
      resolver.Stands (resolver.start schema) (place ++ [.key keyword])

variable (resolver : RefResolver Path) (schema : Json)

/-- The data in a schema is left alone where there is nothing to do in it. Where no object becomes a
reference, it is left alone only there. -/
theorem leavesData_exact (hkeys : schema.DistinctKeys) :
    (PlainData resolver schema → LeavesData resolver schema) ∧
      (resolver.NoSpelledReference schema → LeavesData resolver schema → PlainData resolver schema) := by
  constructor
  · rintro ⟨hstrict, hstripped, hdescribed, hundeclared, hstands⟩
    refine ⟨(toStrictSchema_keepsData_iff schema).mpr hstrict,
      (stripExtensionKeywords_keepsData_iff schema).mpr hstripped,
      (applyLlmDescriptions_keepsData_iff schema).mpr hdescribed,
      (stripNestedSchema_keepsData_iff schema).mpr hundeclared, ?_⟩
    intro result hok place keyword v hdata
    exact RefResolver.descend_of_stands (hstands result hok place keyword v hdata) hkeys hok hdata.found
  · rintro hplain ⟨hstrict, hstripped, hdescribed, hundeclared, hresolved⟩
    refine ⟨(toStrictSchema_keepsData_iff schema).mp hstrict,
      (stripExtensionKeywords_keepsData_iff schema).mp hstripped,
      (applyLlmDescriptions_keepsData_iff schema).mp hdescribed,
      (stripNestedSchema_keepsData_iff schema).mp hundeclared, ?_⟩
    intro result hok place keyword v hdata
    refine RefResolver.stands_of_descend hplain .refl hkeys hok hdata.found
      (hresolved result hok place keyword v hdata) ?_
    have hall : ∀ keyword ∈ keptKeywords, keyword ≠ "$ref" := by decide
    rw [List.getLast?_concat]
    exact fun heq => hall keyword hdata.listed (Selector.key.inj (Option.some.inj heq))

/-- A constant that is an object. -/
def kindSchema : Json := .object [("const", .object [("kind", .string "cat")])]

theorem kindSchema_distinctKeys : kindSchema.DistinctKeys := by
  refine Json.distinctKeys_object (by decide) fun key v hv => ?_
  rw [Fields.get?_cons] at hv
  obtain ⟨rfl, hv⟩ := Option.ite_none_right_eq_some.mp hv
  obtain rfl := Option.some.inj hv
  refine Json.distinctKeys_object (by decide) fun key v hv => ?_
  rw [Fields.get?_cons] at hv
  obtain ⟨rfl, hv⟩ := Option.ite_none_right_eq_some.mp hv
  obtain rfl := Option.some.inj hv
  intro place map hmap
  cases place with
  | nil => cases hmap
  | cons s place =>
    obtain ⟨child, hchild, -⟩ := Option.bind_eq_some_iff.mp hmap
    cases s <;> cases hchild

theorem data_kindSchema {keywords : List String} {place : Place} {keyword : String} {v : Json}
    (h : DataAt keywords kindSchema place keyword v) :
    place = [] ∧ keyword = "const" ∧ v = .object [("kind", .string "cat")] := by
  have hkey : ∀ {key : String} {v : Json}, Fields.ofJson? kindSchema key = some v →
      key = "const" ∧ v = .object [("kind", .string "cat")] := by
    intro key v hv
    change Fields.get? [("const", Json.object [("kind", .string "cat")])] key = some v at hv
    rw [Fields.get?_cons] at hv
    obtain ⟨rfl, hv⟩ := Option.ite_none_right_eq_some.mp hv
    exact ⟨rfl, (Option.some.inj hv).symm⟩
  obtain ⟨leaf, hleaf, hv⟩ := descend_keyword.mp h.found
  cases h.position with
  | here =>
    obtain rfl := Option.some.inj hleaf
    exact ⟨rfl, hkey hv⟩
  | step hstep _ =>
    rw [Json.descend_append] at hleaf
    obtain ⟨child, hchild, -⟩ := Option.bind_eq_some_iff.mp hleaf
    obtain ⟨key, rest, holding, rfl, hmem⟩ := hstep.exists_key
    obtain ⟨value, hvalue, -⟩ := Option.bind_eq_some_iff.mp hchild
    have hall : ∀ entry ∈ allPositions, entry.1 ≠ "const" := by decide
    exact absurd (hkey hvalue).1 (hall _ hmem)

/-- There is nothing to do in it, and so it is left alone. -/
theorem leavesData_kind : kindSchema.DistinctKeys ∧ PlainData RefResolver.plain kindSchema ∧
    LeavesData RefResolver.plain kindSchema := by
  have hmeets : ∀ {deep names : Bool} {map : List (String × Json)},
      Meets deep false (.object [("kind", .string "cat")]) names map → map = [("kind", .string "cat")] := by
    intro deep names map h
    cases h with
    | here => rfl
    | entry hmem h =>
      obtain rfl := List.mem_singleton.mp hmem
      cases h
  have hplain : PlainData RefResolver.plain kindSchema := by
    refine ⟨fun place keyword v hdata _ => ?_, fun place keyword v hdata => ?_,
      fun place keyword v hdata => ?_, fun place keyword v hdata => ?_,
      fun result _ place keyword v hdata => ?_⟩
    all_goals obtain ⟨rfl, rfl, rfl⟩ := data_kindSchema hdata
    · intro map h
      obtain rfl := hmeets h
      decide
    · intro map h
      obtain rfl := hmeets h
      decide
    · intro map description llmDesc h hdescription
      obtain rfl := hmeets h
      cases hdescription
    · intro names map h entry hmem hkey
      obtain rfl := hmeets h
      obtain rfl := List.mem_singleton.mp hmem
      exact absurd hkey (by decide)
    · refine .inside rfl rfl (.here fun v' ref hpath href => ?_)
      rcases Relation.ReflTransGen.cases_head hpath with heq | ⟨u, hstep, hrest⟩
      · subst heq
        cases href
      · cases hstep with
        | elem hnode _ => cases hnode
        | field hnode _ hmem =>
          obtain rfl := Json.object.inj hnode
          obtain rfl := List.mem_singleton.mp hmem
          rcases Relation.ReflTransGen.cases_head hrest with heq | ⟨u, hstep, -⟩
          · subst heq
            cases href
          · cases hstep with
            | elem hnode _ => cases hnode
            | field hnode _ _ => cases hnode
  exact ⟨kindSchema_distinctKeys, hplain,
    (leavesData_exact RefResolver.plain kindSchema kindSchema_distinctKeys).1 hplain⟩

/-- A constant with keys that mean something in a schema. -/
def keywordSchema : Json :=
  .object [("$defs", .object [("T", .object [("type", .string "string")])]),
    ("const", .object [("$ref", .string "#/$defs/T"), ("$schema", .string "draft-07"),
      ("description", .string "short"), ("x-llm-description", .string "long")])]

/-- None of the rewrites leaves it alone. -/
theorem keywordSchema_rewritten : ¬StrictKeepsData keywordSchema ∧
    ¬KeepsData keptKeywords keywordSchema (stripExtensionKeywords keywordSchema) ∧
      ¬KeepsData keptKeywords keywordSchema (applyLlmDescriptions keywordSchema) ∧
        ¬KeepsData keptKeywords keywordSchema (stripNestedSchema keywordSchema true) ∧
          ∃ result, RefResolver.plain.resolve keywordSchema = .ok result ∧
            ¬KeepsData keptKeywords keywordSchema result := by
  have hdata : ∀ {keywords}, "const" ∈ keywords → DataAt keywords keywordSchema [] "const" (.object
      [("$ref", .string "#/$defs/T"), ("$schema", .string "draft-07"),
        ("description", .string "short"), ("x-llm-description", .string "long")]) :=
    fun hmem => ⟨.here, hmem, rfl⟩
  have hkept : "const" ∈ keptKeywords := by decide
  have hlost : ∀ (key : String) {kept : Bool} {result : Option Json} {data : Json}, result = some data →
      (result.bind (Fields.ofJson? · key)).isSome = kept → (Fields.ofJson? data key).isSome = kept := by
    rintro key kept result data rfl h
    exact h
  refine ⟨fun h => ?_, fun h => ?_, fun h => ?_, fun h => ?_, _, rfl, fun h => ?_⟩
  · have hbare := (toStrictSchema_keepsData_iff _).mp h _ _ _ (hdata (by decide)) .here _ .here
      ("x-llm-description", .string "long") (by simp)
    exact absurd hbare (by decide)
  · exact absurd (hlost "x-llm-description" (h _ _ _ (hdata hkept)) rfl) Bool.noConfusion
  · have hsame : some (Json.string "long") = some (Json.string "short") :=
      congrArg (fun r : Option Json => r.bind (Fields.ofJson? · "description")) (h _ _ _ (hdata hkept))
    exact absurd (Json.string.inj (Option.some.inj hsame)) (by decide)
  · exact absurd (hlost "$schema" (h _ _ _ (hdata hkept)) rfl) Bool.noConfusion
  · exact absurd (hlost "$ref" (h _ _ _ (hdata hkept)) rfl) Bool.noConfusion

end Apcore
