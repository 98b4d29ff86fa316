import Apcore.Lib.Walks
import Apcore.Schema.RefWalk

/-! # `Schema.RefCycles` — which references are circular

A reference is circular where following it never comes to a body. The walk answers a different
question: whether a reference that another one leads to has a key that is already open. The two agree
but for alias definitions that lead back to what is being resolved, and for references the walk
passes over. -/

namespace Apcore

open Chains Relation

variable {Path : Type}

/-- A child of an object or an array. -/
def Json.PartOf (part whole : Json) : Prop :=
  (∃ map, whole = .object map ∧ ∃ entry ∈ map, entry.2 = part) ∨
    ∃ elems, whole = .array elems ∧ part ∈ elems

namespace RefResolver

variable (resolver : RefResolver Path) (schema : Json)

/-! ## What references denote -/

/-- What the reference at a site denotes: an alias of the schema the schema, where that is the
document, and any other reference its target. -/
inductive Denotes (site : Site Path) : Site Path → Prop
  | root {ref} (href : refOf site.node = some ref) (hbase : site.base = resolver.documentBase schema)
      (halias : ref ∈ rootRefAliases schema) : Denotes site ⟨schema, resolver.documentBase schema⟩
  | target {ref target} (href : refOf site.node = some ref)
      (hother : ¬ (site.base = resolver.documentBase schema ∧ ref ∈ rootRefAliases schema))
      (hfound : resolver.lookupRef ref site.base = .ok target) :
      Denotes site (targetSite site.base target)

theorem denotes_unique : Relator.RightUnique (resolver.Denotes schema) := by
  intro site first second h h'
  cases h with
  | root href hbase halias =>
    cases h' with
    | root _ _ _ => rfl
    | target href' hother _ =>
      obtain rfl := Option.some.inj (href.symm.trans href')
      exact absurd ⟨hbase, halias⟩ hother
  | target href hother hfound =>
    cases h' with
    | root href' hbase halias =>
      obtain rfl := Option.some.inj (href.symm.trans href')
      exact absurd ⟨hbase, halias⟩ hother
    | target href' _ hfound' =>
      obtain rfl := Option.some.inj (href.symm.trans href')
      obtain rfl := Except.ok.inj (hfound.symm.trans hfound')
      rfl

/-- Following the reference at a site never comes to a body. -/
def Circular (site : Site Path) : Prop := Endless (resolver.Denotes schema) site

/-! ## The walk of a schema -/

/-- The call `resolve` makes. -/
def start : Visit Path where
  site := ⟨schema, resolver.documentBase schema⟩
  seen := rootRefAliases schema
  budget := resolver.maxDepth
  fromRefChain := false

theorem resolve_eq_resolveVisit : resolver.resolve schema = resolver.resolveVisit (resolver.start schema) :=
  rfl

def Visited (v : Visit Path) : Prop := ReflTransGen resolver.Step (resolver.start schema) v

/-- The references the claim is about: those anywhere in the schema, and those of the other documents
the walk comes to. -/
def Concerned (site : Site Path) : Prop :=
  (site.base = resolver.documentBase schema ∧ ReflTransGen Json.PartOf site.node schema) ∨
    ∃ v, resolver.Visited schema v ∧ v.site = site

/-- Following references from a visit leads to one that is open. -/
def LeadsBack (v : Visit Path) : Prop :=
  ∃ v' ref, ReflTransGen resolver.FollowStep v v' ∧ resolver.ReEnters v' ref

/-- What the resolver is to do: it reports circular references exactly where there are some, and
leaves a reference that leads back, and does come to a body, as a reference. -/
structure Classifies : Prop where
  circular : (∃ e, resolver.resolve schema = .error e ∧ e.code = .schemaCircularRef) ↔
    ∃ site, resolver.Concerned schema site ∧ resolver.Circular schema site
  detected : resolver.hasCircularRefs schema = true ↔
    ∃ site, resolver.Concerned schema site ∧ resolver.Circular schema site
  kept : ∀ v, resolver.Visited schema v → v.fromRefChain = false → 0 < v.budget →
    resolver.LeadsBack v → ¬ resolver.Circular schema v.site →
    ∃ left, resolver.resolveVisit v = .ok left ∧ (refOf left).isSome

/-- No alias leads back, and a circular reference is not passed over. -/
structure AliasesLeadOn : Prop where
  /-- A reference that another one leads to is open only where it is circular. -/
  ahead : ∀ v ref, resolver.Visited schema v → v.fromRefChain = true → resolver.ReEnters v ref →
    resolver.Circular schema v.site
  /-- Where there is a circular reference, the walk follows one. -/
  followed : (∃ site, resolver.Concerned schema site ∧ resolver.Circular schema site) →
    ∃ v ref target, resolver.Visited schema v ∧ resolver.Opens v ref target ∧
      resolver.Circular schema v.site

variable {resolver schema}

/-! ## Lemmas of the walk -/

/-- The aliases of the schema stay open. -/
theorem Visited.aliases {v : Visit Path} (h : resolver.Visited schema v) :
    ∀ ref ∈ rootRefAliases schema, ref ∈ v.seen := by
  induction h with
  | refl => exact fun _ href => href
  | tail _ hstep ih =>
    cases hstep with
    | follow hfollow =>
      obtain ⟨ref, target, budget, -, -, rfl⟩ := hfollow
      exact fun name hname => List.mem_cons_of_mem _ (List.mem_cons_of_mem _ (ih name hname))
    | _ => exact ih

/-- A followed reference denotes its target. -/
theorem Opens.denotes {v : Visit Path} (haliases : ∀ ref ∈ rootRefAliases schema, ref ∈ v.seen)
    {ref : String} {target : RefTarget Path} (h : resolver.Opens v ref target) :
    resolver.Denotes schema v.site (targetSite v.site.base target) :=
  .target h.reference (fun halias => h.fresh (haliases ref halias.2)) h.found

/-- References followed on end are visited, and share the fate of the first. -/
theorem visited_of_follows {v v' : Visit Path} (hv : resolver.Visited schema v)
    (h : ReflTransGen resolver.FollowStep v v') :
    resolver.Visited schema v' ∧
      (resolver.Circular schema v.site ↔ resolver.Circular schema v'.site) := by
  induction h with
  | refl => exact ⟨hv, Iff.rfl⟩
  | tail _ hstep ih =>
    obtain ⟨hvisited, hfate⟩ := ih
    refine ⟨hvisited.tail (.follow hstep), hfate.trans ?_⟩
    obtain ⟨ref, target, budget, hopens, -, rfl⟩ := hstep
    exact endless_iff_of_step (denotes_unique resolver schema) (hopens.denotes hvisited.aliases)

theorem fromRefChain_of_followStep {v v' : Visit Path} (h : resolver.FollowStep v v') :
    v'.fromRefChain = true := by
  obtain ⟨ref, target, budget, -, -, rfl⟩ := h
  rfl

/-- What a reference leads to is where references followed from a first one have led. -/
theorem exists_first {v' : Visit Path} (h : resolver.Visited schema v')
    (hchain : v'.fromRefChain = true) :
    ∃ v ref target, resolver.Visited schema v ∧ v.fromRefChain = false ∧
      resolver.Opens v ref target ∧ 0 < v.budget ∧ ReflTransGen resolver.FollowStep v v' := by
  induction h with
  | refl => cases hchain
  | @tail u v' hu hstep ih =>
    cases hstep with
    | follow hfollow =>
      cases hbefore : u.fromRefChain with
      | true =>
        obtain ⟨v, ref, target, hv, hfirst, hopens, hbudget, hpath⟩ := ih hbefore
        exact ⟨v, ref, target, hv, hfirst, hopens, hbudget, hpath.tail hfollow⟩
      | false =>
        obtain ⟨ref, target, budget, hopens, hbudget, -⟩ := id hfollow
        exact ⟨u, ref, target, hu, hbefore, hopens, by omega, .single hfollow⟩
    | _ => cases hchain

/-- Behind a reference, an open one ends the resolution. -/
theorem not_ok_of_reEnters {v : Visit Path} {ref : String} (hchain : v.fromRefChain = true)
    (h : resolver.ReEnters v ref) (result : Json) : resolver.resolveVisit v ≠ .ok result := by
  intro hok
  obtain ⟨budget, hbudget⟩ := budget_of_ok hok
  rw [resolveVisit_of_reEnters h hbudget, hchain] at hok
  cases hok

theorem ok_of_follows {v v' : Visit Path} (h : ReflTransGen resolver.FollowStep v v')
    {result : Json} (hok : resolver.resolveVisit v = .ok result) :
    ∃ result', resolver.resolveVisit v' = .ok result' :=
  ok_of_reaches (h.lift id fun _ _ hstep => .follow hstep) hok

/-- Behind a reference, a circular one is not resolved, however much budget is left. -/
theorem not_ok_of_circular {v : Visit Path} (hchain : v.fromRefChain = true)
    (haliases : ∀ ref ∈ rootRefAliases schema, ref ∈ v.seen)
    (hcircular : resolver.Circular schema v.site) (result : Json) :
    resolver.resolveVisit v ≠ .ok result := by
  induction hbudget : v.budget generalizing v result with
  | zero =>
    rw [resolveVisit_zero hbudget]
    intro h
    cases h
  | succ budget ih =>
    intro hok
    obtain ⟨next, hnext, hrest⟩ := hcircular.step
    have href : ∃ ref, refOf v.site.node = some ref := by
      cases hnext with
      | root href _ _ => exact ⟨_, href⟩
      | target href _ _ => exact ⟨_, href⟩
    obtain ⟨ref, href⟩ := href
    rcases @reference_cases _ resolver _ _ href with hopen | ⟨hfresh, e, he⟩ | ⟨target, h⟩
    · exact not_ok_of_reEnters hchain hopen result hok
    · cases hnext with
      | root href' _ halias =>
        obtain rfl := Option.some.inj (href.symm.trans href')
        exact hfresh (haliases ref halias)
      | target href' _ hfound =>
        obtain rfl := Option.some.inj (href.symm.trans href')
        rw [he] at hfound
        cases hfound
    · obtain rfl := denotes_unique resolver schema hnext (h.denotes haliases)
      have hfollow : resolver.FollowStep v (v.opened ref target budget) :=
        ⟨ref, target, budget, h, hbudget, rfl⟩
      obtain ⟨value, hvalue⟩ := ok_of_follows (.single hfollow) hok
      have haliases' : ∀ name ∈ rootRefAliases schema, name ∈ (v.opened ref target budget).seen :=
        fun name hname => List.mem_cons_of_mem _ (List.mem_cons_of_mem _ (haliases name hname))
      exact ih rfl haliases' hrest value rfl hvalue

theorem hasCircularRefs_iff :
    resolver.hasCircularRefs schema = true ↔
      ∃ e, resolver.resolve schema = .error e ∧ e.code = .schemaCircularRef := by
  unfold hasCircularRefs
  cases resolver.resolve schema with
  | ok result => simp
  | error e => simp

/-! ## The classification -/

/-- Where the walk goes as it should, a reported circular reference is one. -/
theorem AliasesLeadOn.sound (h : resolver.AliasesLeadOn schema) {e : ModuleError}
    (herr : resolver.resolve schema = .error e) (hcode : e.code = .schemaCircularRef) :
    ∃ site, resolver.Concerned schema site ∧ resolver.Circular schema site := by
  obtain ⟨v, ref, hvisited, hchain, hopen⟩ := circular_of_error (v := resolver.start schema) herr hcode
  exact ⟨v.site, .inr ⟨v, hvisited, rfl⟩, h.ahead v ref hvisited hchain hopen⟩

/-- A circular reference that the walk follows is not resolved. -/
theorem not_ok_of_followed {v : Visit Path} {ref : String} {target : RefTarget Path}
    (hv : resolver.Visited schema v) (hopens : resolver.Opens v ref target)
    (hcircular : resolver.Circular schema v.site) (result : Json) :
    resolver.resolve schema ≠ .ok result := by
  intro hok
  obtain ⟨value, hvalue⟩ := ok_of_reaches hv hok
  obtain ⟨budget, hbudget⟩ := budget_of_ok hvalue
  have hfollow : resolver.FollowStep v (v.opened ref target budget) :=
    ⟨ref, target, budget, hopens, hbudget, rfl⟩
  obtain ⟨hvisited, hfate⟩ := visited_of_follows hv (.single hfollow)
  obtain ⟨value', hvalue'⟩ := ok_of_follows (.single hfollow) hvalue
  exact not_ok_of_circular rfl hvisited.aliases (hfate.mp hcircular) value' hvalue'

/-- Where the walk goes as it should, a reference that leads back is open itself, and stays. -/
theorem AliasesLeadOn.kept (h : resolver.AliasesLeadOn schema) {v : Visit Path}
    (hv : resolver.Visited schema v) (hfirst : v.fromRefChain = false) (hbudget : 0 < v.budget)
    (hback : resolver.LeadsBack v) (hends : ¬ resolver.Circular schema v.site) :
    ∃ left, resolver.resolveVisit v = .ok left ∧ (refOf left).isSome := by
  obtain ⟨v', ref, hpath, hopen⟩ := hback
  obtain ⟨hvisited, hfate⟩ := visited_of_follows hv hpath
  cases hpath with
  | refl =>
    obtain ⟨budget, hbudget⟩ := Nat.exists_eq_succ_of_ne_zero hbudget.ne'
    refine ⟨v.site.node, ?_, ?_⟩
    · rw [resolveVisit_of_reEnters hopen hbudget, hfirst]
      rfl
    · rw [hopen.1]
      rfl
  | tail _ hlast =>
    have hcircular := h.ahead v' ref hvisited (fromRefChain_of_followStep hlast) hopen
    exact absurd (hfate.mpr hcircular) hends

/-- A resolver whose only errors are circular references classifies them as it should if and only if
no alias leads back to an open reference and no circular reference is passed over. -/
theorem classifies_iff
    (honly : ∀ e, resolver.resolve schema = .error e → e.code = .schemaCircularRef) :
    resolver.Classifies schema ↔ resolver.AliasesLeadOn schema := by
  constructor
  · intro h
    have hahead : ∀ v ref, resolver.Visited schema v → v.fromRefChain = true →
        resolver.ReEnters v ref → resolver.Circular schema v.site := by
      intro v' ref hv' hchain hopen
      by_contra hends
      obtain ⟨v, first, target, hv, hfirst, -, hbudget, hpath⟩ := exists_first hv' hchain
      have hfate := (visited_of_follows hv hpath).2
      obtain ⟨left, hleft, -⟩ :=
        h.kept v hv hfirst hbudget ⟨v', ref, hpath, hopen⟩ fun hcirc => hends (hfate.mp hcirc)
      obtain ⟨result, hresult⟩ := ok_of_follows hpath hleft
      exact not_ok_of_reEnters hchain hopen result hresult
    refine ⟨hahead, fun hexists => ?_⟩
    obtain ⟨e, herr, hcode⟩ := h.circular.mpr hexists
    obtain ⟨v', ref, hv', hchain, hopen⟩ := circular_of_error (v := resolver.start schema) herr hcode
    obtain ⟨v, first, target, hv, -, hopens, -, hpath⟩ := exists_first hv' hchain
    have hfate := (visited_of_follows hv hpath).2
    exact ⟨v, first, target, hv, hopens, hfate.mpr (hahead v' ref hv' hchain hopen)⟩
  · intro h
    have hcircular : (∃ e, resolver.resolve schema = .error e ∧ e.code = .schemaCircularRef) ↔
        ∃ site, resolver.Concerned schema site ∧ resolver.Circular schema site := by
      constructor
      · rintro ⟨e, herr, hcode⟩
        exact h.sound herr hcode
      · intro hexists
        obtain ⟨v, ref, target, hv, hopens, hcirc⟩ := h.followed hexists
        cases hresult : resolver.resolve schema with
        | ok result => exact absurd hresult (not_ok_of_followed hv hopens hcirc result)
        | error e => exact ⟨e, rfl, honly e hresult⟩
    exact ⟨hcircular, hasCircularRefs_iff.trans hcircular, fun _ => h.kept⟩

/-! ### An alias of the root -/

/-- A file system without files. -/
def noFiles : FileSystem String where
  join := fun directory file => directory ++ "/" ++ file
  parent := fun _ => none
  extension := fun _ => none
  display := id
  normalize := id
  startsWith := fun _ _ => true
  isFile := fun _ => false
  readToString := fun _ => .error "not found"
  parseJson := fun _ => .error "no JSON"
  parseYaml := fun _ => .error "no YAML"

/-- `RefResolver::new()`. -/
def plain : RefResolver String := { fs := noFiles }

/-- A node with a list of children of its own kind. -/
def treeSchema : Json :=
  .object [("properties", .object [("children", .object [("items", .object [("$ref", .string "#")])])]),
    ("type", .string "object")]

/-- A recursive schema without aliases is classified as it should be, as its walk goes. -/
theorem classifies_iff_tree : plain.Classifies treeSchema ↔ plain.AliasesLeadOn treeSchema := by
  refine classifies_iff fun e herr => ?_
  have hok : plain.resolve treeSchema = .ok treeSchema := rfl
  rw [hok] at herr
  cases herr

/-- A child that names the root by way of a definition. -/
def aliasSchema : Json :=
  .object [("$defs", .object [("Node", .object [("$ref", .string "#")])]),
    ("properties", .object [("child", .object [("$ref", .string "#/$defs/Node")])])]

/-- The visit of the child. -/
def aliasVisit : Visit String :=
  ((plain.start aliasSchema).child
    (.object [("child", .object [("$ref", .string "#/$defs/Node")])])).child
    (.object [("$ref", .string "#/$defs/Node")])

/-- The definition it names. -/
def aliasTarget : RefTarget String where
  value := .object [("$ref", .string "#")]
  root := aliasSchema
  sameDocument := true
  file := none
  seenKey := "#/$defs/Node"

theorem aliasVisit_opens : plain.Opens aliasVisit "#/$defs/Node" aliasTarget where
  reference := rfl
  fresh := by decide
  found := rfl
  freshKey := by decide

theorem aliasVisit_visited : plain.Visited aliasSchema aliasVisit := by
  have hproperties : plain.Step (plain.start aliasSchema) ((plain.start aliasSchema).child
      (.object [("child", .object [("$ref", .string "#/$defs/Node")])])) :=
    @RefResolver.Step.field _ _ _ _ ("properties", _) rfl rfl (by simp)
  have hchild : plain.Step ((plain.start aliasSchema).child
      (.object [("child", .object [("$ref", .string "#/$defs/Node")])])) aliasVisit :=
    @RefResolver.Step.field _ _ _ _ ("child", _) rfl rfl (by simp)
  exact (ReflTransGen.single hproperties).tail hchild

/-- The child comes to a body, the root's, and the resolver reports it as circular. -/
theorem alias_of_root_not_classified :
    plain.resolve aliasSchema = .error (circularRefError "#") ∧
      ¬ plain.Circular aliasSchema aliasVisit.site ∧ ¬ plain.Classifies aliasSchema := by
  have hends : ¬ plain.Circular aliasSchema aliasVisit.site := by
    have hnode := aliasVisit_opens.denotes aliasVisit_visited.aliases
    have hroot : plain.Denotes aliasSchema (targetSite aliasVisit.site.base aliasTarget)
        ⟨aliasSchema, plain.documentBase aliasSchema⟩ :=
      .root rfl rfl (by decide)
    refine not_endless_of_reaches (denotes_unique _ _) ((ReflTransGen.single hnode).tail hroot) ?_
    rintro site (⟨href, -, -⟩ | ⟨href, -, -⟩)
    · cases href
    · cases href
  refine ⟨rfl, hends, fun h => ?_⟩
  have hback : plain.LeadsBack aliasVisit := by
    refine ⟨_, "#", .single ⟨"#/$defs/Node", aliasTarget, 31, aliasVisit_opens, rfl, rfl⟩, rfl, ?_⟩
    exact .inl (by decide)
  obtain ⟨left, hleft, -⟩ := h.kept aliasVisit aliasVisit_visited rfl (by decide) hback hends
  cases hleft

end RefResolver

end Apcore
