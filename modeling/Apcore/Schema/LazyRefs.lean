import Apcore.Schema.ResolveInlines

/-! # `Schema.LazyRefs` — the references that are left

A reference that is open stays as it is written, and stands in the result whatever document it was
written in. There it is one of the result, where its text may denote something else. -/

namespace Apcore

open Relation
open Fallible (mapM_eq_ok_iff map_eq_ok)

variable {Path : Type}

namespace RefResolver

variable (resolver : RefResolver Path)

/-! ## Where a reference in a result was written -/

/-- What stands at a place of the result of a visit is what was written at a site. -/
inductive Shown : Visit Path → Place → Site Path → Prop
  | left {v : Visit Path} {ref : String} {place : Place} {node : Json} (h : resolver.ReEnters v ref)
      (hnode : v.site.node.descend place = some node) : Shown v place ⟨node, v.site.base⟩
  | inside {v : Visit Path} {s : Selector} {rest : Place} {child : Json} {site : Site Path}
      (href : refOf v.site.node = none) (hchild : v.site.node.select s = some child)
      (h : Shown (v.child child) rest site) : Shown v (s :: rest) site
  | beside {v : Visit Path} {ref : String} {target : RefTarget Path} {map : List (String × Json)}
      {entry : String × Json} {rest : Place} {site : Site Path} (hopens : resolver.Opens v ref target)
      (hobject : resolver.EndsInObject (targetSite v.site.base target)) (hnode : v.site.node = .object map)
      (hmem : entry ∈ map) (hkey : entry.1 ≠ "$ref") (h : Shown (v.child entry.2) rest site) :
      Shown v (.key entry.1 :: rest) site
  | behind {v v' : Visit Path} {map : List (String × Json)} {s : Selector} {rest : Place}
      {site : Site Path} (hstep : resolver.FollowStep v v') (hnode : v.site.node = .object map)
      (hfree : ∀ entry ∈ map, entry.1 ≠ "$ref" → s ≠ .key entry.1) (h : Shown v' (s :: rest) site) :
      Shown v (s :: rest) site

variable {resolver} {schema : Json}

variable (resolver schema)

/-! ## What it means in the result -/

variable {resolver schema}

/-! ## Where a pointer goes -/

section

variable {result : Json} {site : Site Path} {ref : String}

end

variable (resolver schema)

variable {resolver schema}

/-! ## A schema that names itself -/

end RefResolver

end Apcore
