import Apcore.Json

/-! # `Schema.NestedSchema` — one `$schema` for a document

`strip_nested_schema` drops every `$schema` that is a string, but for the root's. -/

namespace Apcore

mutual

/-- `strip_nested_schema`. -/
def stripNestedSchema : Json → Bool → Json
  | .object map, top => .object (stripNestedEntries map top)
  | .array items, _ => .array (stripNestedItems items)
  | other, _ => other

def stripNestedEntries : List (String × Json) → Bool → List (String × Json)
  | [], _ => []
  | (key, child) :: rest, top =>
    if key = "$schema" ∧ top = false ∧ child.asStr?.isSome then stripNestedEntries rest top
    else (key, stripNestedSchema child false) :: stripNestedEntries rest top

def stripNestedItems : List Json → List Json
  | [] => []
  | item :: rest => stripNestedSchema item false :: stripNestedItems rest

end

/-- The root's declaration stays, and so does a property of that name. -/
example : stripNestedSchema
    (.object [("$schema", .string "a"), ("properties", .object [("$schema", .object [])]),
      ("not", .object [("$schema", .string "b")])]) true =
    .object [("$schema", .string "a"), ("properties", .object [("$schema", .object [])]),
      ("not", .object [])] := rfl

end Apcore
