import Apcore.Schema.Places
import Apcore.Schema.RefResolver

/-! # `Executor.SchemaRedaction` — redaction driven by a schema

`redact` indexes the schemas of a document, then walks the value and the schemas that govern it side
by side. A schema is its place in the document, which stands for its address. The `referencing` crate
is a parameter. -/

namespace Apcore

/-- `referencing::Draft`. -/
inductive Draft where
  | draft4 | draft6 | draft7 | draft201909 | draft202012
  deriving DecidableEq, Repr

/-- What is used of the `referencing` crate. -/
structure Referencing where
  /-- `parent_draft.detect(schema).ok()`. -/
  detect : Draft → Json → Option Draft
  /-- `draft.subresources_of(schema)`, by their places in the schema. -/
  subresources : Draft → Json → List Place
  /-- A subresource is a proper part. -/
  subresources_proper : ∀ draft schema place, place ∈ subresources draft schema →
    place ≠ [] ∧ (schema.descend place).isSome
  /-- `resolve_uri`, of a reference and a base: parse both, resolve, normalise. -/
  resolveUri : String → String → Option String

namespace SchemaRedaction

/-- `LOCAL_ROOT_URI`. -/
def localRootUri : String := "apcore://local/redaction-root"

/-- `REDACTED_VALUE`. -/
def redactedValue : String := "***REDACTED***"

/-- `uri.split_once('#').unwrap_or((uri, ""))`. -/
def splitFragment (uri : String) : String × String := (splitOnce '#' uri).getD (uri, "")

/-- The string under a key. -/
def stringAt (schema : Json) (key : String) : Option String := (Fields.ofJson? schema key).bind Json.asStr?

/-- The array under a key. -/
def arrayAt (schema : Json) (key : String) : Option (List Json) :=
  (Fields.ofJson? schema key).bind Json.asArray?

/-! ## The index -/

/-- `LocalSchemas`. -/
structure LocalSchemas where
  bases : Place → Option String
  drafts : Place → Option Draft
  resources : String → Option Place
  anchors : String → Option Place

/-- What `index_schema` reads off a schema, given the base and the draft around it. -/
structure SchemaEntry where
  place : Place
  draft : Draft
  /-- The base, without a fragment. -/
  resource : String
  /-- The name it gives itself as a resource. -/
  ownResource : Option String
  /-- The names it gives itself as an anchor, in the order they are entered. -/
  ownAnchors : List String
  deriving Repr

def entryOf (referencing : Referencing) (schema : Json) (place : Place) (parentBase : String)
    (parentDraft : Draft) : SchemaEntry :=
  let resolved := (stringAt schema "$id").bind (referencing.resolveUri · parentBase)
  let base := resolved.getD parentBase
  let (resource, fragment) := splitFragment base
  { place
    draft := (referencing.detect parentDraft schema).getD parentDraft
    resource
    ownResource := if resolved.isSome ∧ fragment.isEmpty then some resource else none
    ownAnchors :=
      (if resolved.isSome ∧ ¬ fragment.isEmpty then [base] else []) ++
        ((stringAt schema "$anchor").map fun anchor => resource ++ "#" ++ anchor).toList }

/-- What `index_schema` enters for a schema; a later entry replaces an earlier one. -/
def LocalSchemas.add (index : LocalSchemas) (entry : SchemaEntry) : LocalSchemas where
  bases := Function.update index.bases entry.place (some entry.resource)
  drafts := Function.update index.drafts entry.place (some entry.draft)
  resources :=
    match entry.ownResource with
    | some resource => Function.update index.resources resource (some entry.place)
    | none => index.resources
  anchors := entry.ownAnchors.foldl (fun anchors anchor =>
    Function.update anchors anchor (some entry.place)) index.anchors

/-- The call for a subresource. -/
def indexPart (call : Json → Place → LocalSchemas → Option LocalSchemas) (schema : Json)
    (place : Place) (index : LocalSchemas) (child : Place) : Option LocalSchemas :=
  match schema.descend child with
  | some sub => call sub (place ++ child) index
  | none => some index

/-- `index_schema`, for at most so many levels. -/
def indexSchema (referencing : Referencing) :
    Nat → Json → Place → String → Draft → LocalSchemas → Option LocalSchemas
  | 0, _, _, _, _, _ => none
  | fuel + 1, schema, place, parentBase, parentDraft, index =>
    let entry := entryOf referencing schema place parentBase parentDraft
    (referencing.subresources entry.draft schema).foldlM
      (indexPart (fun sub place => indexSchema referencing fuel sub place entry.resource entry.draft)
        schema place) (index.add entry)

/-- `LocalSchemas::new`. -/
def LocalSchemas.new (referencing : Referencing) (fuel : Nat) (root : Json) : Option LocalSchemas :=
  indexSchema referencing fuel root [] localRootUri .draft202012
    { bases := fun _ => none
      drafts := fun _ => none
      resources := Function.update (fun _ => none) localRootUri (some [])
      anchors := fun _ => none }

/-! ## References -/

/-- A hexadecimal digit. -/
def hexDigit (b : UInt8) : Option UInt8 :=
  if 48 ≤ b ∧ b ≤ 57 then some (b - 48)
  else if 65 ≤ b ∧ b ≤ 70 then some (b - 55)
  else if 97 ≤ b ∧ b ≤ 102 then some (b - 87)
  else none

/-- `u8::from_str_radix(digits, 16)`, which takes a sign. -/
def fromHex (high low : UInt8) : Option UInt8 :=
  match hexDigit high, hexDigit low with
  | some high, some low => some (16 * high + low)
  | none, some low => if high = 43 then some low else none
  | _, none => none

/-- The loop of `decode_fragment`. -/
def decodeBytes : List UInt8 → Option (List UInt8)
  | [] => some []
  | b :: rest =>
    if b = 37 then
      match rest with
      | high :: low :: rest => (fromHex high low).bind fun b => (decodeBytes rest).map (b :: ·)
      | _ => none
    else (decodeBytes rest).map (b :: ·)

/-- `decode_fragment`. -/
def decodeFragment (fragment : String) : Option String :=
  (decodeBytes fragment.toUTF8.data.toList).bind fun bytes => String.fromUTF8? ⟨bytes.toArray⟩

/-- What a reference names, given the base of the schema it stands in: a resource, a place below it,
or an anchor. -/
def resolveFrom (referencing : Referencing) (root : Json) (resources anchors : String → Option Place)
    (base reference : String) : Option Place := do
  let resolved ← referencing.resolveUri reference base
  let (resource, encoded) := splitFragment resolved
  let start ← resources resource
  let fragment ← decodeFragment encoded
  if fragment.isEmpty then some start
  else if fragment.toList.head? = some '/' then do
    let tokens ← pointerTokens fragment
    let document ← root.descend start
    let place ← document.locate tokens
    some (start ++ place)
  else anchors (resource ++ "#" ++ fragment)

/-- `LocalSchemas::resolve`: a schema that is not indexed has no base. -/
def LocalSchemas.resolve (referencing : Referencing) (root : Json) (index : LocalSchemas)
    (place : Place) (reference : String) : Option Place :=
  (index.bases place).bind
    (resolveFrom referencing root index.resources index.anchors · reference)

/-! ## The schemas a value is redacted with -/

/-- How references and item keywords of the schemas of a document are read. -/
structure Reading where
  resolve : Place → String → Option Place
  /-- The draft is 2020-12. -/
  modern : Place → Bool

/-- How `redact` reads them. -/
def LocalSchemas.reading (referencing : Referencing) (root : Json) (index : LocalSchemas) :
    Reading where
  resolve := index.resolve referencing root
  modern := fun place => index.drafts place = some .draft202012

variable (root : Json) (reading : Reading)

/-- The schema at a place. -/
def schemaAt (place : Place) : Json := (root.descend place).getD .null

/-- `schema.get("x-sensitive") == Some(&Value::Bool(true))`. -/
def isSensitive (place : Place) : Bool :=
  (Fields.ofJson? (schemaAt root place) "x-sensitive").bind Json.asBool? = some true

/-- The schemas the worklist goes on to, in the order they are pushed. -/
def branches (place : Place) : List Place :=
  ((stringAt (schemaAt root place) "$ref").bind (reading.resolve place)).toList ++
    ["allOf", "anyOf", "oneOf"].flatMap fun keyword =>
      (List.range ((arrayAt (schemaAt root place) keyword).getD []).length).map fun i =>
        place ++ [.key keyword, .index i]

/-- The schema a field is redacted with. -/
def propertySchema (place : Place) (name : String) : Option Place :=
  let properties := Fields.ofJson? (schemaAt root place) "properties"
  if (properties.bind (Fields.ofJson? · name)).isSome then
    some (place ++ [.key "properties", .key name])
  else none

/-- The schema `redact_items` redacts an item with: `prefixItems` in draft 2020-12, a tuple in older
ones, and what comes behind them. -/
def itemSchema (place : Place) (i : Nat) : Option Place :=
  let schema := schemaAt root place
  let leading := if reading.modern place then (arrayAt schema "prefixItems").getD [] else []
  if i < leading.length then some (place ++ [.key "prefixItems", .index i])
  else match Fields.ofJson? schema "items" with
    | none => none
    | some (.array tuple) =>
      if reading.modern place then none
      else if i < tuple.length then some (place ++ [.key "items", .index i])
      else if (Fields.ofJson? schema "additionalItems").isSome then
        some (place ++ [.key "additionalItems"])
      else none
    | some _ => some (place ++ [.key "items"])

/-- The schema the part of a value that a step selects is redacted with. -/
def partSchema (place : Place) : Selector → Option Place
  | .key name => propertySchema root place name
  | .index i => itemSchema root reading place i

/-! ## Redaction -/

/-- `redact_shape`, given `redact_value`. -/
def redactShape (redactValue : Place → Json → Option Json) (place : Place) : Json → Option Json
  | .object fields =>
    (fields.mapM fun (entry : String × Json) =>
      match partSchema root reading place (.key entry.1) with
      | some schema => (redactValue schema entry.2).map (entry.1, ·)
      | none => some entry).map .object
  | .array items =>
    (items.zipIdx.mapM fun (entry : Json × Nat) =>
      match partSchema root reading place (.index entry.2) with
      | some schema => redactValue schema entry.1
      | none => some entry.1).map .array
  | value => some value

/-- The loop of `redact_value`, for at most so many calls and rounds. The top of the stack comes
first. -/
def redactLoop : Nat → Bool → List Place → List Place → Json → Option Json
  | 0, _, _, _, _ => none
  | _ + 1, _, [], _, value => some value
  | fuel + 1, preserveObjectRoot, place :: pending, visited, value =>
    if place ∈ visited then redactLoop fuel preserveObjectRoot pending visited value
    else if !preserveObjectRoot && isSensitive root place then
      some (if value.isNull then value else .string redactedValue)
    else
      (redactShape root reading (fun schema part => redactLoop fuel false [schema] [] part)
        place value).bind
          (redactLoop fuel preserveObjectRoot ((branches root reading place).reverse ++ pending)
            (place :: visited))

/-- `redact`. -/
def redact (referencing : Referencing) (fuel : Nat) (value schema : Json) : Option Json :=
  (LocalSchemas.new referencing fuel schema).bind fun index =>
    redactLoop schema (index.reading referencing schema) fuel value.isObject [[]] [] value

end SchemaRedaction

end Apcore
