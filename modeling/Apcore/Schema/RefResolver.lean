import Mathlib.Data.List.DropRight
import Apcore.Errors
import Apcore.Schema.Pointer
import Apcore.Text

/-! # `Schema.RefResolver` — inlining references

`RefResolver::resolve` replaces every `$ref` of a schema by what it names, and carries the references
it is inside of in a set of strings. Files are reached through `std::path` and `std::fs`, which are
parameters, with the two parsers. -/

namespace Apcore

/-- The files a resolver can reach. -/
structure FileSystem (Path : Type) where
  join : Path → String → Path
  parent : Path → Option Path
  extension : Path → Option String
  display : Path → String
  /-- `normalize_path`. -/
  normalize : Path → Path
  startsWith : Path → Path → Bool
  isFile : Path → Bool
  readToString : Path → Except String String
  parseJson : String → Except String Json
  parseYaml : String → Except String Json

/-- `RefResolver`. -/
structure RefResolver (Path : Type) where
  schemas : List (String × Json) := []
  maxDepth : Nat := 32
  schemasDir : Option Path := none
  currentFile : Option Path := none
  nodeFallback : Option Json := none
  fs : FileSystem Path

/-- `DocumentBase`: the document a node is resolved in. -/
structure DocumentBase (Path : Type) where
  root : Json
  file : Option Path
  nodeFallback : Option Json

/-- `RefTarget`. -/
structure RefTarget (Path : Type) where
  value : Json
  root : Json
  sameDocument : Bool
  file : Option Path
  seenKey : String

/-- The string under `$ref`, where the node is an object that has one. -/
def refOf (node : Json) : Option String := (Fields.ofJson? node "$ref").bind Json.asStr?

/-- `root_ref_aliases`: the references that denote the document itself. -/
def rootRefAliases (document : Json) : List String :=
  ["#", "#/"] ++
    match (Fields.ofJson? document "$id").bind Json.asStr? with
    | some id => if id.isEmpty then [] else [id]
    | none => []

namespace RefResolver

variable {Path : Type} (resolver : RefResolver Path)

/-! ## Looking a reference up -/

/-- `CANONICAL_SCHEME`. -/
def canonicalScheme : String := "apcore://"

/-- `SCHEMA_FILE_SUFFIXES`. -/
def schemaFileSuffixes : List String := [".schema.yaml", ".schema.yml", ".schema.json"]

/-- `register`. -/
def register (uri : String) (schema : Json) : RefResolver Path :=
  { resolver with schemas := Fields.insert uri schema resolver.schemas }

/-- `seen_key_for`. -/
def seenKeyFor (baseFile : Option Path) (ref : String) : String :=
  match baseFile with
  | none => ref
  | some file => resolver.fs.display file ++ ref

/-- `split_canonical`: the file part, and a pointer with its `#`. -/
def splitCanonical (rest : String) : String × String :=
  match splitOnce '/' rest with
  | some (moduleId, target) =>
    if target.isEmpty then (String.ofList (rest.toList.rdropWhile (· = '/')), "")
    else
      let target := (stripLead "#" target).getD target
      if target.toList.head? = some '/' then (moduleId, "#" ++ target)
      else (moduleId, "#/" ++ target)
  | none => (String.ofList (rest.toList.rdropWhile (· = '/')), "")

/-- The files `resolve_ref_file` tries, in order. -/
def candidates (schemasDir : Path) (filePart : String) (baseFile : Option Path)
    (isCanonical : Bool) : List Path :=
  if isCanonical then
    let modulePath := String.ofList (filePart.toList.map fun c => if c = '.' then '/' else c)
    schemaFileSuffixes.map (fun suffix => resolver.fs.join schemasDir (modulePath ++ suffix)) ++
      [resolver.fs.join schemasDir modulePath]
  else
    let anchor := (baseFile.bind resolver.fs.parent).getD schemasDir
    let direct := resolver.fs.join anchor filePart
    if (resolver.fs.extension direct).isNone then
      direct :: schemaFileSuffixes.map fun suffix => resolver.fs.join anchor (filePart ++ suffix)
    else [direct]

/-- The loop of `resolve_ref_file`: the first candidate that is a file, each one checked for
containment before. -/
def firstFile (ref : String) (root : Path) : List Path → Except ModuleError (Option Path)
  | [] => .ok none
  | candidate :: rest =>
    let resolved := resolver.fs.normalize candidate
    if !resolver.fs.startsWith resolved root then .error (.new .schemaNotFound
      ("$ref '" ++ ref ++ "' resolves to '" ++ resolver.fs.display resolved ++
        "', which is outside the schemas root '" ++ resolver.fs.display root ++ "'"))
    else if resolver.fs.isFile resolved then .ok (some resolved)
    else firstFile ref root rest

/-- `resolve_ref_file`. -/
def resolveRefFile (filePart : String) (baseFile : Option Path) (isCanonical : Bool)
    (ref : String) : Except ModuleError Path :=
  match resolver.schemasDir with
  | none => .error (.new .schemaNotFound
      ("Referenced schema not found: " ++ ref ++ " (cross-file $ref requires a schemas root — " ++
        "build the resolver with RefResolver::with_schemas_dir, or register the schema in-memory " ++
        "with RefResolver::register)"))
  | some schemasDir =>
    let tried := resolver.candidates schemasDir filePart baseFile isCanonical
    match resolver.firstFile ref (resolver.fs.normalize schemasDir) tried with
    | .error e => .error e
    | .ok (some path) => .ok path
    | .ok none => .error (.new .schemaNotFound
        ("Referenced schema not found: " ++ ref ++ " (tried " ++
          ", ".intercalate (tried.map resolver.fs.display) ++ ")"))

/-- `load_schema_document`. -/
def loadSchemaDocument (path : Path) : Except ModuleError Json :=
  match resolver.fs.readToString path with
  | .error e => .error (.new .schemaNotFound
      ("Failed to read referenced schema '" ++ resolver.fs.display path ++ "': " ++ e))
  | .ok contents =>
    let isJson := resolver.fs.extension path = some "json"
    match (if isJson then resolver.fs.parseJson else resolver.fs.parseYaml) contents with
    | .ok document => .ok document
    | .error e => .error (.new .schemaParseError
        ("Failed to parse referenced " ++ (if isJson then "JSON" else "YAML") ++ " schema '" ++
          resolver.fs.display path ++ "': " ++ e))

/-- The lookup of a reference into another file. -/
def lookupFile (ref : String) (baseFile : Option Path) : Except ModuleError (RefTarget Path) :=
  let canonical := stripLead canonicalScheme ref
  let parts : String × String :=
    match canonical with
    | some rest => splitCanonical rest
    | none =>
      match splitOnce '#' ref with
      | some (file, fragment) => (file, "#" ++ fragment)
      | none => (ref, "")
  match resolver.resolveRefFile parts.1 baseFile canonical.isSome ref with
  | .error e => .error e
  | .ok path =>
    match resolver.loadSchemaDocument path with
    | .error e => .error e
    | .ok doc =>
      let target (value : Json) : RefTarget Path :=
        { value, root := doc, sameDocument := false, file := some path
          seenKey := resolver.fs.display path ++ parts.2 }
      if parts.2 = "" ∨ parts.2 = "#" then .ok (target doc)
      else
        let ptr := String.ofList (parts.2.toList.drop 1)
        match (doc.pointer ptr).or ((doc.pointer ("/definitions" ++ ptr)).or
            (doc.pointer ("/$defs" ++ ptr))) with
        | some value => .ok (target value)
        | none => .error (.new .schemaNotFound
            ("$ref '" ++ ref ++ "' resolved to '" ++ resolver.fs.display path ++
              "' but pointer '" ++ parts.2 ++ "' was not found in it"))

/-- `lookup_ref`: a pointer into the current document, a registered schema, or another file. -/
def lookupRef (ref : String) (base : DocumentBase Path) : Except ModuleError (RefTarget Path) :=
  match stripLead "#" ref with
  | some pointer =>
    let found := if pointer.isEmpty then some base.root
      else (base.root.pointer pointer).or (base.nodeFallback.bind (·.pointer pointer))
    match found with
    | some value => .ok
        { value, root := base.root, sameDocument := true, file := base.file
          seenKey := resolver.seenKeyFor base.file ref }
    | none => .error (.new .schemaNotFound ("Local $ref not found: " ++ ref))
  | none =>
    match Fields.get? resolver.schemas ref with
    | some schema => .ok
        { value := schema, root := schema, sameDocument := false, file := none
          seenKey := "registered:" ++ ref }
    | none => resolver.lookupFile ref base.file

/-- The base a target is resolved against; the fallback stays behind on the way into another
document. -/
def targetBase (base : DocumentBase Path) (target : RefTarget Path) : DocumentBase Path where
  root := target.root
  file := target.file
  nodeFallback := if target.sameDocument then base.nodeFallback else none

/-! ## Resolution -/

/-- `SchemaCircularRefError::to_module_error`. -/
def circularRefError (ref : String) : ModuleError :=
  (ModuleError.new .schemaCircularRef ("Circular $ref detected: " ++ ref)).withDetails
    [("ref_path", .string ref)]

def maxDepthError : ModuleError :=
  (ModuleError.new .schemaMaxDepthExceeded
    ("Schema $ref recursion exceeded max_depth=" ++ toString resolver.maxDepth ++
      " (sync SCHEMA-001)")).withDetails
    [("max_depth", .number (.posInt (UInt64.ofNat resolver.maxDepth)))]

/-- What becomes of a reference that is already open: behind another reference it is circular,
elsewhere it stays as it is. -/
def reenter (fromRefChain : Bool) (ref : String) (node : Json) : Except ModuleError Json :=
  if fromRefChain then .error (circularRefError ref) else .ok node

mutual

/-- The body of `resolve_inner`; `follow` resolves the target of a reference, one level deeper. What
the source puts into the set for the target it takes out again, so the set is handed down. -/
def resolveNode (follow : Json → DocumentBase Path → List String → Except ModuleError Json)
    (base : DocumentBase Path) (seen : List String) (fromRefChain : Bool) :
    Json → Except ModuleError Json
  | .object map =>
    match refOf (.object map) with
    | none => (resolveFields follow base seen map).map .object
    | some ref =>
      if ref ∈ seen then reenter fromRefChain ref (.object map)
      else match resolver.lookupRef ref base with
        | .error e => .error e
        | .ok target =>
          if target.seenKey ∈ seen then reenter fromRefChain ref (.object map)
          else match follow target.value (targetBase base target) (ref :: target.seenKey :: seen) with
            | .ok (.object result) =>
              -- the keys beside the `$ref` are resolved where they stand, and win
              (resolveSiblings follow base seen map).map fun siblings =>
                .object (siblings.foldl (fun result entry =>
                  Fields.insert entry.1 entry.2 result) result)
            | result => result
  | .array elems => (resolveElems follow base seen elems).map .array
  | other => .ok other

/-- The children of an object that is no reference. -/
def resolveFields (follow : Json → DocumentBase Path → List String → Except ModuleError Json)
    (base : DocumentBase Path) (seen : List String) :
    List (String × Json) → Except ModuleError (List (String × Json))
  | [] => .ok []
  | (key, value) :: rest => do
    let value ← resolveNode follow base seen false value
    let rest ← resolveFields follow base seen rest
    pure ((key, value) :: rest)

/-- The keys beside a `$ref`. -/
def resolveSiblings (follow : Json → DocumentBase Path → List String → Except ModuleError Json)
    (base : DocumentBase Path) (seen : List String) :
    List (String × Json) → Except ModuleError (List (String × Json))
  | [] => .ok []
  | (key, value) :: rest =>
    if key = "$ref" then resolveSiblings follow base seen rest
    else do
      let value ← resolveNode follow base seen false value
      let rest ← resolveSiblings follow base seen rest
      pure ((key, value) :: rest)

def resolveElems (follow : Json → DocumentBase Path → List String → Except ModuleError Json)
    (base : DocumentBase Path) (seen : List String) :
    List Json → Except ModuleError (List Json)
  | [] => .ok []
  | value :: rest => do
    let value ← resolveNode follow base seen false value
    let rest ← resolveElems follow base seen rest
    pure (value :: rest)

end

/-- `resolve_inner`, with `max_depth - depth` references still to be followed. -/
def resolveInner : Nat → Bool → Json → DocumentBase Path → List String → Except ModuleError Json
  | 0, _, _, _, _ => .error resolver.maxDepthError
  | budget + 1, fromRefChain, node, base, seen =>
    resolver.resolveNode (resolveInner budget true) base seen fromRefChain node

/-- `document_base`, at a public entry point. -/
def documentBase (document : Json) : DocumentBase Path where
  root := document
  file := resolver.currentFile
  nodeFallback := resolver.nodeFallback

/-- `resolve`. -/
def resolve (schema : Json) : Except ModuleError Json :=
  resolver.resolveInner resolver.maxDepth false schema (resolver.documentBase schema)
    (rootRefAliases schema)

/-- `has_circular_refs`. -/
def hasCircularRefs (schema : Json) : Bool :=
  match resolver.resolve schema with
  | .error e => e.code = .schemaCircularRef
  | .ok _ => false

end RefResolver

end Apcore
