import Mathlib.Data.List.Sort
import Mathlib.Data.String.Basic
import Apcore.Errors
import Apcore.Schema.Positions

/-! # `Schema.OpenaiStrict` — what OpenAI's strict mode rejects

`detect_openai_strict_incompatibilities` walks a schema and lists what stands in it that the target
does not accept. -/

namespace Apcore

namespace OpenaiStrict

open Json

/-! ## The detector -/

/-- `UNSUPPORTED_KEYWORDS`. -/
def unsupportedKeywords : List String :=
  ["allOf", "dependentRequired", "dependentSchemas", "else", "if", "not", "then", "oneOf",
    "maxLength", "minLength", "maxProperties", "minProperties", "patternProperties",
    "propertyNames", "unevaluatedProperties", "additionalItems", "contains", "maxContains",
    "minContains", "prefixItems", "unevaluatedItems", "uniqueItems"]

/-- `SUPPORTED_FORMATS`. -/
def supportedFormats : List String :=
  ["date-time", "time", "date", "duration", "email", "hostname", "ipv4", "ipv6", "uuid"]

/-- `found.insert(entry)`, on a `BTreeSet`. -/
def insertFound (entry : String) (found : List String) : List String :=
  if entry ∈ found then found else found.orderedInsert (· ≤ ·) entry

/-- The object under a key. -/
def objectUnder (node : Json) (key : String) : List Json :=
  ((Fields.ofJson? node key).filter Json.isObject).toList

/-- The calls `walk` makes in a node, in order: what is walked, and the path it is walked under. -/
def walkCalls (path : String) (node : Json) : List (String × Json) :=
  (entriesUnder node "properties").map (fun entry => (path ++ "." ++ entry.1, entry.2)) ++
  (objectUnder node "items").map (fun items => (path ++ "[]", items)) ++
  (objectUnder node "additionalProperties").map
    (fun additional => (path ++ ".additionalProperties", additional)) ++
  ["anyOf", "oneOf"].flatMap (fun combinator =>
    (elemsUnder node combinator).zipIdx.map fun branch =>
      (path ++ "." ++ combinator ++ "[" ++ toString branch.2 ++ "]", branch.1)) ++
  ["$defs", "definitions"].flatMap (fun defsKey =>
    (entriesUnder node defsKey).map fun entry => (path ++ "." ++ defsKey ++ "." ++ entry.1, entry.2))

/-- The entry of a `format` that is not supported. -/
def insertFormat (path : String) (node : Json) (found : List String) : List String :=
  match (Fields.ofJson? node "format").bind Json.asStr? with
  | some fmt =>
    if fmt ∈ supportedFormats then found else insertFound (path ++ ".format=" ++ fmt) found
  | none => found

/-- What `walk` inserts for the node itself. -/
def insertOwn (path : String) (isRoot : Bool) (node : Json) (found : List String) : List String :=
  let found := unsupportedKeywords.foldl (fun found keyword =>
    if (Fields.ofJson? node keyword).isSome then insertFound (path ++ "." ++ keyword) found
    else found) found
  let found :=
    if isRoot = true ∧ (Fields.ofJson? node "anyOf").isSome then insertFound (path ++ ".anyOf") found
    else found
  insertFormat path node found

/-! ## The calls -/

/-- How a path is continued from a node to a part of it. -/
inductive PathStep (path : String) : Place → String → Prop
  | property (name : String) :
      PathStep path [.key "properties", .key name] (path ++ "." ++ name)
  | items : PathStep path [.key "items"] (path ++ "[]")
  | additional : PathStep path [.key "additionalProperties"] (path ++ ".additionalProperties")
  | branch {combinator : String} (h : combinator ∈ ["anyOf", "oneOf"]) (i : Nat) :
      PathStep path [.key combinator, .index i]
        (path ++ "." ++ combinator ++ "[" ++ toString i ++ "]")
  | definition {defsKey : String} (h : defsKey ∈ ["$defs", "definitions"]) (name : String) :
      PathStep path [.key defsKey, .key name] (path ++ "." ++ defsKey ++ "." ++ name)

theorem mem_objectUnder {node v : Json} {key : String} :
    v ∈ objectUnder node key ↔ node.descend [.key key] = some v ∧ v.isObject = true := by
  rw [descend_key]
  unfold objectUnder
  rw [Option.mem_toList, Option.filter_eq_some_iff]

theorem sizeOf_walkCalls {path : String} {node : Json} {call : String × Json}
    (h : call ∈ walkCalls path node) : sizeOf call.2 < sizeOf node := by
  obtain ⟨way, hne, hdescend⟩ : ∃ way : Place, way ≠ [] ∧ node.descend way = some call.2 := by
    unfold walkCalls at h
    simp only [List.mem_append, List.mem_map, List.mem_flatMap] at h
    rcases h with ((((⟨entry, hentry, rfl⟩ | ⟨items, hitems, rfl⟩) |
      ⟨additional, hadditional, rfl⟩) | ⟨combinator, -, branch, hbranch, rfl⟩) |
      ⟨defsKey, -, entry, hentry, rfl⟩)
    · exact ⟨_, List.cons_ne_nil _ _, (@mem_entriesUnder _ _ entry).mp hentry⟩
    · exact ⟨_, List.cons_ne_nil _ _, (mem_objectUnder.mp hitems).1⟩
    · exact ⟨_, List.cons_ne_nil _ _, (mem_objectUnder.mp hadditional).1⟩
    · exact ⟨_, List.cons_ne_nil _ _, mem_elemsUnder.mp hbranch⟩
    · exact ⟨_, List.cons_ne_nil _ _, (@mem_entriesUnder _ _ entry).mp hentry⟩
  exact Json.sizeOf_descend_lt hne hdescend

/-! ## The walk -/

/-- `walk`. -/
def walk (node : Json) (path : String) (isRoot : Bool) (found : List String) : List String :=
  if node.isObject then
    (walkCalls path node).attach.foldl (fun found call => walk call.1.2 call.1.1 false found)
      (insertOwn path isRoot node found)
  else found
termination_by sizeOf node
decreasing_by exact sizeOf_walkCalls call.2

/-- `detect_openai_strict_incompatibilities`. -/
def detectOpenaiStrictIncompatibilities (schema : Json) : List String := walk schema "$" true []

/-- `assert_openai_strict_compatible`. -/
def assertOpenaiStrictCompatible (schema : Json) (moduleId : String) (side : Option String)
    (filePath : Option String) : Except ModuleError Unit :=
  let features := detectOpenaiStrictIncompatibilities schema
  if features.isEmpty then .ok ()
  else
    let listed :=
      match side with
      | some side => features.map fun feature => side ++ ":" ++ feature
      | none => features
    let loc :=
      match filePath with
      | some filePath => filePath ++ ": "
      | none => ""
    let details := [("module_id", Json.string moduleId),
      ("features_listed", Json.array (listed.map Json.string))] ++
      (filePath.map fun filePath => ("file_path", Json.string filePath)).toList
    .error ((ModuleError.new .bindingStrictSchemaIncompatible
      (loc ++ "binding '" ++ moduleId ++ "' uses auto_schema: strict but inferred schema contains " ++
        "incompatible features: " ++ ", ".intercalate listed ++ ". See protocol-spec §5.12.5")).withDetails
      details)

theorem walk_object {node : Json} (h : node.isObject = true) (path : String) (isRoot : Bool)
    (found : List String) :
    walk node path isRoot found = (walkCalls path node).foldl
      (fun found call => walk call.2 call.1 false found) (insertOwn path isRoot node found) := by
  rw [walk, if_pos h]
  exact List.foldl_attach
    (f := fun (found : List String) (call : String × Json) => walk call.2 call.1 false found)

theorem walk_of_not_object {node : Json} (h : node.isObject = false) (path : String) (isRoot : Bool)
    (found : List String) : walk node path isRoot found = found := by
  rw [walk, h]
  rfl

/-- The calls lead to the parts a path is continued to; what is no object is passed by under `items`
and `additionalProperties`. -/
theorem mem_walkCalls {path path' : String} {node sub : Json} (hsub : sub.isObject = true) :
    (path', sub) ∈ walkCalls path node ↔
      ∃ way, PathStep path way path' ∧ node.descend way = some sub := by
  unfold walkCalls
  simp only [List.mem_append, List.mem_map, List.mem_flatMap, Prod.mk.injEq]
  constructor
  · rintro ((((⟨entry, hentry, rfl, rfl⟩ | ⟨items, hitems, rfl, rfl⟩) |
      ⟨additional, hadditional, rfl, rfl⟩) | ⟨combinator, hcombinator, branch, hbranch, rfl, rfl⟩) |
      ⟨defsKey, hdefsKey, entry, hentry, rfl, rfl⟩)
    · exact ⟨_, .property entry.1, mem_entriesUnder.mp hentry⟩
    · exact ⟨_, .items, (mem_objectUnder.mp hitems).1⟩
    · exact ⟨_, .additional, (mem_objectUnder.mp hadditional).1⟩
    · exact ⟨_, .branch hcombinator branch.2, mem_elemsUnder.mp hbranch⟩
    · exact ⟨_, .definition hdefsKey entry.1, mem_entriesUnder.mp hentry⟩
  · rintro ⟨way, hstep, hdescend⟩
    cases hstep with
    | property name =>
      exact .inl (.inl (.inl (.inl ⟨(name, sub), mem_entriesUnder.mpr hdescend, rfl, rfl⟩)))
    | items =>
      exact .inl (.inl (.inl (.inr ⟨sub, mem_objectUnder.mpr ⟨hdescend, hsub⟩, rfl, rfl⟩)))
    | additional =>
      exact .inl (.inl (.inr ⟨sub, mem_objectUnder.mpr ⟨hdescend, hsub⟩, rfl, rfl⟩))
    | branch hcombinator i =>
      exact .inl (.inr ⟨_, hcombinator, (sub, i), mem_elemsUnder.mpr hdescend, rfl, rfl⟩)
    | definition hdefsKey name =>
      exact .inr ⟨_, hdefsKey, (name, sub), mem_entriesUnder.mpr hdescend, rfl, rfl⟩

/-! ## What is reported -/

/-- Something the target does not accept. -/
inductive Feature where
  | keyword (name : String)
  | format (value : String)
  deriving DecidableEq, Repr

/-- How a path ends at a feature. -/
def Feature.text : Feature → String
  | .keyword name => "." ++ name
  | .format value => ".format=" ++ value

/-- A node holds a feature. `anyOf` is one at the root. -/
def Feature.HeldBy (atRoot : Prop) (node : Json) : Feature → Prop
  | .keyword name => (name ∈ unsupportedKeywords ∨ atRoot ∧ name = "anyOf") ∧
      (Fields.ofJson? node name).isSome
  | .format value => Fields.ofJson? node "format" = some (.string value) ∧ value ∉ supportedFormats

/-- The path to a place, continued from a path to the node it is counted from. -/
inductive PathTo : String → Place → String → Prop
  | here (path : String) : PathTo path [] path
  | step {path path' final : String} {way rest : Place} (hstep : PathStep path way path')
      (hrest : PathTo path' rest final) : PathTo path (way ++ rest) final

variable {node : Json} {path : String} {found : List String} {entry : String}

theorem Feature.HeldBy.mono {p q : Prop} (hpq : p → q) {feature : Feature}
    (h : feature.HeldBy p node) : feature.HeldBy q node := by
  cases feature with
  | keyword name => exact ⟨h.1.imp_right (And.imp_left hpq), h.2⟩
  | format value => exact h

theorem Feature.HeldBy.isObject {p : Prop} {feature : Feature} (h : feature.HeldBy p node) :
    node.isObject = true := by
  cases node with
  | object fields => rfl
  | _ =>
    cases feature with
    | keyword name => exact absurd h.2 Bool.false_ne_true
    | format value => exact absurd h.1.symm (Option.some_ne_none _)

theorem mem_insertFound {inserted : String} :
    entry ∈ insertFound inserted found ↔ entry = inserted ∨ entry ∈ found := by
  unfold insertFound
  split
  · next hmem => exact ⟨.inr, fun h => h.elim (fun heq => heq ▸ hmem) id⟩
  · exact List.mem_orderedInsert _

theorem mem_insertIf {p : Prop} [Decidable p] {inserted : String} :
    entry ∈ (if p then insertFound inserted found else found) ↔
      entry ∈ found ∨ p ∧ entry = inserted := by
  by_cases h : p
  · rw [if_pos h, mem_insertFound, or_comm, and_iff_right h]
  · rw [if_neg h]
    exact ⟨.inl, fun hor => hor.elim id fun hp => absurd hp.1 h⟩

theorem mem_insertKeywords (keywords : List String) :
    entry ∈ keywords.foldl (fun found keyword =>
        if (Fields.ofJson? node keyword).isSome then insertFound (path ++ "." ++ keyword) found
        else found) found ↔
      entry ∈ found ∨ ∃ keyword ∈ keywords, (Fields.ofJson? node keyword).isSome ∧
        entry = path ++ "." ++ keyword := by
  induction keywords generalizing found with
  | nil => simp
  | cons keyword rest ih => rw [List.foldl_cons, ih, mem_insertIf, List.exists_mem_cons_iff, or_assoc]

theorem mem_insertFormat :
    entry ∈ insertFormat path node found ↔ entry ∈ found ∨ ∃ value,
      Fields.ofJson? node "format" = some (.string value) ∧ value ∉ supportedFormats ∧
        entry = path ++ ".format=" ++ value := by
  unfold insertFormat
  cases hformat : Fields.ofJson? node "format" with
  | none => simp
  | some v =>
    cases v with
    | string fmt =>
      show entry ∈ (if fmt ∈ supportedFormats then found
        else insertFound (path ++ ".format=" ++ fmt) found) ↔ _
      by_cases h : fmt ∈ supportedFormats
      · rw [if_pos h]
        refine ⟨.inl, fun hor => hor.elim id ?_⟩
        rintro ⟨value, hvalue, hnot, -⟩
        obtain rfl := Json.string.inj (Option.some.inj hvalue)
        exact absurd h hnot
      · rw [if_neg h, mem_insertFound, or_comm]
        refine or_congr_right ⟨fun heq => ⟨fmt, rfl, h, heq⟩, ?_⟩
        rintro ⟨value, hvalue, -, heq⟩
        obtain rfl := Json.string.inj (Option.some.inj hvalue)
        exact heq
    | _ => simp [Json.asStr?]

/-- For itself a node has its features inserted. -/
theorem mem_insertOwn {isRoot : Bool} :
    entry ∈ insertOwn path isRoot node found ↔
      entry ∈ found ∨ ∃ feature : Feature, feature.HeldBy (isRoot = true) node ∧
        entry = path ++ feature.text := by
  unfold insertOwn
  rw [mem_insertFormat, mem_insertIf, mem_insertKeywords, or_assoc, or_assoc]
  refine or_congr_right ⟨?_, ?_⟩
  · rintro (⟨name, hname, hsome, rfl⟩ | ⟨⟨hroot, hsome⟩, rfl⟩ | ⟨value, hvalue, hnot, rfl⟩)
    · exact ⟨.keyword name, ⟨.inl hname, hsome⟩, String.append_assoc⟩
    · exact ⟨.keyword "anyOf", ⟨.inr ⟨hroot, rfl⟩, hsome⟩, rfl⟩
    · exact ⟨.format value, ⟨hvalue, hnot⟩, String.append_assoc⟩
  · rintro ⟨feature, hheld, rfl⟩
    cases feature with
    | keyword name =>
      obtain ⟨hname | ⟨hroot, rfl⟩, hsome⟩ := hheld
      · exact .inl ⟨name, hname, hsome, String.append_assoc.symm⟩
      · exact .inr (.inl ⟨⟨hroot, hsome⟩, rfl⟩)
    | format value => exact .inr (.inr ⟨value, hheld.1, hheld.2, String.append_assoc.symm⟩)

theorem PathStep.exists_key {path' : String} {way : Place} (h : PathStep path way path') :
    ∃ key rest, way = .key key :: rest := by
  cases h <;> exact ⟨_, _, rfl⟩

theorem PathStep.ne_nil {path' : String} {way : Place} (h : PathStep path way path') : way ≠ [] := by
  obtain ⟨key, rest, rfl⟩ := h.exists_key
  exact List.cons_ne_nil _ _

/-- A path leads on from an object only. -/
theorem isObject_of_pathTo {place : Place} {final : String} {part : Json}
    (hpath : PathTo path place final) (hdescend : node.descend place = some part)
    (hpart : part.isObject = true) : node.isObject = true := by
  cases hpath with
  | here => exact Option.some.inj hdescend ▸ hpart
  | step hway hrest =>
    obtain ⟨key, rest, rfl⟩ := hway.exists_key
    cases node with
    | object fields => rfl
    | _ => cases hdescend

/-- What a run of walks adds, one after the other. -/
theorem mem_walkEach {calls : List (String × Json)} {Adds : String × Json → Prop}
    (h : ∀ call ∈ calls, ∀ found, entry ∈ walk call.2 call.1 false found ↔ entry ∈ found ∨ Adds call) :
    entry ∈ calls.foldl (fun found call => walk call.2 call.1 false found) found ↔
      entry ∈ found ∨ ∃ call ∈ calls, Adds call := by
  induction calls generalizing found with
  | nil => simp
  | cons call rest ih =>
    rw [List.foldl_cons, ih fun other hother => h other (List.mem_cons_of_mem _ hother),
      h call List.mem_cons_self, List.exists_mem_cons_iff, or_assoc]

/-- The entries of a walk: one for every feature of a part a path leads to. -/
theorem mem_walk {isRoot : Bool} :
    entry ∈ walk node path isRoot found ↔ entry ∈ found ∨
      ∃ place final part, ∃ feature : Feature, PathTo path place final ∧
        node.descend place = some part ∧
        feature.HeldBy (isRoot = true ∧ place = []) part ∧ entry = final ++ feature.text := by
  induction hsize : sizeOf node using Nat.strong_induction_on
    generalizing node path isRoot found with
  | _ size ih =>
    by_cases hobject : node.isObject = true
    · rw [walk_object hobject, mem_walkEach fun call hcall found => ih _
        (hsize ▸ sizeOf_walkCalls hcall) rfl, mem_insertOwn, or_assoc]
      refine or_congr_right ⟨?_, ?_⟩
      · rintro (⟨feature, hheld, rfl⟩ |
          ⟨call, hcall, place, final, part, feature, hpath, hdescend, hheld, rfl⟩)
        · exact ⟨[], path, node, feature, .here path, rfl, hheld.mono fun h => ⟨h, rfl⟩, rfl⟩
        · have hsub : call.2.isObject = true := isObject_of_pathTo hpath hdescend hheld.isObject
          obtain ⟨way, hway, hsubs⟩ := (mem_walkCalls hsub).mp hcall
          refine ⟨way ++ place, final, part, feature, .step hway hpath, ?_, hheld.mono ?_, rfl⟩
          · rw [Json.descend_append, hsubs]
            exact hdescend
          · exact fun h => absurd h.1 Bool.false_ne_true
      · rintro ⟨place, final, part, feature, hpath, hdescend, hheld, rfl⟩
        cases hpath with
        | here =>
          obtain rfl := Option.some.inj hdescend
          exact .inl ⟨feature, hheld.mono And.left, rfl⟩
        | step hway hrest =>
          rw [Json.descend_append, Option.bind_eq_some_iff] at hdescend
          obtain ⟨sub, hsub, hdescend⟩ := hdescend
          have hsubObject := isObject_of_pathTo hrest hdescend hheld.isObject
          refine .inr ⟨(_, sub), (mem_walkCalls hsubObject).mpr ⟨_, hway, hsub⟩, _, final, part, feature,
            hrest, hdescend, hheld.mono fun h => ?_, rfl⟩
          exact absurd (List.append_eq_nil_iff.mp h.2).1 hway.ne_nil
    · rw [walk_of_not_object (Bool.eq_false_iff.mpr hobject)]
      refine ⟨.inl, fun hor => hor.elim id ?_⟩
      rintro ⟨place, final, part, feature, hpath, hdescend, hheld, -⟩
      exact absurd (isObject_of_pathTo hpath hdescend hheld.isObject) hobject

/-- The positions `walk` goes to. -/
def walkedPositions : Positions :=
  [("properties", .named), ("items", .one), ("additionalProperties", .one), ("anyOf", .list),
    ("oneOf", .list), ("$defs", .named), ("definitions", .named)]

theorem PathStep.walked {path' : String} {way : Place} (h : PathStep path way path') :
    walkedPositions.Step way := by
  cases h with
  | property name => exact .named (by decide) name
  | items => exact .one (by decide)
  | additional => exact .one (by decide)
  | branch hcombinator i =>
    have hlisted : ∀ combinator ∈ ["anyOf", "oneOf"],
        (combinator, Holding.list) ∈ walkedPositions := by decide
    exact .list (hlisted _ hcombinator) i
  | definition hdefsKey name =>
    have hlisted : ∀ defsKey ∈ ["$defs", "definitions"],
        (defsKey, Holding.named) ∈ walkedPositions := by decide
    exact .named (hlisted _ hdefsKey) name

/-- Every step to a position that is walked has a path. -/
theorem exists_pathStep {way : Place} (h : walkedPositions.Step way) (path : String) :
    ∃ path', PathStep path way path' := by
  cases h with
  | one h =>
    have hkeyword : ∀ entry ∈ walkedPositions, entry.2 = .one →
        entry.1 = "items" ∨ entry.1 = "additionalProperties" := by decide
    rcases hkeyword _ h rfl with rfl | rfl
    · exact ⟨_, .items⟩
    · exact ⟨_, .additional⟩
  | list h i =>
    have hkeyword : ∀ entry ∈ walkedPositions, entry.2 = .list →
        entry.1 ∈ ["anyOf", "oneOf"] := by decide
    exact ⟨_, .branch (hkeyword _ h rfl) i⟩
  | named h name =>
    have hkeyword : ∀ entry ∈ walkedPositions, entry.2 = .named →
        entry.1 = "properties" ∨ entry.1 ∈ ["$defs", "definitions"] := by decide
    rcases hkeyword _ h rfl with rfl | hdefsKey
    · exact ⟨_, .property name⟩
    · exact ⟨_, .definition hdefsKey name⟩

theorem PathTo.walked {place : Place} {final : String} (h : PathTo path place final) :
    walkedPositions.Reaches place := by
  induction h with
  | here => exact .here
  | step hstep _ ih => exact .step hstep.walked ih

theorem exists_pathTo {place : Place} (h : walkedPositions.Reaches place) (path : String) :
    ∃ final, PathTo path place final := by
  induction h generalizing path with
  | here => exact ⟨path, .here path⟩
  | step hstep _ ih =>
    obtain ⟨path', hpath'⟩ := exists_pathStep hstep path
    obtain ⟨final, hfinal⟩ := ih path'
    exact ⟨final, .step hpath' hfinal⟩

/-- A feature of a schema at a position. -/
structure Occurs (positions : Positions) (schema : Json) (place : Place) (feature : Feature) :
    Prop where
  reaches : positions.Reaches place
  held : ∃ node, schema.descend place = some node ∧ feature.HeldBy (place = []) node

/-- The entries of a schema: one for every feature at a position that is walked. -/
theorem mem_detect {schema : Json} :
    entry ∈ detectOpenaiStrictIncompatibilities schema ↔
      ∃ place path, ∃ feature : Feature, PathTo "$" place path ∧
        Occurs walkedPositions schema place feature ∧ entry = path ++ feature.text := by
  unfold detectOpenaiStrictIncompatibilities
  rw [mem_walk]
  constructor
  · rintro (hnil | ⟨place, path, part, feature, hpath, hdescend, hheld, rfl⟩)
    · cases hnil
    · exact ⟨place, path, feature, hpath, ⟨hpath.walked, part, hdescend, hheld.mono And.right⟩, rfl⟩
  · rintro ⟨place, path, feature, hpath, ⟨-, part, hdescend, hheld⟩, rfl⟩
    exact .inr ⟨place, path, part, feature, hpath, hdescend, hheld.mono fun h => ⟨rfl, h⟩, rfl⟩

theorem detect_eq_nil_iff {schema : Json} :
    detectOpenaiStrictIncompatibilities schema = [] ↔
      ∀ place feature, ¬ Occurs walkedPositions schema place feature := by
  rw [List.eq_nil_iff_forall_not_mem]
  constructor
  · intro h place feature hoccurs
    obtain ⟨path, hpath⟩ := exists_pathTo hoccurs.reaches "$"
    exact h _ (mem_detect.mpr ⟨place, path, feature, hpath, hoccurs, rfl⟩)
  · intro h entry hentry
    obtain ⟨place, -, feature, -, hoccurs, -⟩ := mem_detect.mp hentry
    exact h place feature hoccurs

/-! ## Completeness and soundness -/

/-- The positions outside the tuple form of `items`. -/
def tupleFreePositions : Positions := allPositions.erase ("items", .list)

/-- A step that is not walked is under a keyword that is a feature itself. -/
theorem step_cases {way : Place} (h : tupleFreePositions.Step way) :
    walkedPositions.Step way ∨
      ∃ keyword rest, way = .key keyword :: rest ∧ keyword ∈ unsupportedKeywords := by
  have hcases : ∀ position ∈ tupleFreePositions,
      position ∈ walkedPositions ∨ position.1 ∈ unsupportedKeywords := by decide
  cases h with
  | one h => exact (hcases _ h).imp .one fun hkeyword => ⟨_, _, rfl, hkeyword⟩
  | list h i => exact (hcases _ h).imp (.list · i) fun hkeyword => ⟨_, _, rfl, hkeyword⟩
  | named h name => exact (hcases _ h).imp (.named · name) fun hkeyword => ⟨_, _, rfl, hkeyword⟩

/-- Where a feature occurs outside tuple lists, one occurs where the walk comes by. -/
theorem exists_walked {place : Place} (h : tupleFreePositions.Reaches place) (atRoot : Prop)
    {part : Json} {feature : Feature} (hpart : node.descend place = some part)
    (hheld : feature.HeldBy (atRoot ∧ place = []) part) :
    ∃ place' part', ∃ feature' : Feature, walkedPositions.Reaches place' ∧
      node.descend place' = some part' ∧ feature'.HeldBy (atRoot ∧ place' = []) part' := by
  induction h generalizing node atRoot with
  | here => exact ⟨[], part, feature, .here, hpart, hheld⟩
  | @step way rest hstep _ ih =>
    rw [Json.descend_append, Option.bind_eq_some_iff] at hpart
    obtain ⟨sub, hsub, hpart⟩ := hpart
    rcases step_cases hstep with hwalked | ⟨keyword, rest', rfl, hkeyword⟩
    · have hnonempty : ∀ place, ¬ way ++ place = [] := fun place h =>
        hstep.ne_nil (List.append_eq_nil_iff.mp h).1
      obtain ⟨place', part', feature', hreaches, hdescend, hheld'⟩ :=
        ih False hpart (hheld.mono fun h => absurd h.2 (hnonempty rest))
      refine ⟨way ++ place', part', feature', .step hwalked hreaches, ?_,
        hheld'.mono fun h => h.1.elim⟩
      rw [Json.descend_append, hsub]
      exact hdescend
    · -- the keyword the step is under is held by the node
      refine ⟨[], node, .keyword keyword, .here, rfl, .inl hkeyword, ?_⟩
      rw [Json.descend_cons] at hsub
      obtain ⟨v, hv, -⟩ := Option.bind_eq_some_iff.mp hsub
      exact Option.isSome_iff_exists.mpr ⟨v, hv⟩

theorem Occurs.mono {positions positions' : Positions} (hsub : positions ⊆ positions')
    {schema : Json} {place : Place} {feature : Feature} (h : Occurs positions schema place feature) :
    Occurs positions' schema place feature := ⟨h.reaches.mono hsub, h.held⟩

/-- Detection finds something exactly where there is something, and every entry leads to what it
reports. -/
structure Detects (schema : Json) : Prop where
  empty_iff : detectOpenaiStrictIncompatibilities schema = [] ↔
    ∀ place feature, ¬ Occurs allPositions schema place feature
  leads : ∀ entry ∈ detectOpenaiStrictIncompatibilities schema,
    ∃ place path, ∃ feature : Feature, PathTo "$" place path ∧
      Occurs allPositions schema place feature ∧ entry = path ++ feature.text

/-- Detection fails where all there is stands in tuple lists. -/
theorem detects_iff (schema : Json) :
    Detects schema ↔ ((∃ place feature, Occurs allPositions schema place feature) →
      ∃ place feature, Occurs tupleFreePositions schema place feature) := by
  have hwalked : walkedPositions ⊆ tupleFreePositions := by decide
  have hall : tupleFreePositions ⊆ allPositions := List.erase_subset
  constructor
  · rintro ⟨hempty, -⟩ ⟨place, feature, hoccurs⟩
    by_contra hno
    refine hempty.mp (detect_eq_nil_iff.mpr fun place' feature' hwalks => ?_) place feature hoccurs
    exact hno ⟨place', feature', hwalks.mono hwalked⟩
  · intro h
    refine ⟨⟨fun hnil place feature hoccurs => ?_, fun hno => ?_⟩, fun entry hentry => ?_⟩
    · obtain ⟨place', feature', hreaches, part, hpart, hheld⟩ := h ⟨place, feature, hoccurs⟩
      obtain ⟨walked, part', found, hreaches', hpart', hheld'⟩ :=
        exists_walked hreaches True hpart (hheld.mono fun hroot => ⟨trivial, hroot⟩)
      exact detect_eq_nil_iff.mp hnil walked found ⟨hreaches', part', hpart', hheld'.mono And.right⟩
    · exact detect_eq_nil_iff.mpr fun place feature hoccurs =>
        hno place feature (hoccurs.mono (List.Subset.trans hwalked hall))
    · obtain ⟨place, path, feature, hpath, hoccurs, hentry⟩ := mem_detect.mp hentry
      exact ⟨place, path, feature, hpath, hoccurs.mono (List.Subset.trans hwalked hall), hentry⟩

/-- A list of items the first of which has a minimal length. -/
def tupleSchema : Json :=
  .object [("items", .array [.object [("minLength", .number (.posInt 1))]])]

theorem tupleSchema_not_detected : ¬ Detects tupleSchema := by
  intro h
  have hnil : detectOpenaiStrictIncompatibilities tupleSchema = [] := by
    unfold detectOpenaiStrictIncompatibilities
    rw [walk_object rfl]
    rfl
  have hposition : allPositions.Reaches [.key "items", .index 0] :=
    .step (.list (by decide) 0) .here
  exact h.empty_iff.mp hnil _ (.keyword "minLength")
    ⟨hposition, .object [("minLength", .number (.posInt 1))], rfl, .inl (by decide), rfl⟩

end OpenaiStrict

end Apcore
