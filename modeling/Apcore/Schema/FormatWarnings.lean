import Apcore.Schema.Contradiction
import Apcore.Text

/-! # `Schema.FormatWarnings` — the walk that warns of formats

`format_warnings` walks the data along the schema and warns of every string that is not of the format
declared for it. Of a union it reports only where no branch that may apply comes out clean. -/

namespace Apcore

open Json

/-- `FormatWarning`. -/
structure FormatWarning where
  path : String
  format : String
  value : String
  deriving DecidableEq, Repr

/-- The parsers and the regular expressions the walk is given. -/
structure FormatEnv where
  /-- `Regex::new(pattern).ok()`, with `is_match`. -/
  compile : String → Option (String → Bool)
  dateTime : String → Bool
  date : String → Bool
  time : String → Bool
  uuid : String → Bool
  ipv4 : String → Bool
  ipv6 : String → Bool

/-! ## Formats -/

/-- `is_email`. -/
def isEmail (value : String) : Bool :=
  match splitOnce '@' value with
  | none => false
  | some (localPart, domain) =>
    if localPart.isEmpty ∨ domain.isEmpty then false
    else if localPart.toList.any isRustWhitespace ∨ domain.toList.any isRustWhitespace then false
    else if '@' ∈ localPart.toList ∨ '@' ∈ domain.toList then false
    else
      match splitOnce '.' domain with
      | none => false
      | some (host, rest) => !host.isEmpty && !rest.isEmpty

/-- What stands before the first `://`. -/
def beforeScheme : List Char → Option (List Char)
  | [] => none
  | c :: rest =>
    if [':', '/', '/'].isPrefixOf (c :: rest) then some []
    else (beforeScheme rest).map (c :: ·)

/-- `is_uri`. -/
def isUri (value : String) : Bool :=
  match beforeScheme value.toList with
  | some (c :: rest) => c.isAlpha && rest.all fun c => c.isAlphanum || c = '+' || c = '-' || c = '.'
  | _ => false

/-- `check_format`. -/
def checkFormat (env : FormatEnv) (format value : String) : Bool :=
  if format = "date-time" then env.dateTime value
  else if format = "date" then env.date value
  else if format = "time" then env.time value
  else if format = "uuid" then env.uuid value
  else if format = "ipv4" then env.ipv4 value
  else if format = "ipv6" then env.ipv6 value
  else if format = "email" then isEmail value
  else if format = "uri" then isUri value
  else true

mutual

/-- `declares_format`, without its table of answers. -/
def declaresFormat : Json → Bool
  | .object fields => (Fields.get? fields "format").any Json.isString || declaresFields fields
  | .array elems => declaresElems elems
  | _ => false

def declaresFields : List (String × Json) → Bool
  | [] => false
  | (_, v) :: rest => declaresFormat v || declaresFields rest

def declaresElems : List Json → Bool
  | [] => false
  | v :: rest => declaresFormat v || declaresElems rest

end

/-! ## The walk -/

/-- A call of `walk_format`. -/
structure FormatCall where
  data : Json
  schema : Json
  path : String

variable (env : FormatEnv)

/-- The warning of the node itself. -/
def ownWarning (data schema : Json) (path : String) : List FormatWarning :=
  match (Fields.ofJson? schema "format").bind asStr?, data.asStr? with
  | some fmt, some s =>
    if checkFormat env fmt s then []
    else [{ path := if path.isEmpty then "/" else path, format := fmt, value := s }]
  | _, _ => []

/-- `compile_pattern_properties`. -/
def compiledPatterns (schema : Json) : List ((String → Bool) × Json) :=
  (entriesUnder schema "patternProperties").filterMap fun entry =>
    (env.compile entry.1).map (·, entry.2)

def propertyCalls (data schema : Json) (path : String) : List FormatCall :=
  (entriesUnder schema "properties").filterMap fun entry =>
    (Fields.ofJson? data entry.1).map fun value => ⟨value, entry.2, path ++ "/" ++ entry.1⟩

def patternCalls (data schema : Json) (path : String) : List FormatCall :=
  (compiledPatterns env schema).flatMap fun pattern =>
    (data.members.filter (pattern.1 ·.1)).map fun member =>
      ⟨member.2, pattern.2, path ++ "/" ++ member.1⟩

/-- `additionalProperties`, where it is an object, for the names that nothing else covers. -/
def additionalCalls (data schema : Json) (path : String) : List FormatCall :=
  ((Fields.ofJson? schema "additionalProperties").filter isObject).toList.flatMap fun additional =>
    (data.members.filter fun member =>
      !(schema.descend [.key "properties", .key member.1]).isSome &&
        !(compiledPatterns env schema).any (·.1 member.1)).map fun member =>
          ⟨member.2, additional, path ++ "/" ++ member.1⟩

def leadingCalls (data schema : Json) (path : String) : List FormatCall :=
  ((data.asArray?.getD []).zip (elemsUnder schema "prefixItems")).zipIdx.map fun item =>
    ⟨item.1.1, item.1.2, path ++ "/" ++ toString item.2⟩

/-- `items`, for the elements behind those `prefixItems` covers. -/
def itemCalls (data schema : Json) (path : String) : List FormatCall :=
  (Fields.ofJson? schema "items").toList.flatMap fun items =>
    ((data.asArray?.getD []).zipIdx.drop (elemsUnder schema "prefixItems").length).map fun item =>
      ⟨item.1, items, path ++ "/" ++ toString item.2⟩

/-- The calls `walk_format` makes for the parts of the data, in order. -/
def partCalls (data schema : Json) (path : String) : List FormatCall :=
  propertyCalls data schema path ++ patternCalls env data schema path ++
    additionalCalls env data schema path ++ leadingCalls data schema path ++ itemCalls data schema path

/-- The branches of a union that are probed. -/
def survives (data branch : Json) : Bool := declaresFormat branch && !contradicts branch data

/-- `walk_union`, on what the survivors report. -/
def unionWarnings (probes : List (List FormatWarning)) : List FormatWarning :=
  if probes.any List.isEmpty then [] else probes.flatten

/-- How a path goes on. -/
def Selector.text : Selector → String
  | .key name => name
  | .index i => toString i

/-- Why a part of the data is walked along a schema in the schema. -/
inductive Covers (schema : Json) : Selector → Json → Prop
  | property {name : String} {sub : Json}
      (hsub : schema.descend [.key "properties", .key name] = some sub) : Covers schema (.key name) sub
  | pattern {pattern name : String} {sub : Json} {isMatch : String → Bool}
      (hsub : schema.descend [.key "patternProperties", .key pattern] = some sub)
      (hcompile : env.compile pattern = some isMatch) (hmatch : isMatch name = true) :
      Covers schema (.key name) sub
  | additional {name : String} {sub : Json}
      (hsub : schema.descend [.key "additionalProperties"] = some sub)
      (hnamed : schema.descend [.key "properties", .key name] = none)
      (hpatterns : ∀ pattern isMatch, (schema.descend [.key "patternProperties", .key pattern]).isSome →
        env.compile pattern = some isMatch → isMatch name = false) : Covers schema (.key name) sub
  | leading {i : Nat} {sub : Json}
      (hsub : schema.descend [.key "prefixItems", .index i] = some sub) : Covers schema (.index i) sub
  | item {i : Nat} {sub : Json} (hsub : schema.descend [.key "items"] = some sub)
      (hi : (elemsUnder schema "prefixItems").length ≤ i) : Covers schema (.index i) sub

variable {env} {data schema sub : Json} {path : String}

theorem Covers.exists_way {s : Selector} (h : Covers env schema s sub) :
    ∃ way : Place, way ≠ [] ∧ schema.descend way = some sub := by
  cases h with
  | property hsub => exact ⟨_, List.cons_ne_nil _ _, hsub⟩
  | pattern hsub => exact ⟨_, List.cons_ne_nil _ _, hsub⟩
  | additional hsub => exact ⟨_, List.cons_ne_nil _ _, hsub⟩
  | leading hsub => exact ⟨_, List.cons_ne_nil _ _, hsub⟩
  | item hsub => exact ⟨_, List.cons_ne_nil _ _, hsub⟩

/-- A call that walks a part of the data under a schema that covers it. -/
structure IsPartCall (env : FormatEnv) (data schema : Json) (path : String) (call : FormatCall)
    (s : Selector) : Prop where
  select : data.select s = some call.data
  covers : Covers env schema s call.schema
  path_eq : call.path = path ++ "/" ++ s.text

theorem mem_propertyCalls {call : FormatCall} (h : call ∈ propertyCalls data schema path) :
    ∃ s, IsPartCall env data schema path call s := by
  obtain ⟨entry, hentry, hcall⟩ := List.mem_filterMap.mp h
  obtain ⟨value, hvalue, rfl⟩ := Option.map_eq_some_iff.mp hcall
  exact ⟨.key entry.1, hvalue, .property (mem_entriesUnder.mp hentry), rfl⟩

theorem mem_compiledPatterns {pattern : (String → Bool) × Json} :
    pattern ∈ compiledPatterns env schema ↔ ∃ source,
      schema.descend [.key "patternProperties", .key source] = some pattern.2 ∧
        env.compile source = some pattern.1 := by
  unfold compiledPatterns
  rw [List.mem_filterMap]
  constructor
  · rintro ⟨entry, hentry, hcompiled⟩
    obtain ⟨isMatch, hcompile, rfl⟩ := Option.map_eq_some_iff.mp hcompiled
    exact ⟨entry.1, mem_entriesUnder.mp hentry, hcompile⟩
  · rintro ⟨source, hsub, hcompile⟩
    have hentry : (source, pattern.2) ∈ entriesUnder schema "patternProperties" :=
      mem_entriesUnder.mpr hsub
    exact ⟨(source, pattern.2), hentry, Option.map_eq_some_iff.mpr ⟨pattern.1, hcompile, rfl⟩⟩

theorem mem_patternCalls {call : FormatCall} (h : call ∈ patternCalls env data schema path) :
    ∃ s, IsPartCall env data schema path call s := by
  obtain ⟨pattern, hpattern, hcall⟩ := List.mem_flatMap.mp h
  obtain ⟨member, hmember, rfl⟩ := List.mem_map.mp hcall
  obtain ⟨hmember, hmatch⟩ := List.mem_filter.mp hmember
  obtain ⟨source, hsub, hcompile⟩ := mem_compiledPatterns.mp hpattern
  exact ⟨.key member.1, mem_members.mp hmember, .pattern hsub hcompile hmatch, rfl⟩

theorem mem_additionalCalls {call : FormatCall} (h : call ∈ additionalCalls env data schema path) :
    ∃ s, IsPartCall env data schema path call s := by
  obtain ⟨additional, hadditional, hcall⟩ := List.mem_flatMap.mp h
  obtain ⟨member, hmember, rfl⟩ := List.mem_map.mp hcall
  obtain ⟨hmember, hfree⟩ := List.mem_filter.mp hmember
  obtain ⟨hnamed, hpatterns⟩ := Bool.and_eq_true_iff.mp hfree
  have hsub := (Option.filter_eq_some_iff.mp (Option.mem_toList.mp hadditional)).1
  refine ⟨.key member.1, mem_members.mp hmember, .additional (descend_key.mpr hsub) ?_ ?_, rfl⟩
  · simpa using hnamed
  · intro source isMatch hsource hcompile
    obtain ⟨v, hv⟩ := Option.isSome_iff_exists.mp hsource
    have hmem : (isMatch, v) ∈ compiledPatterns env schema := mem_compiledPatterns.mpr ⟨source, hv, hcompile⟩
    rw [Bool.not_eq_true', List.any_eq_false] at hpatterns
    exact Bool.eq_false_iff.mpr (hpatterns _ hmem)

theorem mem_leadingCalls {call : FormatCall} (h : call ∈ leadingCalls data schema path) :
    ∃ s, IsPartCall env data schema path call s := by
  obtain ⟨item, hitem, rfl⟩ := List.mem_map.mp h
  have hzip := List.mem_zipIdx_iff_getElem?.mp hitem
  obtain ⟨hvalue, hsub⟩ := List.getElem?_zip_eq_some.mp hzip
  refine ⟨.index item.2, ?_, .leading (mem_elemsUnder.mp (List.mem_zipIdx_iff_getElem?.mpr hsub)), rfl⟩
  cases data with
  | array elems => exact hvalue
  | _ => cases hvalue

theorem mem_itemCalls {call : FormatCall} (h : call ∈ itemCalls data schema path) :
    ∃ s, IsPartCall env data schema path call s := by
  obtain ⟨items, hitems, hcall⟩ := List.mem_flatMap.mp h
  obtain ⟨item, hitem, rfl⟩ := List.mem_map.mp hcall
  have hsub : Fields.ofJson? schema "items" = some items := Option.mem_toList.mp hitems
  obtain ⟨k, hk⟩ := List.mem_iff_getElem?.mp hitem
  rw [List.getElem?_drop, List.getElem?_zipIdx] at hk
  obtain ⟨value, hvalue, rfl⟩ := Option.map_eq_some_iff.mp hk
  refine ⟨.index (0 + ((elemsUnder schema "prefixItems").length + k)), ?_,
    .item (descend_key.mpr hsub) (by omega), rfl⟩
  rw [Nat.zero_add]
  cases data with
  | array elems => exact hvalue
  | _ => cases hvalue

theorem mem_partCalls {call : FormatCall} (h : call ∈ partCalls env data schema path) :
    ∃ s, IsPartCall env data schema path call s := by
  unfold partCalls at h
  rcases List.mem_append.mp h with h | h
  · rcases List.mem_append.mp h with h | h
    · rcases List.mem_append.mp h with h | h
      · rcases List.mem_append.mp h with h | h
        · exact mem_propertyCalls h
        · exact mem_patternCalls h
      · exact mem_additionalCalls h
    · exact mem_leadingCalls h
  · exact mem_itemCalls h

theorem sizeOf_partCalls {call : FormatCall} (h : call ∈ partCalls env data schema path) :
    sizeOf call.schema < sizeOf schema := by
  obtain ⟨s, hcall⟩ := mem_partCalls h
  obtain ⟨way, hne, hway⟩ := hcall.covers.exists_way
  exact sizeOf_descend_lt hne hway

variable (env)

/-- `walk_format`: what it adds to the warnings. -/
def walkFormat (data schema : Json) (path : String) : List FormatWarning :=
  if schema.isObject then
    unionWarnings (((elemsUnder schema "anyOf").attach.filter fun branch => survives data branch.1).map
      fun branch => walkFormat data branch.1 path) ++
    unionWarnings (((elemsUnder schema "oneOf").attach.filter fun branch => survives data branch.1).map
      fun branch => walkFormat data branch.1 path) ++
    (elemsUnder schema "allOf").attach.flatMap (fun member => walkFormat data member.1 path) ++
    ownWarning env data schema path ++
    (partCalls env data schema path).attach.flatMap fun call =>
      walkFormat call.1.data call.1.schema call.1.path
  else []
termination_by sizeOf schema
decreasing_by
  · exact sizeOf_elemsUnder branch.2
  · exact sizeOf_elemsUnder branch.2
  · exact sizeOf_elemsUnder member.2
  · exact sizeOf_partCalls call.2

/-- `format_warnings`. -/
def formatWarnings (data schema : Json) : List FormatWarning :=
  (walkFormat env data schema "").eraseDups

variable {env}

/-- The warnings of the branches of a union. -/
def branchWarnings (env : FormatEnv) (keyword : String) (data schema : Json) (path : String) :
    List FormatWarning :=
  unionWarnings (((elemsUnder schema keyword).filter (survives data)).map (walkFormat env data · path))

theorem map_filter_attach {α β : Type} {l : List α} (p : α → Bool) (f : α → β) :
    (l.attach.filter fun a => p a.1).map (fun a => f a.1) = (l.filter p).map f := by
  conv_rhs => rw [← List.attach_map_subtype_val l, List.filter_map, List.map_map]
  rfl

theorem flatMap_attach {α β : Type} {l : List α} (f : α → List β) :
    l.attach.flatMap (fun a => f a.1) = l.flatMap f := by
  conv_rhs => rw [← List.attach_map_subtype_val l, List.flatMap_map]

theorem walkFormat_object (h : schema.isObject = true) : walkFormat env data schema path =
    branchWarnings env "anyOf" data schema path ++ branchWarnings env "oneOf" data schema path ++
      (elemsUnder schema "allOf").flatMap (walkFormat env data · path) ++
      ownWarning env data schema path ++
      (partCalls env data schema path).flatMap fun call =>
        walkFormat env call.data call.schema call.path := by
  unfold branchWarnings
  rw [walkFormat, if_pos h, ← map_filter_attach (survives data) (walkFormat env data · path),
    ← map_filter_attach (survives data) (walkFormat env data · path),
    ← flatMap_attach (walkFormat env data · path),
    ← flatMap_attach fun call : FormatCall => walkFormat env call.data call.schema call.path]

theorem walkFormat_of_not_object (h : schema.isObject = false) : walkFormat env data schema path = [] := by
  rw [walkFormat, h]
  rfl

theorem mem_unionWarnings {probes : List (List FormatWarning)} {w : FormatWarning}
    (h : w ∈ unionWarnings probes) : ∃ probe ∈ probes, w ∈ probe := by
  unfold unionWarnings at h
  split at h
  · cases h
  · exact List.mem_flatten.mp h

/-- A union is quiet where no branch is probed, and where one of those that are is clean. -/
theorem unionWarnings_eq_nil {probes : List (List FormatWarning)} :
    unionWarnings probes = [] ↔ probes = [] ∨ [] ∈ probes := by
  unfold unionWarnings
  split
  · next hany =>
    obtain ⟨probe, hprobe, hempty⟩ := List.any_eq_true.mp hany
    rw [List.isEmpty_iff] at hempty
    exact ⟨fun _ => .inr (hempty ▸ hprobe), fun _ => rfl⟩
  · next hnone =>
    have hfull : ∀ probe ∈ probes, probe ≠ [] := fun probe hprobe hempty =>
      hnone (List.any_eq_true.mpr ⟨probe, hprobe, List.isEmpty_iff.mpr hempty⟩)
    rw [List.flatten_eq_nil_iff]
    constructor
    · intro hall
      cases probes with
      | nil => exact .inl rfl
      | cons probe rest => exact absurd (hall probe List.mem_cons_self) (hfull probe List.mem_cons_self)
    · rintro (rfl | hnil)
      · exact fun probe hprobe => by cases hprobe
      · exact absurd rfl (hfull [] hnil)

/-! ## Where a warning points -/

/-- A path continued to a place. -/
def pathOf (path : String) : Place → String
  | [] => path
  | s :: rest => pathOf (path ++ "/" ++ s.text) rest

/-- The path of a warning; the root is named by a slash. -/
def shownPath (path : String) : String := if path.isEmpty then "/" else path

theorem mem_ownWarning {w : FormatWarning} (h : w ∈ ownWarning env data schema path) :
    data = .string w.value ∧ w.path = shownPath path := by
  unfold ownWarning at h
  split at h
  · next fmt s _ hs =>
    split at h
    · cases h
    · obtain rfl := List.mem_singleton.mp h
      refine ⟨?_, rfl⟩
      cases data with
      | string value => rw [Option.some.inj hs]
      | _ => cases hs
  · cases h

/-- A warning is of a string of the data, and is shown under the way to it. -/
theorem mem_walkFormat {w : FormatWarning} (h : w ∈ walkFormat env data schema path) :
    ∃ place, data.descend place = some (.string w.value) ∧ w.path = shownPath (pathOf path place) := by
  induction hsize : sizeOf schema using Nat.strong_induction_on generalizing schema data path with
  | _ size ih =>
    by_cases hobject : schema.isObject = true
    · rw [walkFormat_object hobject] at h
      have hbranch : ∀ keyword, w ∈ branchWarnings env keyword data schema path →
          ∃ place, data.descend place = some (.string w.value) ∧
            w.path = shownPath (pathOf path place) := by
        intro keyword hw
        obtain ⟨probe, hprobe, hw⟩ := mem_unionWarnings hw
        obtain ⟨branch, hmem, rfl⟩ := List.mem_map.mp hprobe
        exact ih _ (hsize ▸ sizeOf_elemsUnder (List.mem_filter.mp hmem).1) hw rfl
      rcases List.mem_append.mp h with h | h
      · rcases List.mem_append.mp h with h | h
        · rcases List.mem_append.mp h with h | h
          · rcases List.mem_append.mp h with h | h
            · exact hbranch _ h
            · exact hbranch _ h
          · obtain ⟨member, hmem, hw⟩ := List.mem_flatMap.mp h
            exact ih _ (hsize ▸ sizeOf_elemsUnder hmem) hw rfl
        · obtain ⟨hdata, hpath⟩ := mem_ownWarning h
          exact ⟨[], congrArg some hdata, hpath⟩
      · obtain ⟨call, hcall, hw⟩ := List.mem_flatMap.mp h
        obtain ⟨place, hplace, hpath⟩ := ih _ (hsize ▸ sizeOf_partCalls hcall) hw rfl
        obtain ⟨s, hpart⟩ := mem_partCalls hcall
        refine ⟨s :: place, ?_, ?_⟩
        · rw [descend_cons, hpart.select]
          exact hplace
        · rw [hpath, hpart.path_eq]
          rfl
    · rw [walkFormat_of_not_object (Bool.eq_false_iff.mpr hobject)] at h
      cases h

/-- No key on the way needs an escape in a pointer. -/
def PlainPlace (place : Place) : Prop := ∀ name, .key name ∈ place → '/' ∉ name.toList ∧ '~' ∉ name.toList

theorem toList_pathOf (path : String) (place : Place) :
    pathOf path place = path ++ String.ofList ((place.map Selector.text).flatMap fun token => '/' :: token.toList) := by
  induction place generalizing path with
  | nil => simp [pathOf]
  | cons s rest ih =>
    rw [pathOf, ih, List.map_cons, List.flatMap_cons]
    apply String.toList_injective
    simp

theorem text_plain {s : Selector} (h : ∀ name, s = .key name → '/' ∉ name.toList ∧ '~' ∉ name.toList) :
    '/' ∉ s.text.toList ∧ '~' ∉ s.text.toList := by
  cases s with
  | key name => exact h name rfl
  | index i =>
    have hdigits : ∀ c ∈ (Selector.index i).text.toList, c.isDigit = true := by
      intro c hc
      refine Nat.isDigit_of_mem_toDigits (b := 10) (n := i) (by decide) (by decide) ?_
      rwa [← Nat.toList_repr]
    exact ⟨fun hmem => absurd (hdigits _ hmem) (by decide), fun hmem => absurd (hdigits _ hmem) (by decide)⟩

/-- A place is found by the tokens of its path. -/
theorem at?_of_descend {v part : Json} {place : Place} (h : v.descend place = some part) :
    v.at? (place.map Selector.text) = some part := by
  induction place generalizing v with
  | nil => exact h
  | cons s rest ih =>
    rw [descend_cons] at h
    obtain ⟨child, hchild, hrest⟩ := Option.bind_eq_some_iff.mp h
    have htoken : v.child? s.text = some child := by
      cases s with
      | key name =>
        cases v with
        | object fields => exact hchild
        | _ => cases hchild
      | index i =>
        cases v with
        | array elems =>
          show (parseIndex (toString i)).bind (elems[·]?) = some child
          rw [parseIndex_toString]
          exact hchild
        | _ => cases hchild
    rw [List.map_cons, at?_cons, htoken]
    exact ih hrest

/-- Away from the root, the path of a plain place is a pointer to it. -/
theorem pointer_pathOf {v part : Json} {place : Place} (h : v.descend place = some part)
    (hne : place ≠ []) (hplain : PlainPlace place) : v.pointer (shownPath (pathOf "" place)) = some part := by
  have htext : ∀ token ∈ place.map Selector.text, '/' ∉ token.toList ∧ '~' ∉ token.toList := by
    intro token htoken
    obtain ⟨s, hs, rfl⟩ := List.mem_map.mp htoken
    exact text_plain fun name hname => hplain name (hname ▸ hs)
  have htokens := @pointerTokens_flatMap (place.map Selector.text)
    (fun hnil => hne (List.map_eq_nil_iff.mp hnil)) (fun token htoken => (htext token htoken).1)
    fun token htoken => (htext token htoken).2
  have hshown : shownPath (pathOf "" place) = String.ofList
      ((place.map Selector.text).flatMap fun token => '/' :: token.toList) := by
    rw [toList_pathOf, String.empty_append]
    cases place with
    | nil => exact absurd rfl hne
    | cons s rest =>
      refine if_neg fun hempty => ?_
      rw [String.isEmpty_iff, ← String.toList_inj, String.toList_ofList] at hempty
      cases hempty
  unfold Json.pointer
  rw [hshown, htokens]
  exact at?_of_descend h

/-! ## Warnings of valid data -/

open Relation

/-- JSON Schema with `format` an assertion, of the checks of the program, and with the patterns that
compile matched as the program does. -/
def FormatEnv.dialect (env : FormatEnv) (undecided : String → String → Prop)
    (others : Json → Json → Prop) : Dialect where
  finds pattern name :=
    match env.compile pattern with
    | some isMatch => isMatch name = true
    | none => undecided pattern name
  format fmt text := checkFormat env fmt text = true
  others := others

/-- What the walk comes to next, as data and schema. -/
inductive FormatStep (env : FormatEnv) : Json × Json → Json × Json → Prop
  | branch {data schema branch : Json} {keyword : String} (hmem : branch ∈ elemsUnder schema keyword)
      (hkeyword : keyword ∈ ["anyOf", "oneOf"]) (hsurvives : survives data branch = true) :
      FormatStep env (data, schema) (data, branch)
  | member {data schema member : Json} (hmem : member ∈ elemsUnder schema "allOf") :
      FormatStep env (data, schema) (data, member)
  | part {data schema value sub : Json} {s : Selector} (hselect : data.select s = some value)
      (hcovers : Covers env schema s sub) : FormatStep env (data, schema) (value, sub)

/-- Nothing is in the way of the walk at a node: its patterns compile, a branch of a union without a
format is one the data contradicts, and no branch is dropped for the shape of a number. -/
structure Undisturbed (env : FormatEnv) (data schema : Json) : Prop where
  compiles : ∀ pattern, (schema.descend [.key "patternProperties", .key pattern]).isSome →
    (env.compile pattern).isSome
  annotated : ∀ keyword ∈ ["anyOf", "oneOf"], ∀ branch ∈ elemsUnder schema keyword,
    declaresFormat branch = true ∨ contradicts branch data = true
  judged : ∀ keyword ∈ ["anyOf", "oneOf"], ∀ branch ∈ elemsUnder schema keyword,
    contradicts branch data = true → Refuted SameValue branch data

variable {undecided : String → String → Prop} {others : Json → Json → Prop}

/-- What covers a part of valid data accepts it. -/
theorem Covers.valid {s : Selector} {value : Json} (h : Covers env schema s sub)
    (hcompiles : ∀ pattern, (schema.descend [.key "patternProperties", .key pattern]).isSome →
      (env.compile pattern).isSome)
    (hvalid : Valid (env.dialect undecided others) schema data) (hvalue : data.select s = some value) :
    Valid (env.dialect undecided others) sub value := by
  cases h with
  | property hsub => exact hvalid.property hsub hvalue
  | @pattern pattern name _ isMatch hsub hcompile hmatch =>
    have hfinds : (env.dialect undecided others).finds pattern name := by
      unfold FormatEnv.dialect
      dsimp only
      rw [hcompile]
      exact hmatch
    exact hvalid.patternProperty hsub hvalue hfinds
  | @additional name _ hsub hnamed hpatterns =>
    refine hvalid.additional hsub hvalue ⟨hnamed, fun pattern hpattern hfinds => ?_⟩
    obtain ⟨isMatch, hcompile⟩ := Option.isSome_iff_exists.mp (hcompiles pattern hpattern)
    unfold FormatEnv.dialect at hfinds
    dsimp only at hfinds
    rw [hcompile] at hfinds
    exact Bool.false_ne_true ((hpatterns pattern isMatch hpattern hcompile).symm.trans hfinds)
  | leading hsub => exact hvalid.leadingItem hsub hvalue
  | item hsub hi => exact hvalid.item hsub hvalue hi

theorem ownWarning_eq_nil (hvalid : Valid (env.dialect undecided others) schema data)
    (hobject : schema.isObject = true) : ownWarning env data schema path = [] := by
  unfold ownWarning
  split
  · next fmt text hfmt htext =>
    obtain ⟨v, hv, hstr⟩ := Option.bind_eq_some_iff.mp hfmt
    have hname : v = .string fmt := by
      cases v with
      | string s => rw [Option.some.inj hstr]
      | _ => cases hstr
    have hdata : data = .string text := by
      cases data with
      | string s => rw [Option.some.inj htext]
      | _ => cases htext
    exact if_pos ((hvalid.asserts hobject).format fmt text (hname ▸ hv) hdata)
  · rfl

/-- Of valid data the walk has nothing to warn of, where nothing is in its way. -/
theorem walkFormat_of_valid (hvalid : Valid (env.dialect undecided others) schema data)
    (hplain : ∀ v, ReflTransGen (FormatStep env) (data, schema) v → Undisturbed env v.1 v.2) :
    walkFormat env data schema path = [] := by
  induction hsize : sizeOf schema using Nat.strong_induction_on generalizing schema data path with
  | _ size ih =>
    by_cases hobject : schema.isObject = true
    · have hnode := hplain _ .refl
      have hbelow : ∀ {v : Json × Json}, FormatStep env (data, schema) v →
          ∀ v', ReflTransGen (FormatStep env) v v' → Undisturbed env v'.1 v'.2 :=
        fun hstep v' hreaches => hplain v' (.head hstep hreaches)
      have hunion : ∀ keyword ∈ ["anyOf", "oneOf"], branchWarnings env keyword data schema path = [] := by
        intro keyword hkeyword
        refine unionWarnings_eq_nil.mpr ?_
        by_cases hnil : elemsUnder schema keyword = []
        · exact .inl (by rw [hnil]; rfl)
        · obtain ⟨branch, hmem, hbranch⟩ := hvalid.branch hkeyword (array_of_elemsUnder hnil)
          have hkept : contradicts branch data = false := Bool.eq_false_iff.mpr fun hcontradicts =>
            (env.dialect undecided others).reading.not_valid
              (hnode.judged keyword hkeyword branch hmem hcontradicts) hbranch
          have hsurvives : survives data branch = true := by
            unfold survives
            rw [hkept, (hnode.annotated keyword hkeyword branch hmem).resolve_right
              (Bool.eq_false_iff.mp hkept)]
            rfl
          refine .inr (List.mem_map.mpr ⟨branch, List.mem_filter.mpr ⟨hmem, hsurvives⟩, ?_⟩)
          exact ih _ (hsize ▸ sizeOf_elemsUnder hmem) hbranch (hbelow (.branch hmem hkeyword hsurvives)) rfl
      have hmembers : (elemsUnder schema "allOf").flatMap (walkFormat env data · path) = [] := by
        refine List.flatMap_eq_nil_iff.mpr fun member hmem => ?_
        obtain ⟨i, hi⟩ := exists_descend_of_mem_elemsUnder hmem
        exact ih _ (hsize ▸ sizeOf_elemsUnder hmem) (hvalid.member hi) (hbelow (.member hmem)) rfl
      have hparts : (partCalls env data schema path).flatMap
          (fun call => walkFormat env call.data call.schema call.path) = [] := by
        refine List.flatMap_eq_nil_iff.mpr fun call hcall => ?_
        obtain ⟨s, hpart⟩ := mem_partCalls hcall
        exact ih _ (hsize ▸ sizeOf_partCalls hcall)
          (hpart.covers.valid hnode.compiles hvalid hpart.select) (hbelow (.part hpart.select hpart.covers)) rfl
      rw [walkFormat_object hobject, hunion _ (by decide), hunion _ (by decide), hmembers, hparts,
        ownWarning_eq_nil hvalid hobject]
      rfl
    · exact walkFormat_of_not_object (Bool.eq_false_iff.mpr hobject)

/-- What `format_warnings` owes its caller. -/
structure FormatLaws (env : FormatEnv) (data schema : Json) : Prop where
  quiet : ∀ undecided others, Valid (env.dialect undecided others) schema data →
    (∀ v, ReflTransGen (FormatStep env) (data, schema) v → Undisturbed env v.1 v.2) →
    formatWarnings env data schema = []
  placed : ∀ w ∈ formatWarnings env data schema, ∃ place,
    data.descend place = some (.string w.value) ∧ w.path = shownPath (pathOf "" place) ∧
      (place ≠ [] → PlainPlace place → data.pointer w.path = some (.string w.value))

theorem formatWarnings_laws (env : FormatEnv) (data schema : Json) : FormatLaws env data schema where
  quiet undecided others hvalid hplain := by
    unfold formatWarnings
    rw [walkFormat_of_valid hvalid hplain]
    rfl
  placed w hw := by
    obtain ⟨place, hplace, hpath⟩ := mem_walkFormat (List.mem_eraseDups.mp hw)
    refine ⟨place, hplace, hpath, fun hne hplain => ?_⟩
    rw [hpath]
    exact pointer_pathOf hplace hne hplain

/-- Regular expressions and parsers that know nothing. -/
def blankEnv : FormatEnv where
  compile _ := none
  dateTime _ := false
  date _ := false
  time _ := false
  uuid _ := false
  ipv4 _ := false
  ipv6 _ := false

/-- The warning of a string that is the whole data is shown under a slash, which is no pointer to it. -/
theorem root_warning_not_pointed :
    ¬ ∀ (env : FormatEnv) (data schema : Json),
      (∀ undecided others, Valid (env.dialect undecided others) schema data →
        formatWarnings env data schema = []) ∧
      ∀ w ∈ formatWarnings env data schema, data.pointer w.path = some (.string w.value) := by
  intro h
  have hwarnings : formatWarnings blankEnv (.string "x") (.object [("format", .string "uuid")]) =
      [⟨"/", "uuid", "x"⟩] := by
    unfold formatWarnings
    rw [walkFormat_object rfl]
    rfl
  have hpointed := (h blankEnv (.string "x") (.object [("format", .string "uuid")])).2
    ⟨"/", "uuid", "x"⟩ (hwarnings ▸ List.mem_singleton_self _)
  exact absurd hpointed (by rintro ⟨⟩)

end Apcore
