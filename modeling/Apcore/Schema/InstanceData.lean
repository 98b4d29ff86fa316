import Apcore.Schema.NestedSchema
import Apcore.Schema.ToStrict

/-! # `Schema.InstanceData` — rewrites and the data in a schema

The rewrites walk through everything in a schema. A value that is data they go into as if it were a
schema, so that it stays as it is only where they find nothing to change in it. -/

namespace Apcore

/-! ## Data in a schema -/

/-- The keywords whose values are instances. -/
def dataKeywords : List String := ["const", "enum", "examples"]

/-- The keywords of data for a rewrite that keeps `default`. -/
def keptKeywords : List String := "default" :: dataKeywords

/-- A value under a keyword of a schema in a schema. -/
structure DataAt (keywords : List String) (schema : Json) (place : Place) (keyword : String) (v : Json) :
    Prop where
  position : allPositions.Reaches place
  listed : keyword ∈ keywords
  found : schema.descend (place ++ [.key keyword]) = some v

/-- All data is where it was, as it was. -/
def KeepsData (keywords : List String) (schema result : Json) : Prop :=
  ∀ place keyword v, DataAt keywords schema place keyword v →
    result.descend (place ++ [.key keyword]) = some v

theorem descend_keyword {schema v : Json} {place : Place} {keyword : String} :
    schema.descend (place ++ [.key keyword]) = some v ↔
      ∃ leaf, schema.descend place = some leaf ∧ Fields.ofJson? leaf keyword = some v := by
  rw [Json.descend_append, Option.bind_eq_some_iff]
  exact exists_congr fun leaf => and_congr_right fun _ => Json.descend_key

/-- A rewrite that goes into the values of keywords keeps the data that it has nothing to do with. -/
theorem keepsData_iff {keywords : List String} {schema result : Json} (value : Json → Json)
    (h : ∀ place leaf, allPositions.Reaches place → schema.descend place = some leaf →
      leaf.isObject = true → ∃ leaf', result.descend place = some leaf' ∧
        ∀ keyword ∈ keywords, Fields.ofJson? leaf' keyword = (Fields.ofJson? leaf keyword).map value) :
    KeepsData keywords schema result ↔
      ∀ place keyword v, DataAt keywords schema place keyword v → value v = v := by
  refine forall₄_congr fun place keyword v hdata => ?_
  obtain ⟨leaf, hleaf, hv⟩ := descend_keyword.mp hdata.found
  obtain ⟨leaf', hleaf', hvalues⟩ := h place leaf hdata.position hleaf (Json.isObject_of_ofJson? hv)
  have hvalue := hvalues keyword hdata.listed
  rw [hv] at hvalue
  rw [Json.descend_append, hleaf']
  show (leaf'.descend [.key keyword] = some v) ↔ _
  rw [Json.descend_key, hvalue]
  exact Option.some_inj

/-! ## What a walk meets in a value -/

/-- The objects a walk comes to in a value, each with whether its keys are taken for names. A walk that
is not deep passes over arrays in arrays. -/
inductive Meets (deep : Bool) : Bool → Json → Bool → List (String × Json) → Prop
  | here {names : Bool} {obj : List (String × Json)} : Meets deep names (.object obj) names obj
  | entry {names names' : Bool} {obj map : List (String × Json)} {entry : String × Json}
      (hmem : entry ∈ obj) (h : Meets deep (!names && schemaNameMap entry.1) entry.2 names' map) :
      Meets deep names (.object obj) names' map
  | elem {names names' : Bool} {arr : List Json} {map : List (String × Json)} {item : Json}
      (hmem : item ∈ arr) (hitem : deep = true ∨ item.isObject = true)
      (h : Meets deep false item names' map) : Meets deep names (.array arr) names' map

/-- What a walk leaves as it is: a value where it has nothing to do at any object it meets. -/
theorem fixed_iff_forall_meets (deep : Bool) (Fixed : Bool → Json → Prop)
    (Local : Bool → List (String × Json) → Prop)
    (hobject : ∀ names obj, Fixed names (.object obj) ↔
      Local names obj ∧ ∀ entry ∈ obj, Fixed (!names && schemaNameMap entry.1) entry.2)
    (harray : ∀ names arr, Fixed names (.array arr) ↔
      ∀ item ∈ arr, deep = true ∨ item.isObject = true → Fixed false item)
    (hscalar : ∀ names v, v.asObject? = none → v.asArray? = none → Fixed names v)
    (names : Bool) (v : Json) :
    Fixed names v ↔ ∀ names' map, Meets deep names v names' map → Local names' map := by
  constructor
  · intro hfixed names' map hmeets
    induction hmeets with
    | here => exact ((hobject _ _).mp hfixed).1
    | entry hmem _ ih => exact ih (((hobject _ _).mp hfixed).2 _ hmem)
    | elem hmem hitem _ ih => exact ih ((harray _ _).mp hfixed _ hmem hitem)
  · intro hlocal
    induction v using Json.children_induction generalizing names with
    | object obj ih =>
      refine (hobject _ _).mpr ⟨hlocal _ _ .here, fun entry hmem => ?_⟩
      exact ih entry hmem _ fun names' map hmeets => hlocal names' map (.entry hmem hmeets)
    | array arr ih =>
      refine (harray _ _).mpr fun item hmem hitem => ?_
      exact ih item hmem _ fun names' map hmeets => hlocal names' map (.elem hmem hitem hmeets)
    | _ => exact hscalar _ _ rfl rfl

/-! ## `strip_extensions` -/

/-- Data without a key that is stripped, as far as keys are taken for keywords. -/
def BareData (removeDefaults : Bool) (v : Json) : Prop :=
  ∀ map, Meets false false v false map → ∀ entry ∈ map, isExtension removeDefaults entry.1 = false

theorem stripValue_eq_self_iff (removeDefaults : Bool) (v : Json) :
    stripValue v false removeDefaults = v ↔ BareData removeDefaults v := by
  have hwalk := fixed_iff_forall_meets false (fun names v => stripValue v names removeDefaults = v)
    (fun names map => names = false → ∀ entry ∈ map, isExtension removeDefaults entry.1 = false)
    (fun names obj => ?_) (fun names arr => ?_) (fun names v hobject harray => ?_) false v
  · rw [hwalk]
    constructor
    · exact fun h map hmeets => h false map hmeets rfl
    · rintro h names' map hmeets rfl
      exact h map hmeets
  · rw [stripValue_object, stripExtensions_object_eq_self]
    constructor
    · intro h
      refine ⟨?_, fun entry hmem => (h entry hmem).2⟩
      rintro rfl entry hmem
      exact (h entry hmem).1
    · rintro ⟨hlocal, hvalues⟩ entry hmem
      refine ⟨?_, hvalues entry hmem⟩
      cases names with
      | true => rfl
      | false => exact hlocal rfl entry hmem
  · rw [stripValue, Json.array.injEq, stripItems_eq_self]
    refine forall₂_congr fun item _ => ?_
    cases item with
    | object obj => exact ⟨fun h _ => h, fun h => h (.inr rfl)⟩
    | _ => exact iff_of_true rfl fun h => absurd (h.resolve_left Bool.false_ne_true) Bool.false_ne_true
  · cases v with
    | object obj => cases hobject
    | array arr => cases harray
    | _ => rfl

theorem strip_keepsData_iff (removeDefaults : Bool) {keywords : List String}
    (hkeywords : ∀ keyword ∈ keywords, isExtension removeDefaults keyword = false ∧
      schemaNameMap keyword = false) (schema : Json) :
    KeepsData keywords schema (stripExtensions schema false removeDefaults) ↔
      ∀ place keyword v, DataAt keywords schema place keyword v → BareData removeDefaults v := by
  rw [keepsData_iff fun v => stripValue v false removeDefaults]
  · exact forall₄_congr fun _ _ v _ => stripValue_eq_self_iff removeDefaults v
  · intro place leaf hplace hleaf hobject
    refine ⟨_, (stripExtensions_actsAt removeDefaults).descend hplace hleaf hobject, fun keyword hmem => ?_⟩
    obtain ⟨hkept, hnames⟩ := hkeywords keyword hmem
    rw [ofJson?_stripExtensions (.inl hkept), hnames]
    rfl

theorem stripExtensionKeywords_keepsData_iff (schema : Json) :
    KeepsData keptKeywords schema (stripExtensionKeywords schema) ↔
      ∀ place keyword v, DataAt keptKeywords schema place keyword v → BareData false v :=
  strip_keepsData_iff false (by decide) schema

/-! ## `apply_llm_descriptions` -/

/-- Data in which no description gives way to another one. -/
def DescribedData (v : Json) : Prop :=
  ∀ map description llmDesc, Meets true false v false map →
    Fields.get? map "description" = some description →
      Fields.get? map "x-llm-description" = some llmDesc → description = llmDesc

theorem describe_eq_self {obj : List (String × Json)}
    (h : ∀ description llmDesc, Fields.get? obj "description" = some description →
      Fields.get? obj "x-llm-description" = some llmDesc → description = llmDesc) (names : Bool) :
    describe names obj = obj := by
  unfold describe
  split
  · cases hllm : Fields.get? obj "x-llm-description" with
    | none => rfl
    | some llmDesc => exact Fields.adjust_eq_self fun v hv => (h v llmDesc hv hllm).symm
  · rfl

/-- A node that is as it was had one description. -/
theorem eq_of_applyLlm_eq_self {obj : List (String × Json)}
    (h : applyLlm (.object obj) false = .object obj) {description llmDesc : Json}
    (hdescription : Fields.get? obj "description" = some description)
    (hllm : Fields.get? obj "x-llm-description" = some llmDesc) : description = llmDesc := by
  have hboth : Fields.get? (describe false obj) "description" = some llmDesc := by
    unfold describe Fields.containsKey
    rw [hdescription, hllm]
    show Fields.get? (Fields.adjust "description" (fun _ => llmDesc) obj) "description" = _
    rw [Fields.get?_adjust_self, hdescription]
    rfl
  have hresult : Fields.ofJson? (applyLlm (.object obj) false) "description" =
      some (applyLlm llmDesc false) := by
    rw [applyLlm_object]
    show Fields.get? (Fields.mapValues _ _) "description" = _
    rw [Fields.get?_mapValues, hboth]
    rfl
  have hllm' : Fields.ofJson? (applyLlm (.object obj) false) "x-llm-description" =
      some (applyLlm llmDesc false) := by
    rw [ofJson?_applyLlm (.inl (by decide))]
    show (Fields.get? obj "x-llm-description").map _ = _
    rw [hllm]
    rfl
  rw [h] at hresult hllm'
  have hsame : some description = some llmDesc := by
    rw [← hdescription, ← hllm]
    exact hresult.trans hllm'.symm
  exact Option.some.inj hsame

theorem applyLlm_eq_self_iff (v : Json) : applyLlm v false = v ↔ DescribedData v := by
  have hwalk := fixed_iff_forall_meets true (fun names v => applyLlm v names = v)
    (fun names map => names = false → ∀ description llmDesc,
      Fields.get? map "description" = some description →
        Fields.get? map "x-llm-description" = some llmDesc → description = llmDesc)
    (fun names obj => ?_) (fun names arr => ?_) (fun names v hobject harray => ?_) false v
  · rw [hwalk]
    constructor
    · exact fun h map description llmDesc hmeets => h false map hmeets rfl description llmDesc
    · rintro h names' map hmeets rfl description llmDesc
      exact h map description llmDesc hmeets
  · have hvalues : describe names obj = obj → (applyLlm (.object obj) names = .object obj ↔
        ∀ entry ∈ obj, applyLlm entry.2 (!names && schemaNameMap entry.1) = entry.2) := by
      intro hdescribe
      rw [applyLlm_object, Json.object.injEq, hdescribe, Fields.mapValues_eq_self]
    cases names with
    | true =>
      rw [hvalues rfl]
      exact ⟨fun h => ⟨fun heq => absurd heq (by decide), h⟩, And.right⟩
    | false =>
      constructor
      · intro h
        have hlocal := fun description llmDesc => @eq_of_applyLlm_eq_self obj h description llmDesc
        exact ⟨fun _ => hlocal, (hvalues (describe_eq_self hlocal false)).mp h⟩
      · rintro ⟨hlocal, hentries⟩
        exact (hvalues (describe_eq_self (hlocal rfl) false)).mpr hentries
  · rw [applyLlm, Json.array.injEq, applyLlmItems_eq]
    constructor
    · intro h item hmem _
      exact List.map_inj_left.mp (h.trans (List.map_id arr).symm) item hmem
    · intro h
      exact (List.map_congr_left fun item hmem => h item hmem (.inl rfl)).trans (List.map_id arr)
  · cases v with
    | object obj => cases hobject
    | array arr => cases harray
    | _ => rfl

theorem applyLlmDescriptions_keepsData_iff (schema : Json) :
    KeepsData keptKeywords schema (applyLlmDescriptions schema) ↔
      ∀ place keyword v, DataAt keptKeywords schema place keyword v → DescribedData v := by
  have hkeywords : ∀ keyword ∈ keptKeywords, keyword ≠ "description" ∧ schemaNameMap keyword = false := by
    decide
  rw [keepsData_iff fun v => applyLlm v false]
  · exact forall₄_congr fun _ _ v _ => applyLlm_eq_self_iff v
  · intro place leaf hplace hleaf hobject
    refine ⟨_, applyLlm_actsAt.descend hplace hleaf hobject, fun keyword hmem => ?_⟩
    obtain ⟨hkept, hnames⟩ := hkeywords keyword hmem
    rw [ofJson?_applyLlm (.inl hkept), hnames]
    rfl

/-! ## `strip_nested_schema` -/

/-- Data without a `$schema` that is a string. -/
def UndeclaredData (v : Json) : Prop :=
  ∀ names map, Meets true false v names map → ∀ entry ∈ map, entry.1 = "$schema" → entry.2.asStr? = none

theorem stripNestedItems_eq (arr : List Json) :
    stripNestedItems arr = arr.map fun item => stripNestedSchema item false := by
  induction arr with
  | nil => rfl
  | cons item rest ih => rw [stripNestedItems, ih, List.map_cons]

theorem length_stripNestedEntries (obj : List (String × Json)) (top : Bool) :
    (stripNestedEntries obj top).length ≤ obj.length := by
  induction obj with
  | nil => exact le_rfl
  | cons entry rest ih =>
    rw [stripNestedEntries]
    split
    · exact ih.trans (Nat.le_succ _)
    · exact Nat.succ_le_succ ih

theorem stripNestedEntries_eq_self {obj : List (String × Json)} :
    stripNestedEntries obj false = obj ↔ ∀ entry ∈ obj,
      (entry.1 = "$schema" → entry.2.asStr? = none) ∧ stripNestedSchema entry.2 false = entry.2 := by
  induction obj with
  | nil => exact iff_of_true rfl fun _ h => absurd h List.not_mem_nil
  | cons entry rest ih =>
    obtain ⟨key, child⟩ := entry
    rw [List.forall_mem_cons, ← ih, stripNestedEntries]
    by_cases h : key = "$schema" ∧ false = false ∧ child.asStr?.isSome = true
    · rw [if_pos h]
      refine iff_of_false (fun heq => ?_) fun hkept => ?_
      · have hle := length_stripNestedEntries rest false
        rw [heq, List.length_cons] at hle
        omega
      · have hsome := h.2.2
        rw [hkept.1.1 h.1] at hsome
        cases hsome
    · rw [if_neg h, List.cons.injEq, Prod.mk.injEq]
      refine and_congr_left fun _ => ?_
      constructor
      · rintro ⟨-, hchild⟩
        refine ⟨fun hkey => ?_, hchild⟩
        exact Option.not_isSome_iff_eq_none.mp fun hsome => h ⟨hkey, rfl, hsome⟩
      · exact fun hkept => ⟨rfl, hkept.2⟩

theorem stripNestedSchema_eq_self_iff (v : Json) : stripNestedSchema v false = v ↔ UndeclaredData v := by
  refine fixed_iff_forall_meets true (fun _ v => stripNestedSchema v false = v)
    (fun _ map => ∀ entry ∈ map, entry.1 = "$schema" → entry.2.asStr? = none)
    (fun names obj => ?_) (fun names arr => ?_) (fun names v hobject harray => ?_) false v
  · rw [stripNestedSchema, Json.object.injEq, stripNestedEntries_eq_self]
    exact forall₂_and
  · rw [stripNestedSchema, Json.array.injEq, stripNestedItems_eq]
    constructor
    · intro h item hmem _
      exact List.map_inj_left.mp (h.trans (List.map_id arr).symm) item hmem
    · intro h
      exact (List.map_congr_left fun item hmem => h item hmem (.inl rfl)).trans (List.map_id arr)
  · cases v with
    | object obj => cases hobject
    | array arr => cases harray
    | _ => rfl

theorem get?_stripNestedEntries {obj : List (String × Json)} {key : String} (top : Bool)
    (h : key = "$schema" → ∀ v, Fields.get? obj key = some v → v.asStr? = none) :
    Fields.get? (stripNestedEntries obj top) key =
      (Fields.get? obj key).map fun v => stripNestedSchema v false := by
  induction obj with
  | nil => rfl
  | cons entry rest ih =>
    obtain ⟨k, child⟩ := entry
    rw [stripNestedEntries, Fields.get?_cons]
    rw [Fields.get?_cons] at h
    by_cases hkey : k = key
    · rw [if_pos hkey] at h ⊢
      have hkept : ¬(k = "$schema" ∧ top = false ∧ child.asStr?.isSome = true) := by
        rintro ⟨hdeclares, -, hsome⟩
        rw [h (hkey.symm.trans hdeclares) child rfl] at hsome
        cases hsome
      rw [if_neg hkept, Fields.get?_cons, if_pos hkey]
      rfl
    · rw [if_neg hkey] at h ⊢
      split
      · exact ih h
      · rw [Fields.get?_cons, if_neg hkey]
        exact ih h

/-- What is no declaration stays under its key. -/
theorem ofJson?_stripNestedSchema {node : Json} {key : String} (top : Bool)
    (h : key = "$schema" → ∀ v, Fields.ofJson? node key = some v → v.asStr? = none) :
    Fields.ofJson? (stripNestedSchema node top) key =
      (Fields.ofJson? node key).map fun v => stripNestedSchema v false := by
  cases node with
  | object obj => exact get?_stripNestedEntries top h
  | _ => rfl

theorem step_stripNestedSchema {way : Place} (h : allPositions.Step way) {node child : Json} (top : Bool)
    (hchild : node.descend way = some child) (hobject : child.isObject = true) :
    (stripNestedSchema node top).descend way = some (stripNestedSchema child false) := by
  have hkeyword : ∀ {keyword : String} {holding : Holding}, (keyword, holding) ∈ allPositions →
      Fields.ofJson? (stripNestedSchema node top) keyword =
        (Fields.ofJson? node keyword).map fun v => stripNestedSchema v false := by
    intro keyword holding hmem
    have hall : ∀ entry ∈ allPositions, entry.1 ≠ "$schema" := by decide
    exact ofJson?_stripNestedSchema top fun heq => absurd heq (hall _ hmem)
  cases h with
  | one hmem =>
    rw [Json.descend_key] at hchild ⊢
    rw [hkeyword hmem, hchild]
    rfl
  | list hmem i =>
    obtain ⟨elems, helems, helem⟩ := Json.descend_elem.mp hchild
    refine Json.descend_elem.mpr ⟨elems.map fun v => stripNestedSchema v false, ?_, ?_⟩
    · rw [hkeyword hmem, helems, Option.map_some, stripNestedSchema, stripNestedItems_eq]
    · rw [List.getElem?_map, helem]
      rfl
  | named hmem name =>
    obtain ⟨entries, hentries, hentry⟩ := Json.descend_entry.mp hchild
    refine Json.descend_entry.mpr ⟨stripNestedEntries entries false, ?_, ?_⟩
    · rw [hkeyword hmem, hentries]
      rfl
    · rw [get?_stripNestedEntries, hentry]
      · rfl
      · rintro - v hv
        obtain rfl := Option.some.inj (hentry.symm.trans hv)
        obtain ⟨obj, rfl⟩ := Json.isObject_iff.mp hobject
        rfl

theorem exists_stripNestedSchema {place : Place} (h : allPositions.Reaches place) {node leaf : Json}
    (top : Bool) (hleaf : node.descend place = some leaf) (hobject : leaf.isObject = true) :
    ∃ top', (stripNestedSchema node top).descend place = some (stripNestedSchema leaf top') := by
  induction h generalizing node top with
  | here =>
    obtain rfl := Option.some.inj hleaf
    exact ⟨top, rfl⟩
  | step hstep hrest ih =>
    rw [Json.descend_append] at hleaf
    obtain ⟨child, hchild, hbelow⟩ := Option.bind_eq_some_iff.mp hleaf
    obtain ⟨top', hleaf'⟩ := ih false hbelow
    refine ⟨top', ?_⟩
    rw [Json.descend_append, step_stripNestedSchema hstep top hchild (hrest.isObject hbelow hobject)]
    exact hleaf'

theorem stripNestedSchema_keepsData_iff (schema : Json) :
    KeepsData keptKeywords schema (stripNestedSchema schema true) ↔
      ∀ place keyword v, DataAt keptKeywords schema place keyword v → UndeclaredData v := by
  have hkeywords : ∀ keyword ∈ keptKeywords, keyword ≠ "$schema" := by decide
  rw [keepsData_iff fun v => stripNestedSchema v false]
  · exact forall₄_congr fun _ _ v _ => stripNestedSchema_eq_self_iff v
  · intro place leaf hplace hleaf hobject
    obtain ⟨top, hleaf'⟩ := exists_stripNestedSchema hplace true hleaf hobject
    exact ⟨_, hleaf', fun keyword hmem =>
      ofJson?_stripNestedSchema top fun heq => absurd heq (hkeywords keyword hmem)⟩

/-! ## `to_strict_schema` -/

/-- All data of the schemas that strict mode does not replace is where its schema has gone, as it
was. -/
def StrictKeepsData (schema : Json) : Prop :=
  ∀ place keyword v, DataAt dataKeywords schema place keyword v → Stays schema place →
    ∃ place', Wraps place place' ∧ (toStrictSchema schema).descend (place' ++ [.key keyword]) = some v

theorem Stays.stripped {schema : Json} {place : Place} (h : Stays schema place) {leaf : Json}
    (hleaf : schema.descend place = some leaf) (hobject : leaf.isObject = true) :
    Stays (stripExtensions schema false true) place := by
  induction h with
  | here => exact .here
  | @step node child way rest hstep hclosed hchild hrest ih =>
    have hbelow := hleaf
    rw [Json.descend_append, hchild] at hbelow
    have hchildObject := hrest.reaches.isObject hbelow hobject
    have hreaches : allPositions.Reaches way := List.append_nil way ▸ .step hstep .here
    refine .step hstep (fun heq => ?_)
      ((stripExtensions_actsAt true).descend hreaches hchild hchildObject) (ih hbelow)
    rw [isObjectSchema_stripped]
    exact hclosed heq

/-- Data goes where its schema goes. -/
theorem Image.ofJson?_data {leaf leaf' : Json} (h : Image leaf leaf') {keyword : String}
    (hkeyword : keyword ∈ dataKeywords) : Fields.ofJson? leaf' keyword = Fields.ofJson? leaf keyword := by
  have hall : ∀ keyword ∈ dataKeywords, keyword ≠ "type" ∧ keyword ≠ "required" ∧
      keyword ≠ "additionalProperties" ∧ keyword ≠ "properties" ∧
        ∀ convert v, nested convert keyword v = v := by
    refine List.forall_mem_cons.mpr ⟨?_, List.forall_mem_cons.mpr ⟨?_, List.forall_mem_singleton.mpr ?_⟩⟩
    all_goals exact ⟨by decide, by decide, by decide, by decide, fun _ _ => rfl⟩
  obtain ⟨htype, hrequired, hadditional, hproperties, hnested⟩ := hall keyword hkeyword
  induction h with
  | same => rfl
  | converted =>
    cases leaf with
    | object obj =>
      rw [get?_convert hrequired (.inl hadditional) hproperties]
      show (Fields.get? obj keyword).map _ = Fields.get? obj keyword
      cases Fields.get? obj keyword with
      | none => rfl
      | some v => rw [Option.map_some, hnested]
    | _ => rfl
  | widened _ ih => exact (Fields.get?_adjust_ne htype _ _).trans ih

theorem toStrictSchema_keepsData_iff (schema : Json) : StrictKeepsData schema ↔
    ∀ place keyword v, DataAt dataKeywords schema place keyword v → Stays schema place →
      BareData true v := by
  have hkeywords : ∀ keyword ∈ dataKeywords, isExtension true keyword = false ∧
      schemaNameMap keyword = false := by decide
  refine forall₅_congr fun place keyword v hdata hstays => ?_
  obtain ⟨hkept, hnames⟩ := hkeywords keyword hdata.listed
  rw [← stripValue_eq_self_iff]
  constructor
  · rintro ⟨place', hwraps, hfound⟩
    obtain ⟨leaf', hleaf', hv⟩ := descend_keyword.mp hfound
    rw [← stripExtensions_of_descend hwraps.reaches hleaf', ofJson?_stripped leaf' hkept, hnames] at hv
    obtain ⟨v', hv', heq⟩ := Option.map_eq_some_iff.mp hv
    rw [← heq]
    exact stripValue_idem false true v'
  · intro hbare
    obtain ⟨leaf, hleaf, hv⟩ := descend_keyword.mp hdata.found
    have hobject := Json.isObject_of_ofJson? hv
    have hstripped := (stripExtensions_actsAt true).descend hdata.position hleaf hobject
    obtain ⟨place', leaf', hwraps, hleaf', himage⟩ := exists_image (hstays.stripped hleaf hobject)
      hstripped ((isObject_stripExtensions leaf false true).trans hobject)
    refine ⟨place', hwraps, descend_keyword.mpr ⟨leaf', hleaf', ?_⟩⟩
    rw [himage.ofJson?_data hdata.listed, ofJson?_stripped leaf hkept, hv, hnames, Option.map_some, hbare]

end Apcore
