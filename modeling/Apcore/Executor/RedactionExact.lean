import Apcore.Executor.RedactionWalk
import Apcore.Executor.SchemaIndex

/-! # `Executor.RedactionExact` — what redaction gets exactly right

Redaction always ends, and doing it again changes nothing. It reads the references and the item
keywords of the schemas that are listed as the document does. A part of the document that is no
listed schema, which a pointer may name all the same, is read as if it stood alone: its references
lead nowhere, and its items are those of an older draft. -/

namespace Apcore

namespace SchemaRedaction

open Fuel (Enough)

variable {referencing : Referencing} {root : Json}

/-! ## Places of the schemas listed -/

/-- A listed schema is a part of the document. -/
theorem isSome_of_mem_subschemas {schema : Json} {place : Place} {parentBase : String}
    {parentDraft : Draft} {entry : SchemaEntry}
    (h : entry ∈ subschemas referencing schema place parentBase parentDraft) :
    ∃ rest, entry.place = place ++ rest ∧ (schema.descend rest).isSome := by
  induction hsize : sizeOf schema using Nat.strong_induction_on
    generalizing schema place parentBase parentDraft with
  | _ size ih =>
    rw [subschemas_eq] at h
    rcases List.mem_cons.mp h with rfl | h
    · exact ⟨[], (List.append_nil _).symm, rfl⟩
    · obtain ⟨child, hchild, h⟩ := List.mem_flatMap.mp h
      have hproper := (referencing.subresources_proper _ _ _ hchild).1
      unfold subschemasAt at h
      cases hsub : schema.descend child with
      | none =>
        rw [hsub] at h
        cases h
      | some sub =>
        rw [hsub] at h
        obtain ⟨rest, hplace, hrest⟩ :=
          ih _ (hsize ▸ Json.sizeOf_descend_lt hproper hsub) h rfl
        refine ⟨child ++ rest, by rw [hplace, List.append_assoc], ?_⟩
        rw [Json.descend_append, hsub]
        exact hrest

theorem isSome_of_mem_documentSchemas {entry : SchemaEntry}
    (h : entry ∈ documentSchemas referencing root) : (root.descend entry.place).isSome := by
  obtain ⟨rest, hplace, hrest⟩ := isSome_of_mem_subschemas h
  rw [hplace]
  exact hrest

theorem isSome_of_resourceNamed {name : String} {place : Place}
    (h : resourceNamed (documentSchemas referencing root) name = some place) :
    (root.descend place).isSome := by
  unfold resourceNamed at h
  rcases Option.or_eq_some_iff.mp h with h | ⟨-, h⟩
  · obtain ⟨entry, hfind, rfl⟩ := Option.map_eq_some_iff.mp h
    exact isSome_of_mem_documentSchemas (List.mem_reverse.mp (List.mem_of_find?_eq_some hfind))
  · split_ifs at h
    obtain rfl := Option.some.inj h
    rfl

theorem isSome_of_anchorNamed {name : String} {place : Place}
    (h : anchorNamed (documentSchemas referencing root) name = some place) :
    (root.descend place).isSome := by
  obtain ⟨entry, hfind, rfl⟩ := Option.map_eq_some_iff.mp h
  exact isSome_of_mem_documentSchemas (List.mem_reverse.mp (List.mem_of_find?_eq_some hfind))

/-- A reference names a part of the document. -/
theorem isSome_of_resolveFrom {base reference : String} {target : Place}
    (h : resolveFrom referencing root (resourceNamed (documentSchemas referencing root))
      (anchorNamed (documentSchemas referencing root)) base reference = some target) :
    (root.descend target).isSome := by
  unfold resolveFrom at h
  obtain ⟨resolved, -, h⟩ := Option.bind_eq_some_iff.mp h
  obtain ⟨start, hstart, h⟩ := Option.bind_eq_some_iff.mp h
  obtain ⟨fragment, -, h⟩ := Option.bind_eq_some_iff.mp h
  split_ifs at h
  · obtain rfl := Option.some.inj h
    exact isSome_of_resourceNamed hstart
  · obtain ⟨tokens, -, h⟩ := Option.bind_eq_some_iff.mp h
    obtain ⟨document, hdocument, h⟩ := Option.bind_eq_some_iff.mp h
    obtain ⟨place, hplace, h⟩ := Option.bind_eq_some_iff.mp h
    obtain rfl := Option.some.inj h
    obtain ⟨hdescend, hsome⟩ := Json.descend_locate hplace
    rw [Json.descend_append, hdocument]
    show (document.descend place).isSome
    rw [hdescend]
    exact hsome
  · exact isSome_of_anchorNamed h

/-- The code's references lead to parts of the document. -/
theorem listedReading_valid : (listedReading referencing root).Valid root := by
  intro place reference target h
  obtain ⟨entry, -, h⟩ := Option.bind_eq_some_iff.mp h
  exact isSome_of_resolveFrom h

/-! ## What the code masks -/

/-- The parts of a value that a sensitive schema governs, an object that is the whole value left
aside. -/
def sensitiveParts (root : Json) (reading : Reading) (value : Json) : Marked := fun path =>
  (value.isObject = true → path ≠ []) ∧ Governed root reading [] path

/-- Redaction of a value with parts already masked. -/
theorem redact_mask {marked : Marked} {value : Json}
    (hroot : (mask redactedValue marked value).isObject = value.isObject) :
    Enough fun fuel => redact referencing fuel (mask redactedValue marked value) root =
      some (mask redactedValue
        (marked.or (sensitiveParts root (listedReading referencing root) value)) value) := by
  have hvalid : (listedReading referencing root).Valid root := listedReading_valid
  have hnew : Enough fun fuel => LocalSchemas.new referencing fuel root = _ := new_eq root
  have hloop := redactLoop_eq_mask hvalid value value.isObject marked []
    (by rfl : (root.descend []).isSome)
  refine (hloop.and hnew).mono fun fuel hfuel => ?_
  obtain ⟨hloop, hnew⟩ := hfuel
  unfold redact
  rw [hnew, hroot]
  show redactLoop root ((indexOf (documentSchemas referencing root)).reading referencing root) fuel
    value.isObject [[]] [] _ = _
  rw [reading_indexOf]
  exact hloop

theorem mask_none (text : String) (value : Json) : mask text (fun _ => False) value = value :=
  mask_of_forall_not fun _ _ _ h => h

/-- Redaction ends, and it is a mask. -/
theorem redact_eq (value : Json) : Enough fun fuel => redact referencing fuel value root =
    some (mask redactedValue (sensitiveParts root (listedReading referencing root) value) value) := by
  have hkept : (mask redactedValue (fun _ => False) value).isObject = value.isObject := by
    rw [mask_none]
  have hredact : Enough fun fuel => redact referencing fuel _ root = _ := redact_mask hkept
  have hor : Marked.or (fun _ => False) (sensitiveParts root (listedReading referencing root) value) =
      sensitiveParts root (listedReading referencing root) value := by
    funext path
    exact false_or _
  rw [mask_none, hor] at hredact
  exact hredact

/-- An object stays an object. -/
theorem isObject_mask_sensitiveParts (reading : Reading) (value : Json) :
    (mask redactedValue (sensitiveParts root reading value) value).isObject = value.isObject := by
  by_cases hmarked : sensitiveParts root reading value []
  · have hobject : value.isObject = false := by
      cases hobject : value.isObject with
      | true => exact absurd rfl (hmarked.1 hobject)
      | false => rfl
    by_cases hnull : value = .null
    · subst hnull
      rfl
    · rw [mask_of_marked hmarked hnull, hobject]
      rfl
  · exact isObject_mask_of_not_marked hmarked value

/-- Redacting again changes nothing. -/
theorem redact_again (value : Json) :
    Enough fun fuel => redact referencing fuel
      (mask redactedValue (sensitiveParts root (listedReading referencing root) value) value) root =
      some (mask redactedValue
        (sensitiveParts root (listedReading referencing root) value) value) := by
  have hkept : (mask redactedValue
      (sensitiveParts root (listedReading referencing root) value) value).isObject =
      value.isObject := isObject_mask_sensitiveParts (listedReading referencing root) value
  have hagain : Enough fun fuel => redact referencing fuel _ root = _ := redact_mask hkept
  have hor : (sensitiveParts root (listedReading referencing root) value).or
      (sensitiveParts root (listedReading referencing root) value) =
      sensitiveParts root (listedReading referencing root) value := by
    funext path
    exact or_self _
  rw [hor] at hagain
  exact hagain

/-! ## What exactness takes -/

variable (referencing)

/-- Redaction ends, it replaces the parts that a sensitive schema of the document governs and nothing
else, and doing it again changes nothing. -/
def RedactsExactly (schema data : Json) : Prop :=
  ∃ result, (Enough fun fuel => redact referencing fuel data schema = some result) ∧
    result = mask redactedValue (sensitiveParts schema (documentReading referencing schema) data) data ∧
    (Enough fun fuel => redact referencing fuel result schema = some result)

/-- No part of the data is governed by a sensitive schema in the one reading and not in the other,
`null`, the sentinel itself and what is below a sensitive part left aside. -/
def ReadAlike (schema data : Json) : Prop :=
  (sensitiveParts schema (documentReading referencing schema) data).AgreeOn redactedValue
    (sensitiveParts schema (listedReading referencing schema) data) data

/-! ## Exactness -/

/-- Redaction is exact where it makes no difference that only the schemas listed have a base and a
draft. -/
theorem redactsExactly_iff_readAlike (schema data : Json) :
    RedactsExactly referencing schema data ↔ ReadAlike referencing schema data := by
  unfold ReadAlike
  rw [← mask_eq_mask_iff]
  constructor
  · rintro ⟨result, hredact, hresult, -⟩
    rw [← hresult]
    exact hredact.unique (redact_eq data)
  · intro h
    exact ⟨_, redact_eq data, h.symm, redact_again data⟩

/-! ## A schema that is not exact -/

/-- A reference to a pointer names the place the pointer leads to. -/
theorem resolveFrom_pointer {referencing : Referencing} {root document : Json}
    {resources anchors : String → Option Place} {base reference : String}
    (resolved resource encoded fragment : String) (tokens : List String) {start place : Place}
    (hresolved : referencing.resolveUri reference base = some resolved)
    (hsplit : splitFragment resolved = (resource, encoded)) (hstart : resources resource = some start)
    (hfragment : decodeFragment encoded = some fragment) (hslash : fragment.toList.head? = some '/')
    (htokens : pointerTokens fragment = some tokens) (hdocument : root.descend start = some document)
    (hplace : document.locate tokens = some place) :
    resolveFrom referencing root resources anchors base reference = some (start ++ place) := by
  have hempty : fragment ≠ "" := by
    rintro rfl
    cases hslash
  unfold resolveFrom
  simp [hresolved, hsplit, hstart, hfragment, hempty, hslash, htokens, hdocument, hplace]

/-- The schemas under a keyword that holds named ones. -/
def namedUnder (schema : Json) (keyword : String) : List Place :=
  match Fields.ofJson? schema keyword with
  | some (.object fields) => fields.map fun entry => [.key keyword, .key entry.1]
  | _ => []

theorem isSome_of_mem_namedUnder {schema : Json} {keyword : String} {place : Place}
    (h : place ∈ namedUnder schema keyword) : place ≠ [] ∧ (schema.descend place).isSome := by
  unfold namedUnder at h
  split at h
  · next fields hfields =>
    obtain ⟨entry, hentry, rfl⟩ := List.mem_map.mp h
    refine ⟨by simp, ?_⟩
    rw [Json.descend_cons]
    have hselect : schema.select (.key keyword) = some (.object fields) := hfields
    rw [hselect]
    show (((fields.find? (·.1 == entry.1)).map (·.2)).bind fun child => some child).isSome
    have hfound : (fields.find? (·.1 == entry.1)).isSome :=
      List.find?_isSome.mpr ⟨entry, hentry, by simp⟩
    obtain ⟨found, hfound⟩ := Option.isSome_iff_exists.mp hfound
    rw [hfound]
    rfl
  · cases h

/-- Documents whose schemas are in `properties` and `$defs`, with references to fragments. -/
def fragmentReferencing : Referencing where
  detect := fun draft _ => some draft
  subresources := fun _ schema => ["$defs", "properties"].flatMap (namedUnder schema)
  subresources_proper := by
    intro _ schema place h
    obtain ⟨keyword, -, h⟩ := List.mem_flatMap.mp h
    exact isSome_of_mem_namedUnder h
  resolveUri := fun reference base =>
    if reference.toList.head? = some '#' then some ((splitFragment base).1 ++ reference) else none

/-- A schema that is the second name of another. -/
def aliasedSchema : Json := .object [
  ("$ref", .string "#/components/Token"),
  ("components", .object [
    ("Token", .object [("$ref", .string "#/components/Secret")]),
    ("Secret", .object [("x-sensitive", .bool true)])])]

def aliasedData : Json := .string "s3cr3t"

/-- The components are no listed schemas. -/
theorem documentSchemas_aliasedSchema :
    documentSchemas fragmentReferencing aliasedSchema =
      [⟨[], .draft202012, localRootUri, none, []⟩] := by
  unfold documentSchemas
  rw [subschemas_eq]
  rfl

section

variable {owner : Place → Option SchemaEntry} {place : Place}

/-- What the references name in a schema that has the base of the document. -/
theorem resolve_token (howner : (owner place).map (·.resource) = some localRootUri) :
    (readingBy fragmentReferencing aliasedSchema owner).resolve place "#/components/Token" =
      some [.key "components", .key "Token"] := by
  obtain ⟨entry, hentry, hbase⟩ := Option.map_eq_some_iff.mp howner
  show (owner place).bind _ = _
  rw [hentry]
  show resolveFrom _ _ _ _ entry.resource _ = some ([] ++ [Selector.key "components", .key "Token"])
  rw [hbase, documentSchemas_aliasedSchema]
  exact resolveFrom_pointer "apcore://local/redaction-root#/components/Token" localRootUri
    "/components/Token" "/components/Token" ["components", "Token"] rfl rfl rfl rfl rfl rfl rfl rfl

theorem resolve_secret (howner : (owner place).map (·.resource) = some localRootUri) :
    (readingBy fragmentReferencing aliasedSchema owner).resolve place "#/components/Secret" =
      some [.key "components", .key "Secret"] := by
  obtain ⟨entry, hentry, hbase⟩ := Option.map_eq_some_iff.mp howner
  show (owner place).bind _ = _
  rw [hentry]
  show resolveFrom _ _ _ _ entry.resource _ = some ([] ++ [Selector.key "components", .key "Secret"])
  rw [hbase, documentSchemas_aliasedSchema]
  exact resolveFrom_pointer "apcore://local/redaction-root#/components/Secret" localRootUri
    "/components/Secret" "/components/Secret" ["components", "Secret"] rfl rfl rfl rfl rfl rfl rfl rfl

end

/-- The document makes the data sensitive. -/
theorem sensitive_aliasedData :
    sensitiveParts aliasedSchema (documentReading fragmentReferencing aliasedSchema) aliasedData [] := by
  have htoken : (documentReading fragmentReferencing aliasedSchema).resolve [] "#/components/Token" =
      some [.key "components", .key "Token"] := by
    refine resolve_token ?_
    rw [documentSchemas_aliasedSchema]
    rfl
  have hsecret : (documentReading fragmentReferencing aliasedSchema).resolve
      [.key "components", .key "Token"] "#/components/Secret" =
        some [.key "components", .key "Secret"] := by
    refine resolve_secret ?_
    rw [documentSchemas_aliasedSchema]
    rfl
  have hvalue : aliasedData.isObject = true → ([] : Place) ≠ [] := by
    intro h
    cases h
  refine ⟨hvalue, [.key "components", .key "Secret"], ?_, rfl⟩
  exact (Governs.start.branch (mem_branches_of_ref rfl htoken)).branch (mem_branches_of_ref rfl hsecret)

/-- The code does not follow the reference of the component. -/
theorem not_sensitive_aliasedData :
    ¬ sensitiveParts aliasedSchema (listedReading fragmentReferencing aliasedSchema) aliasedData [] := by
  rintro ⟨-, schema, hgoverns, hsensitive⟩
  have htoken : branches aliasedSchema (listedReading fragmentReferencing aliasedSchema) [] =
      [[.key "components", .key "Token"]] := by
    have hresolve : (listedReading fragmentReferencing aliasedSchema).resolve [] "#/components/Token" =
        some [.key "components", .key "Token"] := by
      refine resolve_token ?_
      rw [documentSchemas_aliasedSchema]
      rfl
    show ((listedReading fragmentReferencing aliasedSchema).resolve [] "#/components/Token").toList ++
      [] = _
    rw [hresolve]
    rfl
  have hnone : branches aliasedSchema (listedReading fragmentReferencing aliasedSchema)
      [.key "components", .key "Token"] = [] := by
    show ((entryAt (documentSchemas fragmentReferencing aliasedSchema)
      [.key "components", .key "Token"]).bind _).toList ++ [] = _
    rw [documentSchemas_aliasedSchema]
    rfl
  have hreached : schema = [] ∨ schema = [.key "components", .key "Token"] := by
    have hreach := governs_nil_iff.mp hgoverns
    clear hgoverns hsensitive
    induction hreach with
    | refl => exact .inl rfl
    | tail _ hmem ih =>
      rcases ih with rfl | rfl
      · rw [htoken] at hmem
        exact .inr (List.mem_singleton.mp hmem)
      · rw [hnone] at hmem
        cases hmem
  rcases hreached with rfl | rfl <;> cases hsensitive

/-- So it leaves them as they are. -/
theorem not_redactsExactly_aliasedSchema :
    ¬ RedactsExactly fragmentReferencing aliasedSchema aliasedData := by
  rintro ⟨result, hredact, hresult, -⟩
  have hsensitive : mask redactedValue _ aliasedData = .string redactedValue :=
    mask_of_marked sensitive_aliasedData (by simp [aliasedData])
  rw [hredact.unique (redact_eq aliasedData), hsensitive] at hresult
  exact mask_ne_text not_sensitive_aliasedData (by simp [aliasedData, redactedValue]) hresult

end SchemaRedaction

end Apcore
