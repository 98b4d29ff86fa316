import Apcore.Executor.RedactionExact
import Apcore.Observability.Redaction

/-! # `Executor.LogRedaction` — what is left in a log

What is logged or captured has gone through three rules: what a sensitive schema governs is masked, then
what is under a key with the `_secret_` prefix, and last the configured rules are applied. The
correlation fields are exempt from the configured rules themselves, and what is below them is not. -/

namespace Apcore

open SchemaRedaction (redactedValue sensitiveParts listedReading)
open RedactionConfig (isProtected)
open Fuel (Enough)

/-! ## The prefix rule -/

/-- The key has the prefix `_secret_`. -/
def isSecretKey (key : String) : Bool := "_secret_".toList.isPrefixOf key.toList

mutual

/-- A value under a key without the prefix, or in a list. -/
def redactSecretBelow : Json → Json
  | .object fields => .object (redactSecretPrefix fields)
  | .array items => .array (redactSecretPrefixInList items)
  | value => value

/-- `redact_secret_prefix`. -/
def redactSecretPrefix : List (String × Json) → List (String × Json)
  | [] => []
  | (key, value) :: rest =>
    (key,
      if isSecretKey key then if value.isNull then value else .string redactedValue
      else redactSecretBelow value) :: redactSecretPrefix rest

/-- `redact_secret_prefix_in_list`. -/
def redactSecretPrefixInList : List Json → List Json
  | [] => []
  | item :: rest => redactSecretBelow item :: redactSecretPrefixInList rest

end

/-- `redact_sensitive_with`. -/
def redactSensitiveWith (referencing : Referencing) (lower : String → String) (fuel : Nat)
    (data schema : Json) (rules : Option RedactionConfig) : Option Json :=
  (SchemaRedaction.redact referencing fuel data schema).map fun redacted =>
    (rules.getD (.defaults lower)).redact lower (redactSecretBelow redacted)

/-- `loggable_value`, of what was captured and the raw value. -/
def loggableValue (referencing : Referencing) (lower : String → String) (fuel : Nat)
    (captured : Option (List (String × Json))) (raw : Json) (rules : Option RedactionConfig) :
    Option Json :=
  match captured with
  | some map => some (.object map)
  | none => redactSensitiveWith referencing lower fuel raw .null rules

theorem redactSecretPrefix_eq_map (fields : List (String × Json)) :
    redactSecretPrefix fields = fields.map fun entry =>
      (entry.1,
        if isSecretKey entry.1 then if entry.2.isNull then entry.2 else .string redactedValue
        else redactSecretBelow entry.2) := by
  induction fields with
  | nil => rfl
  | cons entry rest ih => rw [redactSecretPrefix, ih, List.map_cons]

theorem redactSecretPrefixInList_eq_map (items : List Json) :
    redactSecretPrefixInList items = items.map redactSecretBelow := by
  induction items with
  | nil => rfl
  | cons item rest ih => rw [redactSecretPrefixInList, ih, List.map_cons]

/-! ## Both rules at once -/

section Clean

variable (lower : String → String) (cfg : RedactionConfig)

/-- The prefix rule, on a value that is bound to a field or to none. -/
def redactSecretAt (name : Option String) (value : Json) : Json :=
  if name.any isSecretKey then if value.isNull then value else .string redactedValue
  else redactSecretBelow value

/-- The prefix rule and then the configured ones. -/
def cleanAt (name : Option String) (value : Json) : Json :=
  cfg.redactInner lower name (redactSecretAt name value)

/-- What becomes of the sentinel that the prefix rule or a schema has put there. -/
def cleanSentinel (name : Option String) : Json := cfg.redactInner lower name (.string redactedValue)

variable {lower cfg} {name : Option String} {value : Json}

theorem cleanAt_of_hidesField (h : cfg.hidesField lower name = true) :
    cleanAt lower cfg name value = .string cfg.replacement :=
  RedactionConfig.redactInner_of_hidesField h _

theorem cleanAt_of_isSecretKey (h : name.any isSecretKey = true) (hnull : value ≠ .null) :
    cleanAt lower cfg name value = cleanSentinel lower cfg name := by
  rw [cleanAt, redactSecretAt, if_pos h, Json.isNull_eq_false hnull]
  rfl

theorem cleanAt_null (h : cfg.hidesField lower name = false) : cleanAt lower cfg name .null = .null := by
  have hprefix : redactSecretAt name .null = .null := by
    rw [redactSecretAt]
    cases name.any isSecretKey <;> rfl
  rw [cleanAt, hprefix]
  exact if_neg (Bool.not_eq_true _ ▸ h)

/-- The sentinel stays, or is replaced. -/
theorem cleanSentinel_cases (lower : String → String) (cfg : RedactionConfig) (name : Option String) :
    cleanSentinel lower cfg name = .string redactedValue ∨
      cleanSentinel lower cfg name = .string cfg.replacement := by
  rw [cleanSentinel, RedactionConfig.redactInner]
  split_ifs
  · exact .inr rfl
  · exact .inr rfl
  · exact .inl rfl

theorem cleanSentinel_ne_null : cleanSentinel lower cfg name ≠ .null := by
  rcases cleanSentinel_cases lower cfg name with h | h <;> rw [h] <;> exact nofun

/-- A string that no rule of its key applies to. -/
theorem cleanAt_string (hhides : cfg.hidesField lower name = false)
    (hsecret : name.any isSecretKey = false) (s : String) :
    cleanAt lower cfg name (.string s) =
      if !isProtected name && cfg.valueMatches s then .string cfg.replacement else .string s := by
  rw [cleanAt, redactSecretAt, hsecret]
  exact if_neg (Bool.not_eq_true _ ▸ hhides)

theorem cleanAt_array (hhides : cfg.hidesField lower name = false)
    (hsecret : name.any isSecretKey = false) (items : List Json) :
    cleanAt lower cfg name (.array items) = .array (items.map (cleanAt lower cfg none)) := by
  have hprefix : redactSecretAt name (.array items) = .array (redactSecretPrefixInList items) := by
    rw [redactSecretAt, hsecret]
    rfl
  rw [cleanAt, hprefix, RedactionConfig.redactInner, hhides,
    RedactionConfig.redactItems_eq_map, redactSecretPrefixInList_eq_map, List.map_map]
  rfl

theorem cleanAt_object (hhides : cfg.hidesField lower name = false)
    (hsecret : name.any isSecretKey = false) (fields : List (String × Json)) :
    cleanAt lower cfg name (.object fields) =
      .object (fields.map fun entry => (entry.1, cleanAt lower cfg (some entry.1) entry.2)) := by
  have hprefix : redactSecretAt name (.object fields) = .object (redactSecretPrefix fields) := by
    rw [redactSecretAt, hsecret]
    rfl
  rw [cleanAt, hprefix, RedactionConfig.redactInner, hhides,
    RedactionConfig.redactObject_eq_map, redactSecretPrefix_eq_map, List.map_map]
  rfl

theorem cleanAt_bool (hhides : cfg.hidesField lower name = false)
    (hsecret : name.any isSecretKey = false) (b : Bool) : cleanAt lower cfg name (.bool b) = .bool b := by
  rw [cleanAt, redactSecretAt, hsecret]
  exact if_neg (Bool.not_eq_true _ ▸ hhides)

theorem cleanAt_number (hhides : cfg.hidesField lower name = false)
    (hsecret : name.any isSecretKey = false) (n : Number) :
    cleanAt lower cfg name (.number n) = .number n := by
  rw [cleanAt, redactSecretAt, hsecret]
  exact if_neg (Bool.not_eq_true _ ▸ hhides)

/-! ## The parts of what is left -/

/-- The field that the part at a place is bound to. -/
def boundTo : Option String → Place → Option String
  | name, [] => name
  | _, .key key :: place => boundTo (some key) place
  | _, .index _ :: place => boundTo none place

/-- An object or an array is made of what is left of its parts, and nothing else becomes one. -/
theorem cleanAt_cases (lower : String → String) (cfg : RedactionConfig) (name : Option String)
    (value : Json) :
    (∃ items, value = .array items ∧
        cleanAt lower cfg name value = .array (items.map (cleanAt lower cfg none))) ∨
      (∃ fields, value = .object fields ∧ cleanAt lower cfg name value =
        .object (fields.map fun entry => (entry.1, cleanAt lower cfg (some entry.1) entry.2))) ∨
      (∀ items, cleanAt lower cfg name value ≠ .array items) ∧
        ∀ fields, cleanAt lower cfg name value ≠ .object fields := by
  have htext {v : Json} {s : String} (hv : v = .string s) :
      (∀ items, v ≠ .array items) ∧ ∀ fields, v ≠ .object fields := by
    rw [hv]
    exact ⟨nofun, nofun⟩
  by_cases hhides : cfg.hidesField lower name = true
  · exact .inr (.inr (htext (cleanAt_of_hidesField hhides)))
  replace hhides : cfg.hidesField lower name = false := by simpa using hhides
  by_cases hnull : value = .null
  · rw [hnull, cleanAt_null hhides]
    exact .inr (.inr ⟨nofun, nofun⟩)
  by_cases hsecret : name.any isSecretKey = true
  · rw [cleanAt_of_isSecretKey hsecret hnull]
    exact .inr (.inr ((cleanSentinel_cases lower cfg name).elim htext htext))
  replace hsecret : name.any isSecretKey = false := by simpa using hsecret
  cases value with
  | null => exact absurd rfl hnull
  | bool b =>
    rw [cleanAt_bool hhides hsecret]
    exact .inr (.inr ⟨nofun, nofun⟩)
  | number n =>
    rw [cleanAt_number hhides hsecret]
    exact .inr (.inr ⟨nofun, nofun⟩)
  | string s =>
    rw [cleanAt_string hhides hsecret]
    split_ifs <;> exact .inr (.inr ⟨nofun, nofun⟩)
  | array items => exact .inl ⟨items, rfl, cleanAt_array hhides hsecret items⟩
  | object fields => exact .inr (.inl ⟨fields, rfl, cleanAt_object hhides hsecret fields⟩)

/-- **Every part of what is left is what is left of some value that was bound to the same field.** By
induction on the place. -/
theorem exists_of_hasPart {place : Place} {part : Json}
    (h : (cleanAt lower cfg name value).HasPart place part) :
    ∃ old, part = cleanAt lower cfg (boundTo name place) old := by
  induction place generalizing name value with
  | nil => exact ⟨value, h⟩
  | cons s place ih =>
    cases s with
    | key key =>
      obtain ⟨fields, hfields, entry, hentry, rfl, hrest⟩ := h
      rcases cleanAt_cases lower cfg name value with
        ⟨items, -, heq⟩ | ⟨entries, -, heq⟩ | ⟨-, hnot⟩
      · cases heq.symm.trans hfields
      · obtain rfl := Json.object.inj (heq.symm.trans hfields)
        obtain ⟨old, -, rfl⟩ := List.mem_map.mp hentry
        exact ih hrest
      · exact absurd hfields (hnot fields)
    | index i =>
      obtain ⟨elems, helems, child, hchild, hrest⟩ := h
      rcases cleanAt_cases lower cfg name value with
        ⟨items, -, heq⟩ | ⟨entries, -, heq⟩ | ⟨hnot, -⟩
      · obtain rfl := Json.array.inj (heq.symm.trans helems)
        rw [List.getElem?_map] at hchild
        obtain ⟨old, -, rfl⟩ := Option.map_eq_some_iff.mp hchild
        exact ih hrest
      · cases heq.symm.trans helems
      · exact absurd helems (hnot elems)

/-- What is left under a secret key. -/
theorem cleanAt_secret (h : name.any isSecretKey = true) :
    cleanAt lower cfg name value = .null ∨ cleanAt lower cfg name value = .string redactedValue ∨
      cleanAt lower cfg name value = .string cfg.replacement := by
  by_cases hhides : cfg.hidesField lower name = true
  · exact .inr (.inr (cleanAt_of_hidesField hhides))
  · by_cases hnull : value = .null
    · rw [hnull]
      exact .inl (cleanAt_null (by simpa using hhides))
    · rw [cleanAt_of_isSecretKey h hnull]
      exact .inr (cleanSentinel_cases lower cfg name)

/-- No string is left that a value pattern matches, the replacement aside. -/
theorem cleanAt_valueMatches {s : String} (h : cleanAt lower cfg name value = .string s)
    (hprotected : isProtected name = false) (hmatches : cfg.valueMatches s = true) :
    s = cfg.replacement := by
  have hinner {v : Json} (hv : cfg.redactInner lower name v = .string s) : s = cfg.replacement := by
    cases v with
    | string t =>
      rw [RedactionConfig.redactInner, hprotected] at hv
      split_ifs at hv with hhides hvalue
      · exact (Json.string.inj hv).symm
      · exact (Json.string.inj hv).symm
      · rw [Json.string.inj hv] at hvalue
        exact absurd hmatches hvalue
    | _ =>
      have hv : (if cfg.hidesField lower name then Json.string cfg.replacement else _) = .string s := hv
      split_ifs at hv
      exact (Json.string.inj hv).symm
  exact hinner h

end Clean

/-! ## What becomes of a value -/

/-- A rule applies to the value. A field that is never redacted has the first two only. -/
def Ruled (lower : String → String) (cfg : RedactionConfig) (marked : Marked) (name : Option String)
    (value : Json) : Prop :=
  value ≠ .null ∧ (marked [] ∨ name.any isSecretKey = true) ∨
    isProtected name = false ∧
      (name.any (cfg.fieldMatches lower) = true ∨
        ∃ s, value = .string s ∧ cfg.valueMatches s = true)

/-- What a value becomes: a part that a rule applies to is the sentinel or the replacement, and of the
others the keys, the lengths and the scalars are kept. -/
inductive Cleaned (lower : String → String) (cfg : RedactionConfig) :
    Marked → Option String → Json → Json → Prop
  | ruled {marked : Marked} {name : Option String} {value result : Json}
      (rule : Ruled lower cfg marked name value)
      (replaced : result = .string redactedValue ∨ result = .string cfg.replacement) :
      Cleaned lower cfg marked name value result
  | scalar {marked : Marked} {name : Option String} {value : Json}
      (free : ¬ Ruled lower cfg marked name value)
      (array : ∀ items, value ≠ .array items) (object : ∀ fields, value ≠ .object fields) :
      Cleaned lower cfg marked name value value
  | array {marked : Marked} {name : Option String} {items results : List Json}
      (free : ¬ Ruled lower cfg marked name (.array items))
      (length : results.length = items.length)
      (parts : ∀ i item result, items[i]? = some item → results[i]? = some result →
        Cleaned lower cfg (marked.under (.index i)) none item result) :
      Cleaned lower cfg marked name (.array items) (.array results)
  | object {marked : Marked} {name : Option String} {fields results : List (String × Json)}
      (free : ¬ Ruled lower cfg marked name (.object fields))
      (keys : results.map (·.1) = fields.map (·.1))
      (parts : ∀ (i : ℕ) (field result : String × Json), fields[i]? = some field →
        results[i]? = some result →
          Cleaned lower cfg (marked.under (.key field.1)) (some field.1) field.2 result.2) :
      Cleaned lower cfg marked name (.object fields) (.object results)

variable {lower : String → String} {cfg : RedactionConfig} {marked : Marked} {name : Option String}
  {value : Json}

/-- Where no rule applies, the field is not hidden. -/
theorem hidesField_of_not_ruled (h : ¬ Ruled lower cfg marked name value) :
    cfg.hidesField lower name = false := by
  by_contra hhides
  obtain ⟨hprotected, hmatches⟩ := RedactionConfig.hidesField_iff.mp (Bool.not_eq_false _ ▸ hhides)
  exact h (.inr ⟨hprotected, .inl hmatches⟩)

/-- Where no rule applies, a value other than `null` is neither masked nor under a secret key. -/
theorem unmarked_of_not_ruled (h : ¬ Ruled lower cfg marked name value) (hnull : value ≠ .null) :
    ¬ marked [] ∧ name.any isSecretKey = false := by
  refine ⟨fun hmarked => h (.inl ⟨hnull, .inl hmarked⟩), ?_⟩
  by_contra hsecret
  exact h (.inl ⟨hnull, .inr (Bool.not_eq_false _ ▸ hsecret)⟩)

theorem cleanAt_sentinel :
    cleanAt lower cfg name (.string redactedValue) = cleanSentinel lower cfg name := by
  have hprefix : redactSecretAt name (.string redactedValue) = .string redactedValue := by
    rw [redactSecretAt]
    cases name.any isSecretKey <;> rfl
  rw [cleanAt, hprefix]
  rfl

theorem mask_string_of_not_marked (h : ¬ marked []) (s : String) :
    mask redactedValue marked (.string s) = .string s :=
  mask_scalar_of_not_marked h nofun nofun

/-- Where a schema or the key masks the value, the sentinel goes through the configured rules. -/
theorem cleanAt_mask_of_masked (h : marked [] ∨ name.any isSecretKey = true) (hnull : value ≠ .null) :
    cleanAt lower cfg name (mask redactedValue marked value) = cleanSentinel lower cfg name := by
  by_cases hsecret : name.any isSecretKey = true
  · exact cleanAt_of_isSecretKey hsecret (mt mask_eq_null_iff.mp hnull)
  · rw [mask_of_marked (h.resolve_right hsecret) hnull, cleanAt_sentinel]

/-- Where a value pattern alone applies, the replacement is left. -/
theorem cleanAt_mask_of_valueMatches {s : String} (hmarked : ¬ marked [])
    (hsecret : name.any isSecretKey = false) (hprotected : isProtected name = false)
    (hmatches : cfg.valueMatches s = true) :
    cleanAt lower cfg name (mask redactedValue marked (.string s)) = .string cfg.replacement := by
  rw [mask_string_of_not_marked hmarked]
  by_cases hhides : cfg.hidesField lower name = true
  · exact cleanAt_of_hidesField hhides
  · rw [cleanAt_string (Bool.not_eq_true _ ▸ hhides) hsecret, hprotected, hmatches]
    rfl

/-- Where a rule applies, the sentinel or the replacement is left. -/
theorem cleanAt_mask_of_ruled (h : Ruled lower cfg marked name value) :
    cleanAt lower cfg name (mask redactedValue marked value) = .string redactedValue ∨
      cleanAt lower cfg name (mask redactedValue marked value) = .string cfg.replacement := by
  rcases h with ⟨hnull, hmasked⟩ | ⟨hprotected, hmatches | ⟨s, rfl, hvalue⟩⟩
  · rw [cleanAt_mask_of_masked hmasked hnull]
    exact cleanSentinel_cases lower cfg name
  · exact .inr (cleanAt_of_hidesField (RedactionConfig.hidesField_iff.mpr ⟨hprotected, hmatches⟩))
  · by_cases hmasked : marked [] ∨ name.any isSecretKey = true
    · have hnull : Json.string s ≠ .null := nofun
      rw [cleanAt_mask_of_masked hmasked hnull]
      exact cleanSentinel_cases lower cfg name
    · obtain ⟨hmarked, hsecret⟩ := not_or.mp hmasked
      exact .inr (cleanAt_mask_of_valueMatches hmarked (Bool.not_eq_true _ ▸ hsecret) hprotected hvalue)

/-- Where no rule applies, a scalar is left as it is. -/
theorem cleanAt_mask_scalar (h : ¬ Ruled lower cfg marked name value)
    (harray : ∀ items, value ≠ .array items) (hobject : ∀ fields, value ≠ .object fields) :
    cleanAt lower cfg name (mask redactedValue marked value) = value := by
  have hhides := hidesField_of_not_ruled h
  by_cases hnull : value = .null
  · subst hnull
    rw [mask_eq_null_iff.mpr rfl, cleanAt_null hhides]
  obtain ⟨hmarked, hsecret⟩ := unmarked_of_not_ruled h hnull
  rw [mask_scalar_of_not_marked hmarked harray hobject]
  cases value with
  | null => exact absurd rfl hnull
  | bool b => exact cleanAt_bool hhides hsecret b
  | number n => exact cleanAt_number hhides hsecret n
  | string s =>
    have hvalue : ¬ (!isProtected name && cfg.valueMatches s) = true := by
      intro hvalue
      obtain ⟨hprotected, hmatches⟩ := Bool.and_eq_true_iff.mp hvalue
      exact h (.inr ⟨(Bool.not_eq_true' _).mp hprotected, .inr ⟨s, rfl, hmatches⟩⟩)
    rw [cleanAt_string hhides hsecret, if_neg hvalue]
  | array items => exact absurd rfl (harray items)
  | object fields => exact absurd rfl (hobject fields)

/-- Where no rule applies, the items of an array are left bound to no field. -/
theorem cleanAt_mask_array {items : List Json} (h : ¬ Ruled lower cfg marked name (.array items)) :
    cleanAt lower cfg name (mask redactedValue marked (.array items)) =
      .array (items.mapIdx fun i item =>
        cleanAt lower cfg none (mask redactedValue (marked.under (.index i)) item)) := by
  obtain ⟨hmarked, hsecret⟩ := unmarked_of_not_ruled h nofun
  rw [mask_array_of_not_marked hmarked, cleanAt_array (hidesField_of_not_ruled h) hsecret,
    maskElems_zero]
  refine congrArg Json.array (List.ext_getElem? fun i => ?_)
  rw [List.getElem?_map, List.getElem?_mapIdx, List.getElem?_mapIdx, Option.map_map]
  rfl

/-- Where no rule applies, the fields of an object are left under their keys. -/
theorem cleanAt_mask_object {fields : List (String × Json)}
    (h : ¬ Ruled lower cfg marked name (.object fields)) :
    cleanAt lower cfg name (mask redactedValue marked (.object fields)) =
      .object (fields.map fun entry => (entry.1,
        cleanAt lower cfg (some entry.1)
          (mask redactedValue (marked.under (.key entry.1)) entry.2))) := by
  obtain ⟨hmarked, hsecret⟩ := unmarked_of_not_ruled h nofun
  rw [mask_object_of_not_marked hmarked, cleanAt_object (hidesField_of_not_ruled h) hsecret,
    maskFields_eq_map, List.map_map]
  rfl

theorem cleaned_scalar (harray : ∀ items, value ≠ .array items)
    (hobject : ∀ fields, value ≠ .object fields) :
    Cleaned lower cfg marked name value (cleanAt lower cfg name (mask redactedValue marked value)) := by
  by_cases h : Ruled lower cfg marked name value
  · exact .ruled h (cleanAt_mask_of_ruled h)
  · rw [cleanAt_mask_scalar h harray hobject]
    exact .scalar h harray hobject

/-- **The value is cleaned**: by induction on it, in step with what the schema marks. -/
theorem cleaned_cleanAt_mask (lower : String → String) (cfg : RedactionConfig) (marked : Marked)
    (name : Option String) (value : Json) :
    Cleaned lower cfg marked name value (cleanAt lower cfg name (mask redactedValue marked value)) := by
  induction value using Json.children_induction generalizing marked name with
  | null => exact cleaned_scalar nofun nofun
  | bool b => exact cleaned_scalar nofun nofun
  | number n => exact cleaned_scalar nofun nofun
  | string s => exact cleaned_scalar nofun nofun
  | array items ih =>
    by_cases h : Ruled lower cfg marked name (.array items)
    · exact .ruled h (cleanAt_mask_of_ruled h)
    · rw [cleanAt_mask_array h]
      refine .array h List.length_mapIdx fun i item result hitem hresult => ?_
      rw [List.getElem?_mapIdx, hitem] at hresult
      obtain rfl := Option.some.inj hresult
      exact ih item (List.mem_of_getElem? hitem) _ _
  | object fields ih =>
    by_cases h : Ruled lower cfg marked name (.object fields)
    · exact .ruled h (cleanAt_mask_of_ruled h)
    · rw [cleanAt_mask_object h]
      refine .object h (by rw [List.map_map]; rfl) fun i field result hfield hresult => ?_
      rw [List.getElem?_map, hfield] at hresult
      obtain rfl := Option.some.inj hresult
      exact ih field (List.mem_of_getElem? hfield) _ _

/-! ## Cleaning again -/

/-- What a rule has put there stays. -/
theorem cleanAt_again_of_ruled (h : Ruled lower cfg marked name value) :
    cleanAt lower cfg name (mask redactedValue marked
        (cleanAt lower cfg name (mask redactedValue marked value))) =
      cleanAt lower cfg name (mask redactedValue marked value) := by
  rcases h with ⟨hnull, hmasked⟩ | ⟨hprotected, hmatches | ⟨s, rfl, hvalue⟩⟩
  · rw [cleanAt_mask_of_masked hmasked hnull, cleanAt_mask_of_masked hmasked cleanSentinel_ne_null]
  · have hhides := RedactionConfig.hidesField_iff.mpr ⟨hprotected, hmatches⟩
    rw [cleanAt_of_hidesField hhides, cleanAt_of_hidesField hhides]
  · by_cases hmasked : marked [] ∨ name.any isSecretKey = true
    · have hnull : Json.string s ≠ .null := nofun
      rw [cleanAt_mask_of_masked hmasked hnull, cleanAt_mask_of_masked hmasked cleanSentinel_ne_null]
    · obtain ⟨hmarked, hsecret⟩ := not_or.mp hmasked
      replace hsecret : name.any isSecretKey = false := Bool.not_eq_true _ ▸ hsecret
      rw [cleanAt_mask_of_valueMatches hmarked hsecret hprotected hvalue,
        mask_string_of_not_marked hmarked]
      -- The replacement may itself match a pattern, and is then put there once more.
      by_cases hhides : cfg.hidesField lower name = true
      · exact cleanAt_of_hidesField hhides
      · rw [cleanAt_string (Bool.not_eq_true _ ▸ hhides) hsecret, ite_self]

theorem cleanAt_again_scalar (harray : ∀ items, value ≠ .array items)
    (hobject : ∀ fields, value ≠ .object fields) :
    cleanAt lower cfg name (mask redactedValue marked
        (cleanAt lower cfg name (mask redactedValue marked value))) =
      cleanAt lower cfg name (mask redactedValue marked value) := by
  by_cases h : Ruled lower cfg marked name value
  · exact cleanAt_again_of_ruled h
  · have hleft := cleanAt_mask_scalar h harray hobject
    rw [hleft, hleft]

/-- Which rule applies to an array or an object does not depend on what is in it. -/
theorem ruled_array {items others : List Json} (h : Ruled lower cfg marked name (.array items)) :
    Ruled lower cfg marked name (.array others) := by
  rcases h with ⟨-, hmasked⟩ | ⟨hprotected, hmatches | ⟨s, hs, -⟩⟩
  · exact .inl ⟨nofun, hmasked⟩
  · exact .inr ⟨hprotected, .inl hmatches⟩
  · cases hs

theorem ruled_object {fields others : List (String × Json)}
    (h : Ruled lower cfg marked name (.object fields)) :
    Ruled lower cfg marked name (.object others) := by
  rcases h with ⟨-, hmasked⟩ | ⟨hprotected, hmatches | ⟨s, hs, -⟩⟩
  · exact .inl ⟨nofun, hmasked⟩
  · exact .inr ⟨hprotected, .inl hmatches⟩
  · cases hs

/-- **Cleaning again changes nothing.** -/
theorem cleanAt_again (lower : String → String) (cfg : RedactionConfig) (marked : Marked)
    (name : Option String) (value : Json) :
    cleanAt lower cfg name (mask redactedValue marked
        (cleanAt lower cfg name (mask redactedValue marked value))) =
      cleanAt lower cfg name (mask redactedValue marked value) := by
  induction value using Json.children_induction generalizing marked name with
  | null => exact cleanAt_again_scalar nofun nofun
  | bool b => exact cleanAt_again_scalar nofun nofun
  | number n => exact cleanAt_again_scalar nofun nofun
  | string s => exact cleanAt_again_scalar nofun nofun
  | array items ih =>
    by_cases h : Ruled lower cfg marked name (.array items)
    · exact cleanAt_again_of_ruled h
    · rw [cleanAt_mask_array h, cleanAt_mask_array (mt ruled_array h), List.mapIdx_mapIdx]
      refine congrArg Json.array (List.mapIdx_eq_mapIdx_iff.mpr fun i hi => ?_)
      exact ih _ (List.getElem_mem hi) _ _
  | object fields ih =>
    by_cases h : Ruled lower cfg marked name (.object fields)
    · exact cleanAt_again_of_ruled h
    · rw [cleanAt_mask_object h, cleanAt_mask_object (mt ruled_object h), List.map_map]
      refine congrArg Json.object (List.map_congr_left fun entry hentry => ?_)
      exact congrArg (Prod.mk entry.1) (ih entry hentry _ _)

/-! ## What is logged -/

/-- No value that a rule is for is left in what is logged. -/
structure LeavesNoSecret (lower : String → String) (cfg : RedactionConfig) (result : Json) : Prop where
  /-- What is under a key with the prefix, at any depth. -/
  secrets : ∀ place part key, result.HasPart place part → boundTo none place = some key →
    isSecretKey key = true →
      part = .null ∨ part = .string redactedValue ∨ part = .string cfg.replacement
  /-- What is under a key that the field rules match. -/
  fields : ∀ place part key, result.HasPart place part → boundTo none place = some key →
    key ∉ neverRedactFields → cfg.fieldMatches lower key = true → part = .string cfg.replacement
  /-- Strings that a value pattern matches. -/
  values : ∀ place s, result.HasPart place (.string s) → isProtected (boundTo none place) = false →
    cfg.valueMatches s = true → s = cfg.replacement

theorem leavesNoSecret_cleanAt : LeavesNoSecret lower cfg (cleanAt lower cfg none value) where
  secrets := by
    intro place part key hpart hbound hsecret
    obtain ⟨old, rfl⟩ := exists_of_hasPart hpart
    rw [hbound]
    exact cleanAt_secret hsecret
  fields := by
    intro place part key hpart hbound hkey hmatches
    obtain ⟨old, rfl⟩ := exists_of_hasPart hpart
    rw [hbound]
    exact cleanAt_of_hidesField (RedactionConfig.hidesField_some hkey hmatches)
  values := by
    intro place s hpart hprotected hmatches
    obtain ⟨old, hold⟩ := exists_of_hasPart hpart
    exact cleanAt_valueMatches hold.symm hprotected hmatches

/-- No more is bound to the value that is logged than to none: an object stays an object. -/
theorem isObject_cleanAt_none :
    (cleanAt lower cfg none value).isObject = value.isObject := by
  have hhides : cfg.hidesField lower none = false := rfl
  have hsecret : (none : Option String).any isSecretKey = false := rfl
  cases value with
  | null => rw [cleanAt_null hhides]
  | bool b => rw [cleanAt_bool hhides hsecret]
  | number n => rw [cleanAt_number hhides hsecret]
  | string s =>
    rw [cleanAt_string hhides hsecret]
    split_ifs <;> rfl
  | array items =>
    rw [cleanAt_array hhides hsecret]
    rfl
  | object fields =>
    rw [cleanAt_object hhides hsecret]
    rfl

/-- The three passes, one after the other. -/
theorem redactSensitiveWith_eq (referencing : Referencing) (lower : String → String)
    (data schema : Json) (rules : Option RedactionConfig) :
    Enough fun fuel => redactSensitiveWith referencing lower fuel data schema rules =
      some (cleanAt lower (rules.getD (.defaults lower)) none
        (mask redactedValue (sensitiveParts schema (listedReading referencing schema) data) data)) := by
  have hredact : Enough fun fuel => SchemaRedaction.redact referencing fuel data schema = _ :=
    SchemaRedaction.redact_eq data
  refine hredact.mono fun fuel hfuel => ?_
  rw [redactSensitiveWith, hfuel]
  rfl

/-- **What is logged holds no secret, keeps the shape of the data, and is logged again as it is.** -/
theorem redactSensitiveWith_clean (referencing : Referencing) (lower : String → String)
    (data schema : Json) (rules : Option RedactionConfig) :
    ∃ result,
      (Enough fun fuel =>
        redactSensitiveWith referencing lower fuel data schema rules = some result) ∧
      LeavesNoSecret lower (rules.getD (.defaults lower)) result ∧
      Cleaned lower (rules.getD (.defaults lower))
        (sensitiveParts schema (listedReading referencing schema) data) none data result ∧
      Enough fun fuel =>
        redactSensitiveWith referencing lower fuel result schema rules = some result := by
  let parts := sensitiveParts schema (listedReading referencing schema) data
  let cfg := rules.getD (.defaults lower)
  let result := cleanAt lower cfg none (mask redactedValue parts data)
  have hobject : result.isObject = data.isObject :=
    isObject_cleanAt_none.trans (SchemaRedaction.isObject_mask_sensitiveParts _ data)
  -- The schema governs the same parts of what is left.
  have hparts : sensitiveParts schema (listedReading referencing schema) result = parts := by
    funext path
    show ((result.isObject = true → path ≠ []) ∧ _) = ((data.isObject = true → path ≠ []) ∧ _)
    rw [hobject]
  have hagain : Enough fun fuel =>
      redactSensitiveWith referencing lower fuel result schema rules = some result := by
    have hredact := redactSensitiveWith_eq referencing lower result schema rules
    rwa [hparts, cleanAt_again] at hredact
  exact ⟨result, redactSensitiveWith_eq referencing lower data schema rules, leavesNoSecret_cleanAt,
    cleaned_cleanAt_mask _ _ _ _ _, hagain⟩

/-! ## Without a schema -/

/-- `null`, which stands for no schema, governs nothing. -/
theorem not_sensitiveParts_null (reading : SchemaRedaction.Reading) (data : Json) (path : Place) :
    ¬ sensitiveParts .null reading data path := by
  rintro ⟨-, schema, -, hsensitive⟩
  have hnull : SchemaRedaction.schemaAt .null schema = .null := by
    cases schema with
    | nil => rfl
    | cons s schema =>
      rw [SchemaRedaction.schemaAt, Json.descend_cons]
      cases s <;> rfl
  rw [SchemaRedaction.isSensitive, hnull] at hsensitive
  cases hsensitive

/-- Without a schema, the prefix rule and the configured ones are all. -/
theorem redactSensitiveWith_null (referencing : Referencing) (lower : String → String) (data : Json)
    (rules : Option RedactionConfig) :
    Enough fun fuel => redactSensitiveWith referencing lower fuel data .null rules =
      some (cleanAt lower (rules.getD (.defaults lower)) none data) := by
  have hredact := redactSensitiveWith_eq referencing lower data .null rules
  rwa [mask_of_forall_not fun path _ _ => not_sensitiveParts_null _ data path] at hredact

/-! ## The correlation fields -/

/-- A correlation field that is a container, and one that holds what a value pattern matches. -/
def correlatedData : Json := .object [
  ("caller_id", .string "hunter2"),
  ("trace_id", .object [("password", .string "hunter2")])]

def correlatedRules : RedactionConfig where
  fieldPatterns := []
  fieldSubstrings := ["password"]
  valuePatterns := [(· = "hunter2")]
  replacement := "***REDACTED***"

/-- The string stays, since its field is exempt; what is below the container goes, since its own field
is not. -/
theorem correlated_redacted : ∃ result,
    (Enough fun fuel => redactSensitiveWith SchemaRedaction.fragmentReferencing id fuel correlatedData
      .null (some correlatedRules) = some result) ∧
    (¬ ∀ place s, result.HasPart place (.string s) → correlatedRules.valueMatches s = true →
      s = correlatedRules.replacement) ∧
    ¬ ∀ place part, isProtected (boundTo none place) = true → correlatedData.HasPart place part →
      result.HasPart place part := by
  have hresult : cleanAt id correlatedRules none correlatedData = .object [
      ("caller_id", .string "hunter2"),
      ("trace_id", .object [("password", .string "***REDACTED***")])] := by
    rfl
  refine ⟨_, redactSensitiveWith_null _ _ correlatedData (some correlatedRules), ?_, ?_⟩
  · intro hvalues
    have hpart : (cleanAt id correlatedRules none correlatedData).HasPart [.key "caller_id"]
        (.string "hunter2") := by
      rw [hresult]
      exact ⟨_, rfl, _, List.mem_cons_self, rfl, rfl⟩
    exact absurd (hvalues _ _ hpart (by decide)) (by decide)
  · intro hfields
    have hpart : correlatedData.HasPart [.key "trace_id"]
        (.object [("password", .string "hunter2")]) :=
      ⟨_, rfl, _, List.mem_cons_of_mem _ List.mem_cons_self, rfl, rfl⟩
    obtain ⟨fields, hfound, entry, hentry, hkey, hsame⟩ := hfields _ _ (by decide) hpart
    replace hfound : _ = Json.object fields := hresult.symm.trans hfound
    obtain rfl := Json.object.inj hfound
    rcases List.mem_cons.mp hentry with rfl | hentry
    · exact absurd hkey (by decide)
    · obtain rfl := List.mem_singleton.mp hentry
      replace hsame : Json.object [("password", .string "hunter2")] =
        .object [("password", .string "***REDACTED***")] := hsame
      simp at hsame

end Apcore
