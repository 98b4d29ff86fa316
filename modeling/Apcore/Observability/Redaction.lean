import Apcore.Json
import Apcore.Text
import Apcore.Utils

/-! # `Observability.Redaction` — the configured redaction rules

A field is redacted by its name, and a string by what it is; the correlation fields are exempt from
both. A compiled regular expression is what it matches, and `lower` is `str::to_lowercase`, whose
tables are those of Unicode. -/

namespace Apcore

/-- `NEVER_REDACT_FIELDS`. -/
def neverRedactFields : List String := ["trace_id", "caller_id", "target_id", "module_id", "span_id"]

/-- `DEFAULT_SENSITIVE_KEYS`. -/
def defaultSensitiveKeys : List String :=
  ["_secret_*", "password", "passwd", "secret", "token", "api_key", "apikey", "apiKey", "access_key",
    "private_key", "authorization", "auth", "credential", "cookie", "session", "bearer"]

/-- `RedactionConfig`. -/
structure RedactionConfig where
  /-- Entries with `*` or `?`, lower-cased, and the others, normalised. -/
  fieldPatterns : List String
  fieldSubstrings : List String
  valuePatterns : List (String → Bool)
  replacement : String

/-- The loop of `normalize_key_for_match`: an underscore between a lower-case letter and a capital. -/
def splitCamelCase : Bool → List Char → List Char
  | _, [] => []
  | prevLower, c :: rest =>
    let rest := c :: splitCamelCase (c.isLower || c.isDigit) rest
    if c.isUpper && prevLower then '_' :: rest else rest

/-- `normalize_key_for_match`. -/
def normalizeKeyForMatch (lower : String → String) (s : String) : String :=
  String.ofList ((lower (String.ofList (splitCamelCase false s.toList))).toList.map fun c =>
    if c = '-' || isRustWhitespace c then '_' else c)

/-- `text.contains(part)`. -/
def containsText (text part : String) : Bool := text.toList.tails.any part.toList.isPrefixOf

namespace RedactionConfig

/-- `RedactionConfig::new`. -/
def new : RedactionConfig where
  fieldPatterns := []
  fieldSubstrings := []
  valuePatterns := []
  replacement := "***REDACTED***"

/-- `add_sensitive_key`. -/
def addSensitiveKey (lower : String → String) (cfg : RedactionConfig) (key : String) :
    RedactionConfig :=
  if key.isEmpty then cfg
  else if key.toList.any fun c => c = '*' || c = '?' then
    { cfg with fieldPatterns := cfg.fieldPatterns ++ [lower key] }
  else { cfg with fieldSubstrings := cfg.fieldSubstrings ++ [normalizeKeyForMatch lower key] }

/-- `RedactionConfig::defaults`. -/
def defaults (lower : String → String) : RedactionConfig :=
  defaultSensitiveKeys.foldl (addSensitiveKey lower) new

variable (lower : String → String) (cfg : RedactionConfig)

/-- `field_matches`. -/
def fieldMatches (name : String) : Bool :=
  let lowered := lower name
  if cfg.fieldPatterns.any (matchGlob · lowered) then true
  else if cfg.fieldSubstrings.isEmpty then false
  else
    let normalized := normalizeKeyForMatch lower name
    cfg.fieldSubstrings.any (containsText normalized)

/-- `value_matches`. -/
def valueMatches (value : String) : Bool := cfg.valuePatterns.any (· value)

/-- A value is bound to a field that is never redacted. -/
def isProtected (name : Option String) : Bool := name.any neverRedactFields.contains

/-- The field-name rule applies to what is bound to the field. -/
def hidesField (name : Option String) : Bool :=
  name.any fun name => !neverRedactFields.contains name && cfg.fieldMatches lower name

mutual

/-- `redact_inner`. -/
def redactInner (name : Option String) : Json → Json
  | .object fields =>
    if cfg.hidesField lower name then .string cfg.replacement
    else .object (redactObject fields)
  | .array items =>
    if cfg.hidesField lower name then .string cfg.replacement
    else .array (redactItems items)
  | .string s =>
    if cfg.hidesField lower name then .string cfg.replacement
    else if !isProtected name && cfg.valueMatches s then .string cfg.replacement
    else .string s
  | value => if cfg.hidesField lower name then .string cfg.replacement else value

/-- `redact_object`. -/
def redactObject : List (String × Json) → List (String × Json)
  | [] => []
  | (key, slot) :: rest => (key, redactInner (some key) slot) :: redactObject rest

/-- The items of an array are bound to no field. -/
def redactItems : List Json → List Json
  | [] => []
  | item :: rest => redactInner none item :: redactItems rest

end

/-- `RedactionConfig::redact`. -/
def redact (value : Json) : Json := cfg.redactInner lower none value

variable {lower cfg} {name : Option String}

/-- Where the field-name rule applies, nothing is left of the value. -/
theorem redactInner_of_hidesField (h : cfg.hidesField lower name = true) (value : Json) :
    cfg.redactInner lower name value = .string cfg.replacement := by
  cases value <;> exact if_pos h

theorem redactObject_eq_map (fields : List (String × Json)) :
    cfg.redactObject lower fields =
      fields.map fun entry => (entry.1, cfg.redactInner lower (some entry.1) entry.2) := by
  induction fields with
  | nil => rfl
  | cons entry rest ih => rw [redactObject, ih, List.map_cons]

theorem redactItems_eq_map (items : List Json) :
    cfg.redactItems lower items = items.map (cfg.redactInner lower none) := by
  induction items with
  | nil => rfl
  | cons item rest ih => rw [redactItems, ih, List.map_cons]

/-- The field-name rule, which a field that is never redacted is exempt from. -/
theorem hidesField_iff : cfg.hidesField lower name = true ↔
    isProtected name = false ∧ name.any (cfg.fieldMatches lower) = true := by
  cases name with
  | none => exact ⟨nofun, fun h => h.2⟩
  | some name =>
    rw [hidesField, Option.any_some, Option.any_some, Bool.and_eq_true, Bool.not_eq_true']
    rfl

theorem hidesField_some {field : String} (hfield : field ∉ neverRedactFields)
    (hmatches : cfg.fieldMatches lower field = true) : cfg.hidesField lower (some field) = true := by
  rw [hidesField, Option.any_some, hmatches, Bool.and_true, Bool.not_eq_true',
    List.contains_eq_mem, decide_eq_false_iff_not]
  exact hfield

end RedactionConfig

end Apcore
