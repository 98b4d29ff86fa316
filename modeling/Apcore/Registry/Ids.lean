import Apcore.Errors

/-! # `Registry.Ids` — module ids and their conflicts

An id is checked for its form by `validate_module_id`, and against the registered ones by
`detect_id_conflicts`. A valid id is its own lower case, so the case-insensitive map of a registry
is the identity on the ids it holds. -/

namespace Apcore

/-- `RESERVED_WORDS`. -/
def reservedWords : List String :=
  ["system", "internal", "core", "apcore", "plugin", "schema", "acl"]

/-- `MODULE_ID_PATTERN`. -/
def moduleIdPattern : String := "^[a-z][a-z0-9_]*(\\.[a-z][a-z0-9_]*)*$"

/-- `MAX_MODULE_ID_LENGTH`, in bytes. -/
def maxModuleIdLength : Nat := 192

/-- The automaton of `MODULE_ID_PATTERN`; `inSegment` says that the segment has begun. -/
def matchesIdPattern : Bool → List Char → Bool
  | inSegment, [] => inSegment
  | false, c :: rest => c.isLower && matchesIdPattern true rest
  | true, c :: rest =>
    if c == '.' then matchesIdPattern false rest
    else (c.isLower || c.isDigit || c == '_') && matchesIdPattern true rest

/-- `is_ephemeral_module_id`. -/
def isEphemeralModuleId (moduleId : String) : Bool :=
  moduleId == "ephemeral" || "ephemeral.".toList.isPrefixOf moduleId.toList

/-- `name.split('.').next()`. -/
def firstSegment (name : String) : String := String.ofList ((name.toList.splitOn '.').headD [])

/-- `str::to_lowercase`, on ASCII. -/
def toLowercase (s : String) : String := String.ofList (s.toList.map Char.toLower)

/-- `validate_module_id` of the registry. -/
def Registry.validateModuleId (name : String) (allowReserved : Bool) : Except ModuleError Unit :=
  if name = "" then .error (.new .invalidModuleId "module_id must be a non-empty string")
  else if !matchesIdPattern false name.toList then
    .error (.new .invalidModuleId ("Invalid module ID: '" ++ name ++ "'. Must match pattern: " ++
      moduleIdPattern ++ " (lowercase, digits, underscores, dots only; no hyphens)"))
  else if name.utf8ByteSize > maxModuleIdLength then
    .error (.new .invalidModuleId ("Module ID exceeds maximum length of " ++
      toString maxModuleIdLength ++ ": " ++ toString name.utf8ByteSize))
  else if !allowReserved && reservedWords.contains (firstSegment name) then
    .error (.new .invalidModuleId
      ("Module ID contains reserved word: '" ++ firstSegment name ++ "'"))
  else .ok ()

/-! ## Conflicts -/

/-- `ConflictType`. -/
inductive ConflictType where
  | duplicateId | reservedWord | caseCollision
  deriving DecidableEq, Repr

/-- `ConflictSeverity`. -/
inductive ConflictSeverity where
  | error | warning
  deriving DecidableEq, Repr

/-- `ConflictResult`. -/
structure ConflictResult where
  conflictType : ConflictType
  severity : ConflictSeverity
  message : String
  deriving DecidableEq, Repr

/-- `detect_id_conflicts`, with the map of lower-case ids that a registry passes. -/
def detectIdConflicts (newId : String) (existingIds : String → Bool) (reserved : List String)
    (lowercaseMap : String → Option String) : Option ConflictResult :=
  if existingIds newId then
    some { conflictType := .duplicateId, severity := .error
           message := "Module ID '" ++ newId ++ "' is already registered" }
  else if reserved.contains (firstSegment newId) then
    some { conflictType := .reservedWord, severity := .error
           message := "Module ID '" ++ newId ++ "' contains reserved word '" ++
             firstSegment newId ++ "'" }
  else
    match lowercaseMap (toLowercase newId) with
    | none => none
    | some existing =>
      if existing = newId then none
      else some { conflictType := .caseCollision, severity := .warning
                  message := "Module ID '" ++ newId ++ "' has a case collision with existing '" ++
                    existing ++ "'" }

/-! ## Valid ids -/

/-- No character that the pattern allows is an upper-case letter. -/
theorem toLower_of_matches {inSegment : Bool} {name : List Char}
    (h : matchesIdPattern inSegment name = true) : ∀ c ∈ name, c.toLower = c := by
  have hself : ∀ c : Char, (c.isLower || c.isDigit || c == '_') = true ∨ c = '.' →
      c.toLower = c := by
    intro c hc
    have hlower : c.isLower = true → 97 ≤ c.val.toNat := by
      intro h
      have hrange : (decide (97 ≤ c.val) && decide (c.val ≤ 122)) = true := h
      exact UInt32.le_iff_toNat_le.mp (of_decide_eq_true (Bool.and_eq_true_iff.mp hrange).1)
    have hdigit : c.isDigit = true → c.val.toNat ≤ 57 := by
      intro h
      have hrange : (decide (48 ≤ c.val) && decide (c.val ≤ 57)) = true := h
      exact UInt32.le_iff_toNat_le.mp (of_decide_eq_true (Bool.and_eq_true_iff.mp hrange).2)
    -- `Char.toLower` moves the characters from `A` to `Z` only
    refine dif_neg ?_
    rintro ⟨hlow, hhigh⟩
    have hA : 65 ≤ c.val.toNat := UInt32.le_iff_toNat_le.mp hlow
    have hZ : c.val.toNat ≤ 90 := UInt32.le_iff_toNat_le.mp hhigh
    simp only [Bool.or_eq_true, beq_iff_eq] at hc
    rcases hc with ((h | h) | rfl) | rfl
    · have := hlower h
      omega
    · have := hdigit h
      omega
    · exact absurd hZ (by decide)
    · exact absurd hA (by decide)
  induction name generalizing inSegment with
  | nil => simp
  | cons c rest ih =>
    cases inSegment with
    | false =>
      obtain ⟨hc, hrest⟩ := Bool.and_eq_true_iff.mp h
      rintro d (_ | ⟨_, hd⟩)
      · exact hself c (.inl (by simp [hc]))
      · exact ih hrest d hd
    | true =>
      rw [matchesIdPattern] at h
      split_ifs at h with hdot
      · rintro d (_ | ⟨_, hd⟩)
        · exact hself c (.inr (by simpa using hdot))
        · exact ih h d hd
      · obtain ⟨hc, hrest⟩ := Bool.and_eq_true_iff.mp h
        rintro d (_ | ⟨_, hd⟩)
        · exact hself c (.inl hc)
        · exact ih hrest d hd

/-- A valid id is its own lower case. -/
theorem toLowercase_of_valid {name : String} {allowReserved : Bool}
    (h : Registry.validateModuleId name allowReserved = .ok ()) : toLowercase name = name := by
  have hmatch : matchesIdPattern false name.toList = true := by
    unfold Registry.validateModuleId at h
    split_ifs at h with hempty hpattern
    all_goals simpa using hpattern
  rw [toLowercase, List.map_congr_left (toLower_of_matches hmatch), List.map_id',
    String.ofList_toList]

example : Registry.validateModuleId "math.add_2" false = .ok () := by rfl

end Apcore
