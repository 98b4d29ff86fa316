import Apcore.Errors

/-! # `Utils` — module-id patterns, globs and the call-chain guard

`match_pattern` (`*` is the only metacharacter), the specificity that orders policy rules and
`match_glob` read a string as its list of characters. -/

namespace Apcore

/-- `value[pos..].find(segment)`: what follows the first occurrence of `segment`. -/
def findAfter (segment : List Char) : List Char → Option (List Char)
  | [] => if segment.isEmpty then some [] else none
  | c :: rest =>
    if segment.isPrefixOf (c :: rest) then some ((c :: rest).drop segment.length)
    else findAfter segment rest

/-- The interior loop of `match_pattern`: every non-empty segment is found after the previous. -/
def matchSegments : List (List Char) → List Char → Bool
  | [], _ => true
  | segment :: segments, rest =>
    if segment.isEmpty then matchSegments segments rest
    else match findAfter segment rest with
      | some rest => matchSegments segments rest
      | none => false

/-- `match_pattern` (Algorithm A08). -/
def matchPattern (pattern value : String) : Bool :=
  if pattern = "*" then true
  else if !pattern.toList.contains '*' then pattern == value
  else
    let segments := pattern.toList.splitOn '*'
    let first := segments.headD []
    -- `segments[0]` is empty when the pattern starts with `*`, so the prefix test is then void
    first.isPrefixOf value.toList &&
      matchSegments segments.tail (value.toList.drop first.length) &&
      (segments.getLastD []).isSuffixOf value.toList

/-- `calculate_specificity`: two for a literal segment, one for a partial wildcard. -/
def calculateSpecificity (pattern : String) : Nat :=
  if pattern = "*" then 0
  else (pattern.toList.splitOn '.').foldl (fun score segment =>
    score + if segment = ['*'] then 0 else if segment.contains '*' then 1 else 2) 0

/-- The universal pattern matches every value. -/
@[simp] theorem matchPattern_star (value : String) : matchPattern "*" value = true := rfl

/-- A pattern without `*` matches itself only. -/
theorem matchPattern_literal {pattern value : String} (h : '*' ∉ pattern.toList) :
    matchPattern pattern value = (pattern == value) := by
  have hstar : pattern ≠ "*" := by rintro rfl; exact h (by simp)
  rw [matchPattern, if_neg hstar, if_pos (by simpa using h)]

/-! ## Globs -/

/-- `match_prefix`: `?` stands for any one character. -/
def matchPrefix (segment text : List Char) : Bool :=
  segment.length ≤ text.length && (segment.zip text).all fun (s, t) => s == '?' || s == t

/-- `match_exact`. -/
def matchExact (segment text : List Char) : Bool :=
  segment.length == text.length && matchPrefix segment text

/-- The interior loop of `match_glob`: every non-empty segment at its first place from `pos` on. -/
def matchInterior (value : List Char) : List (List Char) → Nat → Option Nat
  | [], pos => some pos
  | segment :: segments, pos =>
    if segment.isEmpty then matchInterior value segments pos
    else if value.length < segment.length then none
    else
      let places := List.range' pos (value.length - segment.length + 1 - pos)
      match places.find? fun j => matchExact segment ((value.drop j).take segment.length) with
      | some j => matchInterior value segments (j + segment.length)
      | none => none

/-- `match_glob` (Algorithm A25). -/
def matchGlob (pattern value : String) : Bool :=
  let segments := pattern.toList.splitOn '*'
  let first := segments.headD []
  let rest := segments.tail
  if rest.isEmpty then matchExact first value.toList
  else
    let last := rest.getLastD []
    matchPrefix first value.toList &&
      match matchInterior value.toList rest.dropLast first.length with
      | some pos =>
        last.isEmpty ||
          (last.length ≤ value.length - pos &&
            matchExact last (value.toList.drop (value.length - last.length)))
      | none => false

/-! ## The call-chain guard -/

/-- `{names:?}` of a list of strings. -/
def debugNames (names : List String) : String :=
  "[" ++ ", ".intercalate (names.map String.quote) ++ "]"

/-- What lies between the last occurrence of `name` and the end: `rposition`, and the slice after
it. -/
def afterLast (name : String) (names : List String) : Option (List String) :=
  if name ∈ names then some (names.reverse.takeWhile (· != name)).reverse else none

/-- `guard_call_chain`. The chain already ends with the module, so that entry is stripped for the
cycle check and counted for the frequency check. -/
def guardCallChain (moduleId : String) (callChain : List String)
    (maxCallDepth maxModuleRepeat : Nat) : Except ModuleError Unit :=
  let count := callChain.count moduleId
  if maxCallDepth < 1 then
    .error ((ModuleError.invalidInput
        ("max_call_depth must be >= 1, got " ++ toString maxCallDepth)).withAiGuidance
      ("The call-depth limit is not a positive integer. Set `executor.max_call_depth` " ++
        "to at least 1 (the documented default is 32) and retry."))
  else if maxModuleRepeat < 1 then
    .error ((ModuleError.invalidInput
        ("max_module_repeat must be >= 1, got " ++ toString maxModuleRepeat)).withAiGuidance
      ("The module-repeat limit is not a positive integer. Set `executor.max_module_repeat` to " ++
        "at least 1 (the documented default is 3) and retry."))
  else if callChain.length > maxCallDepth then
    let depth := toString callChain.length
    .error (((ModuleError.new .callDepthExceeded
        ("Call depth exceeded: chain length " ++ depth ++ " > max_depth " ++
          toString maxCallDepth)).withDetails
      [("call_chain", ModuleError.namesJson callChain), ("depth", ModuleError.countJson callChain.length),
        ("max_depth", ModuleError.countJson maxCallDepth)]).withAiGuidance
      ("Call depth " ++ depth ++ " exceeds maximum " ++ toString maxCallDepth ++
        ". Simplify the module call chain or restructure to reduce nesting depth."))
  else if (afterLast moduleId callChain.dropLast).any (!·.isEmpty) then
    .error (((ModuleError.new .circularCall
        ("Circular call detected: '" ++ moduleId ++ "' already in call chain " ++
          debugNames callChain)).withDetails
      [("call_chain", ModuleError.namesJson callChain), ("module_id", .string moduleId)]).withAiGuidance
      ("A circular call was detected in the module call chain. Review the call_chain in error " ++
        "details and restructure to eliminate the cycle."))
  else if count > maxModuleRepeat then
    .error (((ModuleError.new .callFrequencyExceeded
        ("Module '" ++ moduleId ++ "' called " ++ toString count ++
          " times, exceeds max repeat limit of " ++ toString maxModuleRepeat)).withDetails
      [("call_chain", ModuleError.namesJson callChain), ("count", ModuleError.countJson count),
        ("max_repeat", ModuleError.countJson maxModuleRepeat), ("module_id", .string moduleId)]).withAiGuidance
      ("Module '" ++ moduleId ++ "' was called " ++ toString count ++
        " times in this chain (limit " ++ toString maxModuleRepeat ++
        "), tripping the frequency guard. Reduce repeated calls or batch the work before retrying."))
  else .ok ()

example : matchPattern "api.*.read" "api.users.read" = true := by decide
example : calculateSpecificity "api.*.re*" = 3 := by decide

end Apcore
