import Mathlib.Data.Prod.Lex
import Apcore.Errors
import Apcore.Text

/-! # `Registry.Version` — semantic versions and version hints

A version is read leniently into a triple, compared lexicographically; a hint is a comma-separated
list of constraints on the triple. Machine arithmetic is that of `u64`, with the wrap-around of a
release build. -/

namespace Apcore

/-- `str::splitn(n, c)`. -/
def splitN (c : Char) : Nat → List Char → List (List Char)
  | 0, _ => []
  | 1, s => [s]
  | n + 2, s =>
    match s.dropWhile (· != c) with
    | [] => [s]
    | _ :: rest => s.takeWhile (· != c) :: splitN c (n + 1) rest

/-- The first number that is no `u64`. -/
def u64Bound : Nat := 2 ^ 64

/-- A version triple, in lexicographic order. -/
abbrev SemVer := Nat ×ₗ (Nat ×ₗ Nat)

namespace SemVer

/-- The triple `(major, minor, patch)`. -/
def of (major minor patch : Nat) : SemVer := toLex (major, toLex (minor, patch))

def major (v : SemVer) : Nat := (ofLex v).1
def minor (v : SemVer) : Nat := (ofLex (ofLex v).2).1
def patch (v : SemVer) : Nat := (ofLex (ofLex v).2).2

end SemVer

/-- `parse_numeric_prefix`: a number beyond `u64` is none. -/
def parseNumericPrefix (s : List Char) : Option Nat :=
  match s.takeWhile Char.isDigit with
  | [] => none
  | digits =>
    let n := digits.foldl (fun n c => 10 * n + (c.toNat - '0'.toNat)) 0
    if n < u64Bound then some n else none

/-- `parse_semver`, on the characters of the version. -/
def parseSemverChars (version : List Char) : SemVer :=
  let parts := splitN '.' 3 (rustTrim version)
  let component i := ((parts[i]?).bind parseNumericPrefix).getD 0
  .of (component 0) (component 1) (component 2)

/-- `parse_semver`. -/
def parseSemver (version : String) : SemVer := parseSemverChars version.toList

/-- The operators of a constraint. -/
inductive ConstraintOp where
  | ge | le | gt | lt | caret | tilde | eq
  deriving DecidableEq, Repr

/-- `n + 1` in `u64`. -/
def succU64 (n : Nat) : Nat := (n + 1) % u64Bound

/-- `caret_upper_bound`. -/
def caretUpperBound (target : SemVer) : SemVer :=
  if target.major > 0 then .of (succU64 target.major) 0 0
  else if target.minor > 0 then .of 0 (succU64 target.minor) 0
  else .of 0 0 (succU64 target.patch)

/-- `tilde_upper_bound`. -/
def tildeUpperBound (target : SemVer) (partCount : Nat) : SemVer :=
  if partCount ≥ 2 then .of target.major (succU64 target.minor) 0
  else .of (succU64 target.major) 0 0

/-- `version_constraint_error`. -/
def versionConstraintError (constraint reason : String) : ModuleError :=
  ((ModuleError.new .versionConstraintInvalid
      ("Invalid version constraint '" ++ constraint ++ "': " ++ reason)).withDetails
    [("constraint", .string constraint), ("reason", .string reason)]).withAiGuidance
    ("Constraint '" ++ constraint ++ "' is not a valid semver expression. Use forms like '1.2.3', " ++
      "'>=1.2.0,<2.0.0', '^1.2.3', or '~1.2'. " ++ reason)

/-- The operator a trimmed constraint begins with, and the rest. -/
def splitOperator : List Char → ConstraintOp × List Char
  | '>' :: '=' :: rest => (.ge, rest)
  | '<' :: '=' :: rest => (.le, rest)
  | '>' :: rest => (.gt, rest)
  | '<' :: rest => (.lt, rest)
  | '^' :: rest => (.caret, rest)
  | '~' :: rest => (.tilde, rest)
  | '=' :: rest => (.eq, rest)
  | operand => (.eq, operand)

/-- An operand begins with a digit and has only characters of a version. -/
def validOperand (operand : List Char) : Bool :=
  operand.head?.any Char.isDigit &&
    operand.all fun c => c.isAlphanum || c = '.' || c = '-' || c = '+' || c = '_'

/-- `split_constraint`. -/
def splitConstraint (constraint : List Char) : Except ModuleError (ConstraintOp × List Char) :=
  let trimmed := rustTrim constraint
  if trimmed.isEmpty then .error (versionConstraintError "" "empty constraint")
  else
    let split := splitOperator trimmed
    if validOperand split.2 then .ok split
    else .error (versionConstraintError (String.ofList trimmed)
      "operand must start with a digit (e.g., '1.2.3', not 'v1.2.3' or 'latest')")

/-- `check_single_constraint`. -/
def checkSingleConstraint (version : SemVer) (constraint : List Char) : Except ModuleError Bool := do
  let (op, targetStr) ← splitConstraint constraint
  let target := parseSemverChars targetStr
  let parts := ((rustTrim targetStr).splitOn '.').length
  pure (match op with
    | .caret => decide (target ≤ version ∧ version < caretUpperBound target)
    | .tilde => decide (target ≤ version ∧ version < tildeUpperBound target parts)
    | .eq =>
      -- a partial version matches all that begin with it
      if parts = 1 then decide (version.major = target.major)
      else if parts = 2 then decide (version.major = target.major ∧ version.minor = target.minor)
      else decide (version = target)
    | .ge => decide (target ≤ version)
    | .gt => decide (target < version)
    | .le => decide (version ≤ target)
    | .lt => decide (version < target))

/-- The loop of `try_matches_version_hint`: the first constraint that fails or errs decides. -/
def checkConstraints (version : SemVer) : List (List Char) → Except ModuleError Bool
  | [] => .ok true
  | constraint :: rest =>
    match checkSingleConstraint version (rustTrim constraint) with
    | .error e => .error e
    | .ok false => .ok false
    | .ok true => checkConstraints version rest

/-- `try_matches_version_hint`. -/
def tryMatchesVersionHint (version hint : String) : Except ModuleError Bool :=
  checkConstraints (parseSemver version) (hint.toList.splitOn ',')

example : (tryMatchesVersionHint "1.4.0" ">=1.2, <2").toOption = some true := by decide
example : (tryMatchesVersionHint "1.4.0" "latest").toOption = none := by decide

end Apcore
