import Apcore.Registry.VersionRanges

/-! # `Registry.VersionArithmetic` — the machine numbers of versions

A component of a version is a run of digits of any length, read into a `u64`; a run beyond that is
read as zero, below all smaller ones. The upper bound of a caret or a tilde adds one to a component,
which overflows at the last `u64`: a build that checks overflow panics there, and one that does not
wraps. `safeArithmetic_iff` says on which versions and constraints neither shows. -/

namespace Apcore

/-! ## Components -/

/-- The number that the digits in front of a part stand for. -/
def writtenNumber (part : List Char) : Nat :=
  (part.takeWhile Char.isDigit).foldl (fun n c => 10 * n + (c.toNat - '0'.toNat)) 0

/-- A component as it is written, zero where there is none. -/
def writtenComponent (version : List Char) (i : Fin 3) : Nat :=
  ((splitN '.' 3 (rustTrim version))[i.val]?).elim 0 writtenNumber

/-- A component of the triple. -/
def SemVer.component (v : SemVer) : Fin 3 → Nat
  | 0 => v.major
  | 1 => v.minor
  | 2 => v.patch

/-- The code reads a component as it is written, or as zero. -/
theorem component_parseSemverChars (version : List Char) (i : Fin 3) :
    (parseSemverChars version).component i = readU64 (writtenComponent version i) := by
  have hpart : ∀ part : Option (List Char),
      (part.bind parseNumericPrefix).getD 0 = readU64 (part.elim 0 writtenNumber) := by
    intro part
    cases part with
    | none => rfl
    | some part =>
      show (parseNumericPrefix part).getD 0 = readU64 (writtenNumber part)
      unfold parseNumericPrefix readU64 writtenNumber
      cases part.takeWhile Char.isDigit with
      | nil => rfl
      | cons c digits =>
        dsimp only
        split_ifs <;> rfl
  match i with
  | 0 => exact hpart _
  | 1 => exact hpart _
  | 2 => exact hpart _

/-- No smaller component of the first version is read as larger than that of the second. -/
def OrderKept (first second : List Char) : Prop :=
  ∀ i : Fin 3, writtenComponent first i < writtenComponent second i →
    (parseSemverChars first).component i ≤ (parseSemverChars second).component i

/-- Where a component of the second version does not fit, that of the first is zero or does not fit
either. -/
def MisfitsMeet (first second : List Char) : Prop :=
  ∀ i : Fin 3, u64Bound ≤ writtenComponent second i →
    writtenComponent first i = 0 ∨ u64Bound ≤ writtenComponent first i

theorem orderKept_iff (first second : List Char) :
    OrderKept first second ↔ MisfitsMeet first second := by
  refine forall_congr' fun i => ?_
  rw [component_parseSemverChars, component_parseSemverChars]
  generalize writtenComponent first i = m
  generalize writtenComponent second i = n
  unfold readU64
  constructor
  · intro hkept hmisfit
    by_contra hfits
    have hlt : m < n := by omega
    have hle := hkept hlt
    rw [if_pos (by omega), if_neg (by omega)] at hle
    omega
  · intro hmeet hlt
    by_cases hn : n < u64Bound
    · rw [if_pos hn, if_pos (hlt.trans hn)]
      exact hlt.le
    · rw [if_neg hn]
      rcases hmeet (Nat.not_lt.mp hn) with rfl | hm
      · split_ifs <;> exact Nat.le_refl 0
      · rw [if_neg (Nat.not_lt.mpr hm)]

/-! ## Upper bounds -/

/-- `n + 1` in `u64`, where overflow panics. -/
def checkedSucc (n : Nat) : Option Nat := if n + 1 < u64Bound then some (n + 1) else none

/-- `caret_upper_bound`, where overflow panics. -/
def checkedCaretUpperBound (target : SemVer) : Option SemVer :=
  if target.major > 0 then (checkedSucc target.major).map (.of · 0 0)
  else if target.minor > 0 then (checkedSucc target.minor).map (.of 0 · 0)
  else (checkedSucc target.patch).map (.of 0 0 ·)

/-- `tilde_upper_bound`, where overflow panics. -/
def checkedTildeUpperBound (target : SemVer) (partCount : Nat) : Option SemVer :=
  if partCount ≥ 2 then (checkedSucc target.minor).map (.of target.major · 0)
  else (checkedSucc target.major).map (.of · 0 0)

/-- The upper bound of a constraint, as `check_single_constraint` computes it; the other operators
have none. -/
def checkedUpperBound (op : ConstraintOp) (operand : List Char) : Option (Option SemVer) :=
  match op with
  | .caret => (checkedCaretUpperBound (parseSemverChars operand)).map some
  | .tilde =>
    (checkedTildeUpperBound (parseSemverChars operand)
      ((rustTrim operand).splitOn '.').length).map some
  | _ => some none

/-- The component to which the upper bound adds one. -/
def bumpedComponent (op : ConstraintOp) (operand : List Char) : Option Nat :=
  let target := parseSemverChars operand
  match op with
  | .caret =>
    some (if target.major > 0 then target.major
      else if target.minor > 0 then target.minor else target.patch)
  | .tilde =>
    some (if ((rustTrim operand).splitOn '.').length ≥ 2 then target.minor else target.major)
  | _ => none

theorem readU64_lt (n : Nat) : readU64 n < u64Bound := by
  unfold readU64
  split_ifs with h
  · exact h
  · decide

theorem component_lt (operand : List Char) (i : Fin 3) :
    (parseSemverChars operand).component i < u64Bound :=
  component_parseSemverChars operand i ▸ readU64_lt _

theorem isSome_checkedSucc {n : Nat} (h : n < u64Bound) {f : Nat → SemVer} :
    ((checkedSucc n).map f).isSome ↔ n ≠ u64Bound - 1 := by
  unfold checkedSucc
  split_ifs with hfits
  · exact ⟨fun _ => by omega, fun _ => rfl⟩
  · exact ⟨nofun, fun hne => by omega⟩

/-- The bound overflows exactly when the component is the last `u64`. -/
theorem isSome_checkedUpperBound (op : ConstraintOp) (operand : List Char) :
    (checkedUpperBound op operand).isSome ↔ bumpedComponent op operand ≠ some (u64Bound - 1) := by
  have hmajor : (parseSemverChars operand).major < u64Bound := component_lt operand 0
  have hminor : (parseSemverChars operand).minor < u64Bound := component_lt operand 1
  have hpatch : (parseSemverChars operand).patch < u64Bound := component_lt operand 2
  cases op with
  | caret =>
    simp only [checkedUpperBound, bumpedComponent, Option.isSome_map, checkedCaretUpperBound, ne_eq,
      Option.some.injEq]
    split_ifs
    · exact isSome_checkedSucc hmajor
    · exact isSome_checkedSucc hminor
    · exact isSome_checkedSucc hpatch
  | tilde =>
    simp only [checkedUpperBound, bumpedComponent, Option.isSome_map, checkedTildeUpperBound, ne_eq,
      Option.some.injEq]
    split_ifs
    · exact isSome_checkedSucc hminor
    · exact isSome_checkedSucc hmajor
  | _ => simp [checkedUpperBound, bumpedComponent]

/-! ## Both together -/

/-- Versions are compared with a constraint in the order of their components, whichever is the larger,
and its upper bound is computed without an overflow. -/
structure SafeArithmetic (version constraint : String) : Prop where
  order : ∀ op operand, splitConstraint constraint.toList = .ok (op, operand) →
    OrderKept version.toList operand ∧ OrderKept operand version.toList
  bound : ∀ op operand, splitConstraint constraint.toList = .ok (op, operand) →
    (checkedUpperBound op operand).isSome

/-- **Version arithmetic is safe exactly when** no component that does not fit in `u64` meets a
smaller one other than zero that does, and the component the bound adds one to is not the last
`u64`. -/
theorem safeArithmetic_iff (version constraint : String) :
    SafeArithmetic version constraint ↔
      ∀ op operand, splitConstraint constraint.toList = .ok (op, operand) →
        MisfitsMeet version.toList operand ∧ MisfitsMeet operand version.toList ∧
          bumpedComponent op operand ≠ some (u64Bound - 1) := by
  constructor
  · rintro ⟨horder, hbound⟩ op operand hsplit
    obtain ⟨hforth, hback⟩ := horder op operand hsplit
    exact ⟨(orderKept_iff _ _).mp hforth, (orderKept_iff _ _).mp hback,
      (isSome_checkedUpperBound op operand).mp (hbound op operand hsplit)⟩
  · intro h
    refine ⟨fun op operand hsplit => ?_, fun op operand hsplit => ?_⟩
    · obtain ⟨hforth, hback, -⟩ := h op operand hsplit
      exact ⟨(orderKept_iff _ _).mpr hforth, (orderKept_iff _ _).mpr hback⟩
    · exact (isSome_checkedUpperBound op operand).mpr (h op operand hsplit).2.2

/-- A major beyond `u64` is read as zero, below `1`. -/
theorem not_safeArithmetic : ¬∀ version constraint, SafeArithmetic version constraint := by
  intro h
  have hle := ((h "18446744073709551616.0.0" ">=1.0.0").order .ge "1.0.0".toList rfl).2 0
    (by decide +kernel)
  revert hle
  decide +kernel

end Apcore
