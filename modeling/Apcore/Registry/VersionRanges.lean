import Apcore.Registry.Version

/-! # `Registry.VersionRanges` — the intervals of carets and tildes

A caret or tilde constraint of one to three numeric components stands for a half-open interval:
a caret bumps the left-most component that is not zero (the last one, when all are), a tilde the
minor component, or the major one when no minor is given.

`caret_upper_bound` sees the padded triple instead of the components that were written, so a
caret of fewer than three zeros is read as if three had been written; and numbers are those of
`u64`, where the bump wraps and what does not fit is read as zero. `standardMeaning_iff` says on
which constraints none of this shows. -/

namespace Apcore

/-- A nonempty string of digits. -/
def Digits : Type := { s : List Char // s ≠ [] ∧ ∀ c ∈ s, c.isDigit = true }

/-- The number the digits denote. -/
def Digits.value (d : Digits) : Nat :=
  d.1.foldl (fun n c => 10 * n + (c.toNat - '0'.toNat)) 0

/-- The components a range gives: down to the major, the minor or the patch one. -/
inductive Components (α : Type) where
  | major (a : α)
  | minor (a b : α)
  | patch (a b c : α)

namespace Components

variable {α β : Type}

def map (f : α → β) : Components α → Components β
  | .major a => .major (f a)
  | .minor a b => .minor (f a) (f b)
  | .patch a b c => .patch (f a) (f b) (f c)

def toList : Components α → List α
  | .major a => [a]
  | .minor a b => [a, b]
  | .patch a b c => [a, b, c]

/-- The triple, padded with zeros. -/
def triple : Components Nat → SemVer
  | .major a => .of a 0 0
  | .minor a b => .of a b 0
  | .patch a b c => .of a b c

/-- The text of the components. -/
def text : Components Digits → List Char
  | .major a => a.1
  | .minor a b => a.1 ++ '.' :: b.1
  | .patch a b c => a.1 ++ '.' :: (b.1 ++ '.' :: c.1)

end Components

/-- The two operators with an upper bound of their own. -/
inductive RangeOp where
  | caret
  | tilde

namespace RangeOp

def symbol : RangeOp → Char
  | .caret => '^'
  | .tilde => '~'

/-- The exclusive upper bound in the sense of npm and Cargo. -/
def standardUpper : RangeOp → Components Nat → SemVer
  | .caret, .major a => .of (a + 1) 0 0
  | .caret, .minor a b => if a ≠ 0 then .of (a + 1) 0 0 else .of 0 (b + 1) 0
  | .caret, .patch a b c =>
    if a ≠ 0 then .of (a + 1) 0 0 else if b ≠ 0 then .of 0 (b + 1) 0 else .of 0 0 (c + 1)
  | .tilde, .major a => .of (a + 1) 0 0
  | .tilde, .minor a b => .of a (b + 1) 0
  | .tilde, .patch a b _ => .of a (b + 1) 0

/-- The exclusive upper bound the code computes from the padded triple. -/
def codeUpper : RangeOp → Components Nat → SemVer
  | .caret, ns => caretUpperBound ns.triple
  | .tilde, ns => tildeUpperBound ns.triple ns.toList.length

/-- The component the code bumps. -/
def bumped : RangeOp → Components Nat → Nat
  | .caret, ns =>
    if ns.triple.major > 0 then ns.triple.major
    else if ns.triple.minor > 0 then ns.triple.minor
    else ns.triple.patch
  | .tilde, .major a => a
  | .tilde, .minor _ b => b
  | .tilde, .patch _ b _ => b

end RangeOp

/-- A number as `parse_numeric_prefix` reads it: zero, when it does not fit in `u64`. -/
def readU64 (n : Nat) : Nat := if n < u64Bound then n else 0

/-- A caret or tilde constraint. -/
structure RangeConstraint where
  op : RangeOp
  components : Components Digits

namespace RangeConstraint

variable (r : RangeConstraint)

/-- The constraint, as it stands in a hint. -/
def hint : String := String.ofList (r.op.symbol :: r.components.text)

/-- The components as numbers. -/
def numbers : Components Nat := r.components.map Digits.value

/-- The constraint matches the versions of the standard interval, and no others. -/
def StandardMeaning : Prop :=
  ∀ version : String, tryMatchesVersionHint version r.hint =
    .ok (decide (r.numbers.triple ≤ parseSemver version ∧
      parseSemver version < r.op.standardUpper r.numbers))

end RangeConstraint

/-! ## Triples -/

namespace SemVer

@[simp] theorem major_of (a b c : Nat) : (of a b c).major = a := rfl
@[simp] theorem minor_of (a b c : Nat) : (of a b c).minor = b := rfl
@[simp] theorem patch_of (a b c : Nat) : (of a b c).patch = c := rfl

theorem of_lt_of {a b c x y z : Nat} :
    of a b c < of x y z ↔ a < x ∨ (a = x ∧ (b < y ∨ (b = y ∧ c < z))) := by
  unfold of
  rw [Prod.Lex.toLex_lt_toLex, Prod.Lex.toLex_lt_toLex]

theorem of_le_of {a b c x y z : Nat} :
    of a b c ≤ of x y z ↔ a < x ∨ (a = x ∧ (b < y ∨ (b = y ∧ c ≤ z))) := by
  unfold of
  rw [Prod.Lex.toLex_le_toLex, Prod.Lex.toLex_le_toLex]

/-- The components fit in `u64`. -/
def Fits (v : SemVer) : Prop := v.major < u64Bound ∧ v.minor < u64Bound ∧ v.patch < u64Bound

end SemVer

/-! ## Reading the constraint -/

theorem parseNumericPrefix_lt {s : List Char} {n : Nat} (h : parseNumericPrefix s = some n) :
    n < u64Bound := by
  unfold parseNumericPrefix at h
  split at h
  · cases h
  · dsimp only at h
    split_ifs at h with hlt
    obtain rfl := Option.some.inj h
    exact hlt

theorem fits_parseSemverChars (version : List Char) : (parseSemverChars version).Fits := by
  have hcomponent : ∀ part : Option (List Char),
      ((part.bind parseNumericPrefix).getD 0) < u64Bound := by
    intro part
    cases h : part.bind parseNumericPrefix with
    | none => exact Nat.two_pow_pos 64
    | some n =>
      obtain ⟨s, -, hs⟩ := Option.bind_eq_some_iff.mp h
      exact parseNumericPrefix_lt hs
  exact ⟨hcomponent _, hcomponent _, hcomponent _⟩

theorem parseNumericPrefix_digits (d : Digits) :
    (parseNumericPrefix d.1).getD 0 = readU64 d.value := by
  have htake : d.1.takeWhile Char.isDigit = d.1 := List.takeWhile_eq_self_iff.mpr d.2.2
  unfold parseNumericPrefix readU64
  rw [htake]
  split
  · next hnil => exact absurd hnil d.2.1
  · show (if d.value < u64Bound then some d.value else none).getD 0 = _
    split_ifs <;> rfl

theorem isRustWhitespace_of_isDigit {c : Char} (h : c.isDigit = true) :
    isRustWhitespace c = false := by
  obtain ⟨hlow, hhigh⟩ := Char.isDigit_iff_toNat.mp h
  have hlow : 48 ≤ c.toNat := hlow
  have hhigh : c.toNat ≤ 57 := hhigh
  simp only [isRustWhitespace, Bool.or_eq_false_iff, Bool.and_eq_false_iff, decide_eq_false_iff_not]
  omega

theorem Digits.ne_of_mem {d : Digits} {c sep : Char} (h : c ∈ d.1) (hsep : sep.isDigit = false) :
    c ≠ sep := by
  rintro rfl
  rw [d.2.2 c h] at hsep
  cases hsep

theorem Digits.not_mem (d : Digits) {sep : Char} (hsep : sep.isDigit = false) : sep ∉ d.1 :=
  fun h => d.ne_of_mem h hsep rfl

theorem splitN_of_not_mem {c : Char} {s : List Char} (h : c ∉ s) (n : Nat) :
    splitN c (n + 1) s = [s] := by
  cases n with
  | zero => rfl
  | succ n =>
    have hdrop : s.dropWhile (· != c) = [] := by
      rw [List.dropWhile_eq_nil_iff]
      intro a ha
      simpa using fun e : a = c => h (e ▸ ha)
    simp [splitN, hdrop]

theorem splitN_append {c : Char} {s : List Char} (h : c ∉ s) (rest : List Char) (n : Nat) :
    splitN c (n + 2) (s ++ c :: rest) = s :: splitN c (n + 1) rest := by
  have hs : ∀ a ∈ s, (a != c) = true := by
    intro a ha
    simpa using fun e : a = c => h (e ▸ ha)
  rw [splitN, List.dropWhile_append_of_pos hs, List.takeWhile_append_of_pos hs]
  simp

namespace Components

/-- Only digits and dots are written. -/
theorem mem_text {cs : Components Digits} {c : Char} (h : c ∈ cs.text) :
    c.isDigit = true ∨ c = '.' := by
  cases cs with
  | major a => exact Or.inl (a.2.2 c h)
  | minor a b =>
    rcases List.mem_append.mp h with h | h
    · exact Or.inl (a.2.2 c h)
    · rcases List.mem_cons.mp h with h | h
      · exact Or.inr h
      · exact Or.inl (b.2.2 c h)
  | patch a b d =>
    rcases List.mem_append.mp h with h | h
    · exact Or.inl (a.2.2 c h)
    · rcases List.mem_cons.mp h with h | h
      · exact Or.inr h
      · rcases List.mem_append.mp h with h | h
        · exact Or.inl (b.2.2 c h)
        · rcases List.mem_cons.mp h with h | h
          · exact Or.inr h
          · exact Or.inl (d.2.2 c h)

theorem head?_text (cs : Components Digits) : ∃ c, cs.text.head? = some c ∧ c.isDigit = true := by
  have hdigits : ∀ (a : Digits) (rest : List Char),
      ∃ c, (a.1 ++ rest).head? = some c ∧ c.isDigit = true := by
    intro a rest
    obtain ⟨c, tail, hc⟩ := List.exists_cons_of_ne_nil a.2.1
    exact ⟨c, by rw [hc]; rfl, a.2.2 c (by rw [hc]; exact List.mem_cons_self ..)⟩
  cases cs with
  | major a => simpa [text] using hdigits a []
  | minor a b => exact hdigits a _
  | patch a b c => exact hdigits a _

theorem isRustWhitespace_of_mem_text {cs : Components Digits} {c : Char} (h : c ∈ cs.text) :
    isRustWhitespace c = false := by
  rcases mem_text h with hdigit | rfl
  · exact isRustWhitespace_of_isDigit hdigit
  · decide

theorem rustTrim_text (cs : Components Digits) : rustTrim cs.text = cs.text :=
  rustTrim_of_trimmed ⟨fun _ hc => isRustWhitespace_of_mem_text (List.mem_of_mem_head? hc),
    fun _ hc => isRustWhitespace_of_mem_text (List.mem_of_mem_getLast? hc)⟩

theorem validOperand_text (cs : Components Digits) : validOperand cs.text = true := by
  obtain ⟨c, hhead, hdigit⟩ := cs.head?_text
  unfold validOperand
  rw [Bool.and_eq_true, hhead, List.all_eq_true]
  refine ⟨hdigit, fun c hc => ?_⟩
  rcases mem_text hc with hc | rfl
  · simp [Char.isAlphanum, hc]
  · decide

/-- As many parts as components. -/
theorem splitOn_text (cs : Components Digits) :
    (cs.text.splitOn '.').length = cs.toList.length := by
  have hdot : ∀ a : Digits, '.' ∉ a.1 := fun a => a.not_mem (by decide)
  cases cs with
  | major a => simp [text, toList, List.splitOn_eq_singleton (hdot a)]
  | minor a b =>
    simp [text, toList, List.splitOn_append_cons_self_of_not_mem (hdot a),
      List.splitOn_eq_singleton (hdot b)]
  | patch a b c =>
    simp [text, toList, List.splitOn_append_cons_self_of_not_mem (hdot a),
      List.splitOn_append_cons_self_of_not_mem (hdot b), List.splitOn_eq_singleton (hdot c)]

/-- The code reads the components off their text. -/
theorem parseSemverChars_text (cs : Components Digits) :
    parseSemverChars cs.text = ((cs.map Digits.value).map readU64).triple := by
  have hdot : ∀ a : Digits, '.' ∉ a.1 := fun a => a.not_mem (by decide)
  unfold parseSemverChars
  rw [rustTrim_text]
  cases cs with
  | major a => simp [text, splitN_of_not_mem (hdot a), parseNumericPrefix_digits, map, triple]
  | minor a b =>
    simp [text, splitN_append (hdot a), splitN_of_not_mem (hdot b), parseNumericPrefix_digits, map,
      triple]
  | patch a b c =>
    simp [text, splitN_append (hdot a), splitN_append (hdot b), splitN_of_not_mem (hdot c),
      parseNumericPrefix_digits, map, triple]

end Components

namespace RangeConstraint

variable (r : RangeConstraint)

/-- The components as the code reads them. -/
def read : Components Nat := r.numbers.map readU64

theorem mem_hint {c : Char} (h : c ∈ r.op.symbol :: r.components.text) :
    c = r.op.symbol ∨ c.isDigit = true ∨ c = '.' := by
  rcases List.mem_cons.mp h with h | h
  · exact Or.inl h
  · exact Or.inr (Components.mem_text h)

theorem rustTrim_hint :
    rustTrim (r.op.symbol :: r.components.text) = r.op.symbol :: r.components.text := by
  have hspace : ∀ c ∈ r.op.symbol :: r.components.text, isRustWhitespace c = false := by
    intro c hc
    rcases List.mem_cons.mp hc with rfl | hc
    · cases r.op <;> decide
    · exact Components.isRustWhitespace_of_mem_text hc
  exact rustTrim_of_trimmed ⟨fun c hc => hspace c (List.mem_of_mem_head? hc),
    fun c hc => hspace c (List.mem_of_mem_getLast? hc)⟩

/-- The operator as the code names it. -/
def constraintOp : RangeOp → ConstraintOp
  | .caret => .caret
  | .tilde => .tilde

theorem splitConstraint_hint :
    splitConstraint (r.op.symbol :: r.components.text) =
      .ok (constraintOp r.op, r.components.text) := by
  have hsplit : splitOperator (r.op.symbol :: r.components.text) =
      (constraintOp r.op, r.components.text) := by
    cases r.op <;> rfl
  simp [splitConstraint, rustTrim_hint, hsplit, Components.validOperand_text]

/-- A hint of one part is its constraint. -/
theorem checkConstraints_singleton (version : SemVer) (part : List Char) :
    checkConstraints version [part] = checkSingleConstraint version (rustTrim part) := by
  unfold checkConstraints
  cases checkSingleConstraint version (rustTrim part) with
  | error e => rfl
  | ok b => cases b <;> rfl

/-- **The interval the code gives a range**: from the triple it reads, up to the bound it
computes. -/
theorem tryMatchesVersionHint_hint (version : String) :
    tryMatchesVersionHint version r.hint =
      .ok (decide (r.read.triple ≤ parseSemver version ∧
        parseSemver version < r.op.codeUpper r.read)) := by
  have hcomma : ',' ∉ r.op.symbol :: r.components.text := by
    intro h
    rcases r.mem_hint h with h | h | h
    · revert h
      cases r.op <;> decide
    · revert h
      decide
    · revert h
      decide
  have hlength : r.read.toList.length = r.components.toList.length := by
    unfold read numbers
    cases r.components <;> rfl
  have htriple : parseSemverChars r.components.text = r.read.triple :=
    Components.parseSemverChars_text r.components
  unfold tryMatchesVersionHint hint
  rw [String.toList_ofList, List.splitOn_eq_singleton hcomma, checkConstraints_singleton,
    rustTrim_hint, checkSingleConstraint, splitConstraint_hint]
  show Except.ok _ = _
  rw [htriple, Components.rustTrim_text, Components.splitOn_text, ← hlength]
  cases r.op <;> rfl

/-- The standard interval and the code's agree on a version. -/
def Agree (op : RangeOp) (ns : Components Nat) (v : SemVer) : Prop :=
  (ns.triple ≤ v ∧ v < op.standardUpper ns) ↔
    ((ns.map readU64).triple ≤ v ∧ v < op.codeUpper (ns.map readU64))

theorem standardMeaning_iff_agree :
    r.StandardMeaning ↔ ∀ version, Agree r.op r.numbers (parseSemver version) := by
  unfold StandardMeaning
  refine forall_congr' fun version => ?_
  rw [tryMatchesVersionHint_hint, Except.ok.injEq, decide_eq_decide]
  exact Iff.comm

end RangeConstraint

/-! ## Where the intervals agree -/

namespace RangeOp

/-- A caret that gives fewer than three components, all zero. -/
def ZeroCaret (op : RangeOp) (ns : Components Nat) : Prop :=
  op = .caret ∧ ns.toList.length < 3 ∧ ∀ n ∈ ns.toList, n = 0

/-- All numbers fit, the bumped one with the bump, and a caret of zeros gives three. -/
def Plain (op : RangeOp) (ns : Components Nat) : Prop :=
  (∀ n ∈ ns.toList, n < u64Bound) ∧ op.bumped ns + 1 < u64Bound ∧ ¬ZeroCaret op ns

/-- A caret on the largest major number, a minor number below the largest one and a patch
number. -/
def LastMajor (op : RangeOp) (ns : Components Nat) : Prop :=
  op = .caret ∧ ∃ b c, ns = .patch (u64Bound - 1) b c ∧ b + 1 < u64Bound

/-- A number that does not fit leaves no version in the standard interval, and the bound wraps to
leave none in the code's. -/
def Vacuous (op : RangeOp) (ns : Components Nat) : Prop :=
  (∃ n ∈ ns.toList, u64Bound ≤ n) ∧ op.bumped (ns.map readU64) + 1 = u64Bound ∧
    ¬LastMajor op ns

end RangeOp

theorem readU64_cases (n : Nat) :
    (n < u64Bound ∧ readU64 n = n) ∨ (u64Bound ≤ n ∧ readU64 n = 0) := by
  unfold readU64
  split_ifs with h
  · exact Or.inl ⟨h, rfl⟩
  · exact Or.inr ⟨not_lt.mp h, rfl⟩

theorem succU64_of_lt {n : Nat} (h : n + 1 < u64Bound) : succU64 n = n + 1 := Nat.mod_eq_of_lt h

theorem succU64_of_eq {n : Nat} (h : n + 1 = u64Bound) : succU64 n = 0 := by
  unfold succU64
  rw [h, Nat.mod_self]

namespace RangeOp

theorem codeUpper_tilde_major (a : Nat) : codeUpper .tilde (.major a) = .of (succU64 a) 0 0 := rfl

theorem codeUpper_tilde_minor (a b : Nat) :
    codeUpper .tilde (.minor a b) = .of a (succU64 b) 0 := rfl

theorem codeUpper_tilde_patch (a b c : Nat) :
    codeUpper .tilde (.patch a b c) = .of a (succU64 b) 0 := rfl

theorem codeUpper_caret (ns : Components Nat) :
    codeUpper .caret ns =
      if ns.triple.major > 0 then .of (succU64 ns.triple.major) 0 0
      else if ns.triple.minor > 0 then .of 0 (succU64 ns.triple.minor) 0
      else .of 0 0 (succU64 ns.triple.patch) := rfl

theorem bumped_caret_of_major {ns : Components Nat} (h : 0 < ns.triple.major) :
    bumped .caret ns = ns.triple.major := if_pos h

theorem bumped_map_readU64_lt (op : RangeOp) (ns : Components Nat) :
    op.bumped (ns.map readU64) < u64Bound := by
  have hzero : 0 < u64Bound := Nat.two_pow_pos 64
  have hlt : ∀ n, readU64 n < u64Bound := by
    intro n
    have := readU64_cases n
    omega
  cases op with
  | caret =>
    have hfits : (ns.map readU64).triple.Fits := by
      cases ns with
      | major a => exact ⟨hlt a, hzero, hzero⟩
      | minor a b => exact ⟨hlt a, hlt b, hzero⟩
      | patch a b c => exact ⟨hlt a, hlt b, hlt c⟩
    simp only [bumped]
    split_ifs
    · exact hfits.1
    · exact hfits.2.1
    · exact hfits.2.2
  | tilde => cases ns <;> exact hlt _

/-- The bound is above the triple, unless it wraps. -/
theorem triple_lt_codeUpper {op : RangeOp} {ns : Components Nat}
    (h : op.bumped ns + 1 < u64Bound) : ns.triple < op.codeUpper ns := by
  cases op with
  | caret =>
    show SemVer.of ns.triple.major ns.triple.minor ns.triple.patch < _
    rw [codeUpper_caret]
    simp only [bumped] at h
    split_ifs at h ⊢ <;> rw [SemVer.of_lt_of, succU64_of_lt h] <;> omega
  | tilde =>
    cases ns with
    | major a =>
      have h : a + 1 < u64Bound := h
      rw [codeUpper_tilde_major, Components.triple, SemVer.of_lt_of, succU64_of_lt h]
      omega
    | minor a b =>
      have h : b + 1 < u64Bound := h
      rw [codeUpper_tilde_minor, Components.triple, SemVer.of_lt_of, succU64_of_lt h]
      omega
    | patch a b c =>
      have h : b + 1 < u64Bound := h
      rw [codeUpper_tilde_patch, Components.triple, SemVer.of_lt_of, succU64_of_lt h]
      omega

/-- A bound that wraps is below the triple. -/
theorem codeUpper_le_triple {op : RangeOp} {ns : Components Nat}
    (h : op.bumped ns + 1 = u64Bound) : op.codeUpper ns ≤ ns.triple := by
  cases op with
  | caret =>
    show _ ≤ SemVer.of ns.triple.major ns.triple.minor ns.triple.patch
    rw [codeUpper_caret]
    simp only [bumped] at h
    split_ifs at h ⊢ <;> rw [SemVer.of_le_of, succU64_of_eq h] <;> omega
  | tilde =>
    cases ns with
    | major a =>
      have h : a + 1 = u64Bound := h
      rw [codeUpper_tilde_major, Components.triple, SemVer.of_le_of, succU64_of_eq h]
      omega
    | minor a b =>
      have h : b + 1 = u64Bound := h
      rw [codeUpper_tilde_minor, Components.triple, SemVer.of_le_of, succU64_of_eq h]
      omega
    | patch a b c =>
      have h : b + 1 = u64Bound := h
      rw [codeUpper_tilde_patch, Components.triple, SemVer.of_le_of, succU64_of_eq h]
      omega

theorem triple_lt_standardUpper (op : RangeOp) (ns : Components Nat) :
    ns.triple < op.standardUpper ns := by
  cases op <;> cases ns <;> simp only [Components.triple, standardUpper] <;> (try split_ifs) <;>
    rw [SemVer.of_lt_of] <;> omega

/-- But for a caret of fewer than three zeros, a bound that does not wrap is the standard one. -/
theorem codeUpper_eq_standardUpper {op : RangeOp} {ns : Components Nat}
    (h : op.bumped ns + 1 < u64Bound) (hzero : ¬ZeroCaret op ns) :
    op.codeUpper ns = op.standardUpper ns := by
  cases op with
  | caret =>
    have h : (if ns.triple.major > 0 then ns.triple.major
      else if ns.triple.minor > 0 then ns.triple.minor else ns.triple.patch) + 1 < u64Bound := h
    rw [codeUpper_caret]
    cases ns with
    | major a =>
      have ha : a ≠ 0 := by
        rintro rfl
        exact hzero ⟨rfl, Nat.one_lt_succ_succ 1, by simp [Components.toList]⟩
      simp only [Components.triple, SemVer.major_of, Nat.pos_of_ne_zero ha, if_true] at h ⊢
      rw [succU64_of_lt h]
      rfl
    | minor a b =>
      by_cases ha : a = 0
      · have hb : b ≠ 0 := by
          rintro rfl
          exact hzero ⟨rfl, Nat.lt_succ_self 2, by simp [Components.toList, ha]⟩
        simp only [Components.triple, SemVer.major_of, SemVer.minor_of, ha, gt_iff_lt,
          lt_irrefl, if_false, Nat.pos_of_ne_zero hb, if_true] at h ⊢
        rw [succU64_of_lt h]
        rfl
      · simp only [Components.triple, SemVer.major_of, Nat.pos_of_ne_zero ha, if_true] at h ⊢
        rw [succU64_of_lt h]
        simp [standardUpper, ha]
    | patch a b c =>
      by_cases ha : a = 0
      · by_cases hb : b = 0
        · simp only [Components.triple, SemVer.major_of, SemVer.minor_of, SemVer.patch_of, ha, hb,
            gt_iff_lt, lt_irrefl, if_false] at h ⊢
          rw [succU64_of_lt h]
          rfl
        · simp only [Components.triple, SemVer.major_of, SemVer.minor_of, ha, gt_iff_lt,
            lt_irrefl, if_false, Nat.pos_of_ne_zero hb, if_true] at h ⊢
          rw [succU64_of_lt h]
          simp [standardUpper, hb]
      · simp only [Components.triple, SemVer.major_of, Nat.pos_of_ne_zero ha, if_true] at h ⊢
        rw [succU64_of_lt h]
        simp [standardUpper, ha]
  | tilde =>
    cases ns with
    | major a =>
      have h : a + 1 < u64Bound := h
      rw [codeUpper_tilde_major, succU64_of_lt h]
      rfl
    | minor a b =>
      have h : b + 1 < u64Bound := h
      rw [codeUpper_tilde_minor, succU64_of_lt h]
      rfl
    | patch a b c =>
      have h : b + 1 < u64Bound := h
      rw [codeUpper_tilde_patch, succU64_of_lt h]
      rfl

/-- A caret of fewer than three zeros is bounded as if three had been given. -/
theorem codeUpper_of_zeroCaret {op : RangeOp} {ns : Components Nat} (h : ZeroCaret op ns) :
    ns.triple = .of 0 0 0 ∧ op.codeUpper ns = .of 0 0 1 ∧
      .of 0 0 1 < op.standardUpper ns := by
  obtain ⟨rfl, hlength, hzero⟩ := h
  cases ns with
  | major a =>
    obtain rfl : a = 0 := hzero a (by simp [Components.toList])
    exact ⟨rfl, rfl, SemVer.of_lt_of.mpr (by omega)⟩
  | minor a b =>
    obtain rfl : a = 0 := hzero a (by simp [Components.toList])
    obtain rfl : b = 0 := hzero b (by simp [Components.toList])
    exact ⟨rfl, rfl, SemVer.of_lt_of.mpr (by omega)⟩
  | patch a b c => simp [Components.toList] at hlength

end RangeOp

/-! ## Numbers beyond `u64` -/

namespace Components

theorem map_readU64_of_fits {ns : Components Nat} (h : ∀ n ∈ ns.toList, n < u64Bound) :
    ns.map readU64 = ns := by
  have hread : ∀ n ∈ ns.toList, readU64 n = n := fun n hn => if_pos (h n hn)
  cases ns <;> simp_all [map, toList]

/-- A number that does not fit is read as zero, which makes the triple smaller. -/
theorem triple_map_readU64_lt {ns : Components Nat} (h : ∃ n ∈ ns.toList, u64Bound ≤ n) :
    (ns.map readU64).triple < ns.triple := by
  have hpos : 0 < u64Bound := Nat.two_pow_pos 64
  have hread := readU64_cases
  cases ns with
  | major a =>
    have ha := hread a
    simp only [toList, List.mem_singleton, exists_eq_left] at h
    rw [map, triple, triple, SemVer.of_lt_of]
    omega
  | minor a b =>
    have ha := hread a
    have hb := hread b
    simp only [toList, List.mem_cons, List.not_mem_nil, or_false, exists_eq_or_imp,
      exists_eq_left] at h
    rw [map, triple, triple, SemVer.of_lt_of]
    omega
  | patch a b c =>
    have ha := hread a
    have hb := hread b
    have hc := hread c
    simp only [toList, List.mem_cons, List.not_mem_nil, or_false, exists_eq_or_imp,
      exists_eq_left] at h
    rw [map, triple, triple, SemVer.of_lt_of]
    omega

end Components

namespace RangeOp

/-- Between a triple with a number that does not fit and its bound, no triple fits; but for a
caret on the largest major number, whose bound leaves the minor one free. -/
theorem standard_empty {op : RangeOp} {ns : Components Nat} (hbig : ∃ n ∈ ns.toList, u64Bound ≤ n)
    (hwrap : op.bumped (ns.map readU64) + 1 = u64Bound) (hlast : ¬LastMajor op ns) {v : SemVer}
    (hv : v.Fits) : ¬(ns.triple ≤ v ∧ v < op.standardUpper ns) := by
  obtain ⟨x, y, z⟩ := v
  obtain ⟨hx, hy, hz⟩ : x < u64Bound ∧ y < u64Bound ∧ z < u64Bound := hv
  show ¬(ns.triple ≤ .of x y z ∧ .of x y z < op.standardUpper ns)
  cases op with
  | caret =>
    cases ns with
    | major a =>
      simp only [Components.toList, List.mem_singleton, exists_eq_left] at hbig
      simp only [Components.triple, standardUpper, SemVer.of_le_of, SemVer.of_lt_of]
      omega
    | minor a b =>
      simp only [Components.toList, List.mem_cons, List.not_mem_nil, or_false, exists_eq_or_imp,
        exists_eq_left] at hbig
      simp only [Components.triple, standardUpper, SemVer.of_le_of]
      split_ifs <;> rw [SemVer.of_lt_of] <;> omega
    | patch a b c =>
      simp only [Components.toList, List.mem_cons, List.not_mem_nil, or_false, exists_eq_or_imp,
        exists_eq_left] at hbig
      -- a major number that fits and is not zero is the one that wraps, so the minor one is last
      have hminor : a ≠ 0 → a < u64Bound → u64Bound ≤ b + 1 := by
        intro ha hfits
        have hread : readU64 a = a := if_pos hfits
        have hmajor : ((Components.patch a b c).map readU64).triple.major = a := hread
        rw [bumped_caret_of_major (by omega), hmajor] at hwrap
        obtain rfl : a = u64Bound - 1 := by omega
        exact not_lt.mp fun hb => hlast ⟨rfl, b, c, rfl, hb⟩
      simp only [Components.triple, standardUpper, SemVer.of_le_of]
      split_ifs <;> rw [SemVer.of_lt_of] <;> omega
  | tilde =>
    cases ns with
    | major a =>
      simp only [Components.toList, List.mem_singleton, exists_eq_left] at hbig
      simp only [Components.triple, standardUpper, SemVer.of_le_of, SemVer.of_lt_of]
      omega
    | minor a b =>
      simp only [Components.toList, List.mem_cons, List.not_mem_nil, or_false, exists_eq_or_imp,
        exists_eq_left] at hbig
      simp only [Components.triple, standardUpper, SemVer.of_le_of, SemVer.of_lt_of]
      omega
    | patch a b c =>
      simp only [Components.toList, List.mem_cons, List.not_mem_nil, or_false, exists_eq_or_imp,
        exists_eq_left] at hbig
      simp only [Components.triple, standardUpper, SemVer.of_le_of, SemVer.of_lt_of]
      omega

end RangeOp

namespace RangeConstraint

open RangeOp

theorem agree_of_plain {op : RangeOp} {ns : Components Nat} (h : Plain op ns) (v : SemVer) :
    Agree op ns v := by
  unfold Agree
  rw [Components.map_readU64_of_fits h.1, codeUpper_eq_standardUpper h.2.1 h.2.2]

theorem agree_of_vacuous {op : RangeOp} {ns : Components Nat} (h : Vacuous op ns) {v : SemVer}
    (hv : v.Fits) : Agree op ns v := by
  have hstandard := standard_empty h.1 h.2.1 h.2.2 hv
  have hcode : ¬((ns.map readU64).triple ≤ v ∧ v < op.codeUpper (ns.map readU64)) :=
    fun hin => absurd (lt_of_le_of_lt hin.1 hin.2) (not_lt.mpr (codeUpper_le_triple h.2.1))
  exact iff_of_false hstandard hcode

/-- Three versions tell whether the intervals agree: the triple as it is read, `0.0.1`, and the
largest major and minor numbers. -/
theorem plain_or_vacuous_of_agree {op : RangeOp} {ns : Components Nat}
    (hself : Agree op ns (ns.map readU64).triple) (hone : Agree op ns (.of 0 0 1))
    (hlast : Agree op ns (.of (u64Bound - 1) (u64Bound - 1) 0)) : Plain op ns ∨ Vacuous op ns := by
  have hwrap : op.bumped (ns.map readU64) + 1 < u64Bound ∨
      op.bumped (ns.map readU64) + 1 = u64Bound := by
    have := bumped_map_readU64_lt op ns
    omega
  by_cases hfits : ∀ n ∈ ns.toList, n < u64Bound
  · have hread := Components.map_readU64_of_fits hfits
    refine Or.inl ⟨hfits, ?_, fun hzero => ?_⟩
    · rw [hread] at hwrap hself
      refine hwrap.resolve_right fun heq => ?_
      -- the triple itself is in the standard interval, and the code's is empty
      have hin := hself.mp ⟨le_rfl, triple_lt_standardUpper op ns⟩
      exact absurd hin.2 (not_lt.mpr (by rw [hread]; exact codeUpper_le_triple heq))
    · obtain ⟨htriple, hcode, hstandard⟩ := codeUpper_of_zeroCaret hzero
      have hle : ns.triple ≤ .of 0 0 1 := by
        rw [htriple, SemVer.of_le_of]
        omega
      have hin := (hone.mp ⟨hle, hstandard⟩).2
      rw [hread, hcode] at hin
      exact absurd hin (lt_irrefl _)
  · have hbig : ∃ n ∈ ns.toList, u64Bound ≤ n := by
      by_contra hnone
      exact hfits fun n hn => not_le.mp fun hle => hnone ⟨n, hn, hle⟩
    have hbelow := Components.triple_map_readU64_lt hbig
    refine Or.inr ⟨hbig, hwrap.resolve_left fun hlt => ?_, ?_⟩
    · -- the triple as it is read is in the code's interval, and below the standard one
      have hin := hself.mpr ⟨le_rfl, triple_lt_codeUpper hlt⟩
      exact absurd hin.1 (not_le.mpr hbelow)
    · rintro ⟨rfl, b, c, rfl, hb⟩
      have hpos : 1 < u64Bound := by decide
      have hstandard : (Components.patch (u64Bound - 1) b c).triple ≤
            .of (u64Bound - 1) (u64Bound - 1) 0 ∧
          .of (u64Bound - 1) (u64Bound - 1) 0 <
            standardUpper .caret (.patch (u64Bound - 1) b c) := by
        have hne : u64Bound - 1 ≠ 0 := by omega
        rw [Components.triple, standardUpper, if_pos hne, SemVer.of_le_of, SemVer.of_lt_of]
        omega
      have hin := hlast.mp hstandard
      have hbump : bumped .caret ((Components.patch (u64Bound - 1) b c).map readU64) + 1 =
          u64Bound := by
        have hread : readU64 (u64Bound - 1) = u64Bound - 1 := if_pos (by omega)
        have hmajor : ((Components.patch (u64Bound - 1) b c).map readU64).triple.major =
            u64Bound - 1 := hread
        rw [bumped_caret_of_major (by omega), hmajor]
        omega
      exact absurd (lt_of_le_of_lt hin.1 hin.2) (not_lt.mpr (codeUpper_le_triple hbump))

/-- **A caret or tilde has its standard meaning exactly when its numbers and the bumped one fit
in `u64` and it is no caret of fewer than three zeros**, or when neither interval has a
version. -/
theorem standardMeaning_iff (r : RangeConstraint) :
    r.StandardMeaning ↔ Plain r.op r.numbers ∨ Vacuous r.op r.numbers := by
  rw [standardMeaning_iff_agree]
  constructor
  · intro h
    have hself := h (String.ofList r.components.text)
    have hone := h "0.0.1"
    have hlast := h "18446744073709551615.18446744073709551615.0"
    rw [parseSemver, String.toList_ofList, Components.parseSemverChars_text] at hself
    exact plain_or_vacuous_of_agree hself
      (by rwa [show parseSemver "0.0.1" = .of 0 0 1 by decide +kernel] at hone)
      (by rwa [show parseSemver "18446744073709551615.18446744073709551615.0" =
        .of (u64Bound - 1) (u64Bound - 1) 0 by decide +kernel] at hlast)
  · rintro (h | h) version
    · exact agree_of_plain h _
    · exact agree_of_vacuous h (fits_parseSemverChars _)

/-- `^0` stands for all versions below `1.0.0`, and the code stops at `0.0.1`. -/
theorem not_standardMeaning : ¬∀ r : RangeConstraint, r.StandardMeaning := by
  intro h
  have h := congrArg Except.toOption (h ⟨.caret, .major
    ⟨['0'], List.cons_ne_nil _ _, List.forall_mem_singleton.mpr rfl⟩⟩ "0.1.0")
  revert h
  decide +kernel

end RangeConstraint

end Apcore
