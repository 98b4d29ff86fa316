import Apcore.Lib.BinaryFloat
import Apcore.Schema.Validity
import Apcore.Text

/-! # `Schema.Coercion` — strings read as numbers and booleans

`coerce_value` turns a string at a position that is declared numeric or boolean into what it says.
Numerals are read as `i64::from_str` and `f64::from_str` read them; the latter is correctly rounded. -/

namespace Apcore

/-! ## Numerals -/

def splitSign : List Char → Bool × List Char
  | '-' :: rest => (true, rest)
  | '+' :: rest => (false, rest)
  | rest => (false, rest)

def isDigits (s : List Char) : Bool := !s.isEmpty && s.all Char.isDigit

def digitsValue (digits : List Char) : ℕ := Nat.ofDigitChars 10 digits 0

def signed (negative : Bool) (q : ℚ) : ℚ := if negative then -q else q

/-- `str::parse::<i64>`. -/
def parseI64 (s : List Char) : Option ℤ :=
  let (negative, digits) := splitSign s
  if isDigits digits then
    let n : ℤ := if negative then -(digitsValue digits : ℤ) else digitsValue digits
    if -2 ^ 63 ≤ n ∧ n < 2 ^ 63 then some n else none
  else none

/-- The exponent of a numeral: none, or an `e` with digits. -/
def exponentValue : List Char → Option ℤ
  | [] => some 0
  | c :: rest =>
    let (negative, digits) := splitSign rest
    if (c = 'e' ∨ c = 'E') ∧ isDigits digits then
      some (if negative then -(digitsValue digits : ℤ) else digitsValue digits)
    else none

/-- What an unsigned decimal numeral is worth: digits, with a point before, among or behind them. -/
def unsignedValue (s : List Char) : Option ℚ :=
  let whole := s.takeWhile Char.isDigit
  match s.dropWhile Char.isDigit with
  | '.' :: rest =>
    let fraction := rest.takeWhile Char.isDigit
    if whole.isEmpty && fraction.isEmpty then none
    else (exponentValue (rest.dropWhile Char.isDigit)).map fun e =>
      (digitsValue (whole ++ fraction) : ℚ) * 10 ^ (e - (fraction.length : ℤ))
  | rest =>
    if whole.isEmpty then none
    else (exponentValue rest).map fun e => (digitsValue whole : ℚ) * 10 ^ e

/-- What a decimal numeral is worth. -/
def numeralValue (s : List Char) : Option ℚ :=
  let (negative, body) := splitSign s
  (unsignedValue body).map (signed negative)

/-- What `f64::from_str` reads. -/
inductive ParsedFloat where
  | finite (q : ℚ)
  | infinite
  | nan
  deriving DecidableEq, Repr

/-- `str::parse::<f64>`. -/
def parseF64 (s : List Char) : Option ParsedFloat :=
  let word := String.ofList (splitSign s).2
  if eqIgnoreAsciiCase word "inf" ∨ eqIgnoreAsciiCase word "infinity" then some .infinite
  else if eqIgnoreAsciiCase word "nan" then some .nan
  else (numeralValue s).map fun v =>
    match BinaryFormat.binary64.round? v with
    | some r => .finite r
    | none => .infinite

/-! ## Strings -/

/-- `f as i64`, of an integral float: it saturates. -/
def castI64 (f : ℚ) : ℤ := min (max ⌊f⌋ (-2 ^ 63)) (2 ^ 63 - 1)

/-- `coerce_str_to_integer`. -/
def coerceStrToInteger (s : String) : Option ℤ :=
  let trimmed := rustTrim s.toList
  if trimmed.isEmpty then none
  else
    match parseI64 trimmed with
    | some i => some i
    | none =>
      match parseF64 trimmed with
      -- both bounds are `i64`'s as doubles, so the upper one is `2 ^ 63`
      | some (.finite f) => if f.den = 1 ∧ -2 ^ 63 ≤ f ∧ f ≤ 2 ^ 63 then some (castI64 f) else none
      | _ => none

/-- `coerce_str_to_number`. -/
def coerceStrToNumber (s : String) : Option ℚ :=
  let trimmed := rustTrim s.toList
  if trimmed.isEmpty then none
  else
    match parseF64 trimmed with
    | some (.finite f) => some f
    | _ => none

/-- `coerce_str_to_bool`. -/
def coerceStrToBool (s : String) : Option Bool :=
  if s = "true" then some true
  else if s = "false" then some false
  else none

/-! ## Exactness -/

theorem dropWhile_eq_nil_of_all {p : Char → Bool} {s : List Char} (h : s.all p = true) :
    s.dropWhile p = [] := List.dropWhile_eq_nil_iff.mpr (List.all_eq_true.mp h)

theorem takeWhile_eq_self_of_all {p : Char → Bool} {s : List Char} (h : s.all p = true) :
    s.takeWhile p = s := List.takeWhile_eq_self_iff.mpr (List.all_eq_true.mp h)

theorem unsignedValue_digits {digits : List Char} (h : isDigits digits = true) :
    unsignedValue digits = some (digitsValue digits : ℚ) := by
  obtain ⟨hne, hall⟩ := Bool.and_eq_true_iff.mp h
  unfold unsignedValue
  rw [dropWhile_eq_nil_of_all hall, takeWhile_eq_self_of_all hall]
  dsimp only
  rw [if_neg (by simpa using hne)]
  simp [exponentValue]

/-- What is read as an integer is a numeral of that value. -/
theorem numeralValue_of_parseI64 {s : List Char} {n : ℤ} (h : parseI64 s = some n) :
    numeralValue s = some (n : ℚ) := by
  unfold parseI64 at h
  unfold numeralValue
  cases hsplit : splitSign s with
  | mk negative digits =>
    rw [hsplit] at h
    dsimp only at h ⊢
    by_cases hdigits : isDigits digits = true
    · rw [if_pos hdigits] at h
      obtain ⟨-, hsome⟩ := Option.ite_none_right_eq_some.mp h
      obtain rfl := Option.some.inj hsome
      rw [unsignedValue_digits hdigits, Option.map_some]
      cases negative with
      | false => rfl
      | true =>
        show some (-(digitsValue digits : ℚ)) = _
        rw [if_pos rfl, Int.cast_neg, Int.cast_natCast]
    · rw [if_neg hdigits] at h
      cases h

/-- `2 ^ 63 - 1` is rounded up to `2 ^ 63`. -/
theorem round?_maxI64 : BinaryFormat.binary64.round? (2 ^ 63 - 1) = some (2 ^ 63) := by
  have hcast : (2 ^ 63 - 1 : ℚ) = ((2 ^ 63 - 1 : ℕ) : ℚ) := by norm_num
  have hlog : Int.log 2 |(2 ^ 63 - 1 : ℚ)| = 62 := by
    rw [hcast, Nat.abs_cast, Int.log_natCast, Nat.log_eq_of_pow_le_of_lt_pow (m := 62)] <;> norm_num
  have hlast : BinaryFormat.binary64.lastBit (2 ^ 63 - 1) = 10 := by
    unfold BinaryFormat.lastBit
    rw [hlog]
    rfl
  have hround : BinaryFormat.roundHalfEven ((2 ^ 63 - 1) / 2 ^ (10 : ℤ)) = 2 ^ 53 := by
    have hfloor : ⌊(2 ^ 63 - 1 : ℚ) / 2 ^ (10 : ℤ)⌋ = 2 ^ 53 - 1 := by
      rw [Int.floor_eq_iff]
      constructor <;> norm_num
    unfold BinaryFormat.roundHalfEven
    rw [hfloor]
    norm_num
  have hvalue : (((2 : ℤ) ^ 53 : ℤ) : ℚ) * 2 ^ (10 : ℤ) = 2 ^ 63 := by norm_num
  have hlt : |(((2 : ℤ) ^ 53 : ℤ) : ℚ) * 2 ^ (10 : ℤ)| <
      2 ^ (BinaryFormat.binary64.maxExp + (BinaryFormat.binary64.precision : ℤ)) := by
    rw [hvalue, abs_of_pos (by positivity), ← zpow_natCast]
    exact zpow_lt_zpow_right₀ one_lt_two (by decide)
  rw [BinaryFormat.round?_eq hlast hround hlt, hvalue]

theorem toLower_of_isDigit {c : Char} (h : c.isDigit = true) : c.toLower = c := by
  have hle : c.val ≤ '9'.val := of_decide_eq_true (Bool.and_eq_true_iff.mp h).2
  refine dif_neg fun hupper => ?_
  exact absurd (UInt32.le_trans hupper.1 hle) (by decide)

/-- A word that starts with a letter is no numeral. -/
theorem unsignedValue_of_word {s : List Char} {c : Char} {w : String}
    (hw : (w.toList.map Char.toLower).head? = some c) (hdigit : c.isDigit = false) (hpoint : c ≠ '.')
    (h : eqIgnoreAsciiCase (String.ofList s) w = true) : unsignedValue s = none := by
  have hmap : s.map Char.toLower = w.toList.map Char.toLower := by
    simpa [eqIgnoreAsciiCase] using h
  rw [← hmap, List.head?_map] at hw
  cases s with
  | nil => rfl
  | cons first rest =>
    have hfirst : first.toLower = c := Option.some.inj hw
    have hnot : first.isDigit = false := by
      rw [← Bool.not_eq_true]
      intro hd
      rw [toLower_of_isDigit hd] at hfirst
      exact Bool.false_ne_true (hdigit.symm.trans (hfirst ▸ hd))
    have hne : first ≠ '.' := by
      rintro rfl
      exact hpoint hfirst.symm
    unfold unsignedValue
    rw [List.takeWhile_cons_of_neg (by simp [hnot]), List.dropWhile_cons_of_neg (by simp [hnot])]
    dsimp only
    split
    · next heq => exact absurd (List.cons.inj heq).1 hne
    · rfl

theorem unsignedValue_of_isWord {s : List Char} {w : String} (hw : w ∈ ["inf", "infinity", "nan"])
    (h : eqIgnoreAsciiCase (String.ofList s) w = true) : unsignedValue s = none := by
  simp only [List.mem_cons, List.not_mem_nil, or_false] at hw
  rcases hw with rfl | rfl | rfl
  · exact unsignedValue_of_word (c := 'i') rfl rfl (by decide) h
  · exact unsignedValue_of_word (c := 'i') rfl rfl (by decide) h
  · exact unsignedValue_of_word (c := 'n') rfl rfl (by decide) h

/-- A finite float is read off a numeral, and is what it rounds to. -/
theorem parseF64_eq_finite {s : List Char} {r : ℚ} : parseF64 s = some (.finite r) ↔
    ∃ v, numeralValue s = some v ∧ BinaryFormat.binary64.round? v = some r := by
  have hword : ∀ {w : String}, w ∈ ["inf", "infinity", "nan"] →
      eqIgnoreAsciiCase (String.ofList (splitSign s).2) w = true → numeralValue s = none := by
    intro w hw h
    show (unsignedValue (splitSign s).2).map (signed (splitSign s).1) = none
    rw [unsignedValue_of_isWord hw h, Option.map_none]
  have hnone : numeralValue s = none →
      ¬∃ v, numeralValue s = some v ∧ BinaryFormat.binary64.round? v = some r := by
    rintro h ⟨v, hv, -⟩
    exact absurd (h.symm.trans hv).symm (Option.some_ne_none v)
  unfold parseF64
  dsimp only
  by_cases hinf : eqIgnoreAsciiCase (String.ofList (splitSign s).2) "inf" = true ∨
      eqIgnoreAsciiCase (String.ofList (splitSign s).2) "infinity" = true
  · rw [if_pos hinf]
    refine iff_of_false (fun h => ?_) (hnone ?_)
    · cases Option.some.inj h
    · exact hinf.elim (hword (by decide)) (hword (by decide))
  by_cases hnan : eqIgnoreAsciiCase (String.ofList (splitSign s).2) "nan" = true
  · rw [if_neg hinf, if_pos hnan]
    refine iff_of_false (fun h => ?_) (hnone (hword (by decide) hnan))
    cases Option.some.inj h
  rw [if_neg hinf, if_neg hnan]
  cases numeralValue s with
  | none => exact iff_of_false (fun h => by cases h) (by rintro ⟨v, hv, -⟩; cases hv)
  | some v =>
    rw [Option.map_some]
    cases hround : BinaryFormat.binary64.round? v with
    | none =>
      refine iff_of_false (fun h => ?_) ?_
      · cases Option.some.inj h
      · rintro ⟨v', hv, hr⟩
        cases hv
        rw [hround] at hr
        cases hr
    | some r' =>
      constructor
      · intro h
        cases Option.some.inj h
        exact ⟨v, rfl, hround⟩
      · rintro ⟨v', hv, hr⟩
        cases hv
        rw [hround] at hr
        rw [Option.some.inj hr]

/-- The floats that are taken for integers. -/
def InI64Range (f : ℚ) : Prop := f.den = 1 ∧ -2 ^ 63 ≤ f ∧ f ≤ 2 ^ 63

/-- A saturating cast is exact but for its upper bound. -/
theorem castI64_of_inRange {f : ℚ} (h : InI64Range f) :
    ((castI64 f : ℤ) : ℚ) = if f = 2 ^ 63 then 2 ^ 63 - 1 else f := by
  obtain ⟨hden, hlow, hhigh⟩ := h
  obtain ⟨n, rfl⟩ : ∃ n : ℤ, (n : ℚ) = f := ⟨f.num, (Rat.den_eq_one_iff f).mp hden⟩
  have hlow' : -2 ^ 63 ≤ n := by exact_mod_cast hlow
  have hhigh' : n ≤ 2 ^ 63 := by exact_mod_cast hhigh
  unfold castI64
  rw [Int.floor_intCast, max_eq_left hlow']
  split
  · next heq =>
    have hn : n = 2 ^ 63 := by exact_mod_cast heq
    rw [hn]
    norm_num
  · next hne =>
    have hn : n ≠ 2 ^ 63 := fun hn => hne (by rw [hn]; norm_num)
    rw [min_eq_left (by omega)]

/-- What the integer is of a string that is not read as one at once. -/
theorem coerceStrToInteger_eq {s : String} {n : ℤ} (hint : parseI64 (rustTrim s.toList) = none) :
    coerceStrToInteger s = some n ↔ ∃ v f, numeralValue (rustTrim s.toList) = some v ∧
      BinaryFormat.binary64.round? v = some f ∧ InI64Range f ∧ castI64 f = n := by
  unfold coerceStrToInteger
  dsimp only
  by_cases hempty : (rustTrim s.toList).isEmpty = true
  · rw [if_pos hempty, List.isEmpty_iff.mp hempty]
    refine iff_of_false (fun h => by cases h) ?_
    rintro ⟨v, f, hv, -⟩
    cases hv
  rw [if_neg hempty, hint]
  dsimp only
  constructor
  · intro h
    split at h
    · next f hf =>
      obtain ⟨v, hv, hround⟩ := parseF64_eq_finite.mp hf
      obtain ⟨hrange, hcast⟩ := Option.ite_none_right_eq_some.mp h
      exact ⟨v, f, hv, hround, hrange, Option.some.inj hcast⟩
    · cases h
  · rintro ⟨v, f, hv, hround, hrange, rfl⟩
    rw [parseF64_eq_finite.mpr ⟨v, hv, hround⟩]
    exact if_pos hrange

/-- A numeral whose integer is what it is worth: an integer of sixty-four bits, a numeral with no float
in that range, a float below `2 ^ 63`, or `2 ^ 63 - 1` (for which the cast saturates). -/
def ReadExactly (numeral : List Char) : Prop :=
  (parseI64 numeral).isSome ∨ ∀ v, numeralValue numeral = some v →
    (∀ f, BinaryFormat.binary64.round? v = some f → ¬InI64Range f) ∨
      (BinaryFormat.binary64.Representable v ∧ v ≠ 2 ^ 63) ∨ v = 2 ^ 63 - 1

/-- The integer of a string is what it is worth if and only if its numeral is one of these. -/
theorem coerceStrToInteger_exact_iff (s : String) :
    (∀ n, coerceStrToInteger s = some n → numeralValue (rustTrim s.toList) = some (n : ℚ)) ↔
      ReadExactly (rustTrim s.toList) := by
  cases hint : parseI64 (rustTrim s.toList) with
  | some i =>
    refine iff_of_true (fun n hn => ?_) (.inl (by rw [hint]; rfl))
    unfold coerceStrToInteger at hn
    dsimp only at hn
    rw [hint] at hn
    obtain ⟨-, hsome⟩ := Option.ite_none_left_eq_some.mp hn
    obtain rfl := Option.some.inj hsome
    exact numeralValue_of_parseI64 hint
  | none =>
    constructor
    · refine fun hexact => .inr fun v hv => or_iff_not_imp_left.mpr fun hrounds => ?_
      push Not at hrounds
      obtain ⟨f, hround, hrange⟩ := hrounds
      have hvalue := hexact _ ((coerceStrToInteger_eq hint).mpr ⟨v, f, hv, hround, hrange, rfl⟩)
      have hcast := Option.some.inj (hv.symm.trans hvalue)
      rw [castI64_of_inRange hrange] at hcast
      by_cases hmax : f = 2 ^ 63
      · exact .inr (hcast.trans (if_pos hmax))
      · obtain rfl := hcast.trans (if_neg hmax)
        exact .inl ⟨BinaryFormat.representable_of_round? hround, hmax⟩
    · rintro (hsome | hvalues) n hn
      · rw [hint] at hsome
        cases hsome
      · obtain ⟨v, f, hv, hround, hrange, rfl⟩ := (coerceStrToInteger_eq hint).mp hn
        rw [hv, castI64_of_inRange hrange]
        rcases hvalues v hv with hnone | ⟨hrep, hne⟩ | rfl
        · exact absurd hrange (hnone f hround)
        · obtain rfl := Option.some.inj ((BinaryFormat.round?_of_representable hrep).symm.trans hround)
          rw [if_neg hne]
        · obtain rfl := Option.some.inj (round?_maxI64.symm.trans hround)
          rw [if_pos rfl]

/-- `2 ^ 53 + 1` is rounded to `2 ^ 53`. -/
theorem round?_oddAbovePrecision :
    BinaryFormat.binary64.round? 9007199254740993 = some 9007199254740992 := by
  have hlog : Int.log 2 |(9007199254740993 : ℚ)| = 53 := by
    have hcast : (9007199254740993 : ℚ) = ((9007199254740993 : ℕ) : ℚ) := by norm_num
    rw [hcast, Nat.abs_cast, Int.log_natCast, Nat.log_eq_of_pow_le_of_lt_pow (m := 53)] <;> norm_num
  have hlast : BinaryFormat.binary64.lastBit 9007199254740993 = 1 := by
    unfold BinaryFormat.lastBit
    rw [hlog]
    rfl
  have hround : BinaryFormat.roundHalfEven (9007199254740993 / 2 ^ (1 : ℤ)) = 4503599627370496 := by
    have hfloor : ⌊(9007199254740993 : ℚ) / 2 ^ (1 : ℤ)⌋ = 4503599627370496 := by
      rw [Int.floor_eq_iff]
      constructor <;> norm_num
    unfold BinaryFormat.roundHalfEven
    rw [hfloor]
    norm_num
  have hvalue : (((4503599627370496 : ℤ)) : ℚ) * 2 ^ (1 : ℤ) = 9007199254740992 := by norm_num
  have hlt : |(((4503599627370496 : ℤ)) : ℚ) * 2 ^ (1 : ℤ)| <
      2 ^ (BinaryFormat.binary64.maxExp + (BinaryFormat.binary64.precision : ℤ)) := by
    rw [hvalue]
    calc |(9007199254740992 : ℚ)| < 2 ^ 64 := by norm_num
      _ = 2 ^ (64 : ℤ) := (zpow_natCast 2 64).symm
      _ < _ := zpow_lt_zpow_right₀ one_lt_two (by decide)
  rw [BinaryFormat.round?_eq hlast hround hlt, hvalue]

/-- One above the largest integer is read as the largest, and a numeral above the precision of a float
as its neighbour. -/
theorem coerceStrToInteger_inexact :
    (¬∀ n, coerceStrToInteger "9223372036854775808" = some n →
      numeralValue (rustTrim "9223372036854775808".toList) = some (n : ℚ)) ∧
    ¬∀ n, coerceStrToInteger "9007199254740993.0" = some n →
      numeralValue (rustTrim "9007199254740993.0".toList) = some (n : ℚ) := by
  constructor
  · have hvalue : numeralValue (rustTrim "9223372036854775808".toList) = some 9223372036854775808 := by
      show some ((9223372036854775808 : ℚ) * 10 ^ (0 : ℤ)) = _
      norm_num
    have hround : BinaryFormat.binary64.round? 9223372036854775808 = some 9223372036854775808 :=
      BinaryFormat.round?_of_representable ⟨2 ^ 52, 11, by decide, by decide, by decide, by norm_num⟩
    have hread : coerceStrToInteger "9223372036854775808" = some 9223372036854775807 :=
      (coerceStrToInteger_eq rfl).mpr ⟨_, _, hvalue, hround, by
        refine ⟨rfl, ?_, ?_⟩ <;> norm_num, by unfold castI64; norm_num⟩
    intro h
    have := Option.some.inj (hvalue.symm.trans (h _ hread))
    norm_num at this
  · have hvalue : numeralValue (rustTrim "9007199254740993.0".toList) = some 9007199254740993 := by
      show some ((90071992547409930 : ℚ) * 10 ^ (-1 : ℤ)) = _
      norm_num
    have hread : coerceStrToInteger "9007199254740993.0" = some 9007199254740992 :=
      (coerceStrToInteger_eq rfl).mpr ⟨_, _, hvalue, round?_oddAbovePrecision, by
        refine ⟨rfl, ?_, ?_⟩ <;> norm_num, by unfold castI64; norm_num⟩
    intro h
    have := Option.some.inj (hvalue.symm.trans (h _ hread))
    norm_num at this

end Apcore
