import Apcore.Json

/-! # `Schema.Pointer` — JSON pointers

`serde_json::Value::pointer`, on character lists. -/

namespace Apcore

/-- `token.replace("~1", "/").replace("~0", "~")`, one replacement at a time. -/
def replaceEscape (digit char : Char) : List Char → List Char
  | '~' :: c :: rest =>
    if c = digit then char :: replaceEscape digit char rest
    else '~' :: replaceEscape digit char (c :: rest)
  | c :: rest => c :: replaceEscape digit char rest
  | [] => []

/-- A token of a pointer, unescaped. -/
def unescapeToken (token : List Char) : String :=
  String.ofList (replaceEscape '0' '~' (replaceEscape '1' '/' token))

/-- The tokens of a pointer: none of one that is not empty and does not start with a slash. -/
def pointerTokens (pointer : String) : Option (List String) :=
  match pointer.toList with
  | [] => some []
  | '/' :: rest => some ((rest.splitOn '/').map unescapeToken)
  | _ => none

/-- `parse_index`: decimal digits without a leading zero. -/
def parseIndex (token : String) : Option Nat :=
  let digits := token.toList
  if digits.isEmpty ∨ (digits.head? = some '0' ∧ digits.length ≠ 1) then none
  else if digits.all Char.isDigit then
    some (digits.foldl (fun n c => 10 * n + (c.toNat - '0'.toNat)) 0)
  else none

/-- A number that is not zero is written without a leading zero. -/
theorem head?_toDigits {n : Nat} (h : 0 < n) : (Nat.toDigits 10 n).head? ≠ some '0' := by
  induction n using Nat.strong_induction_on with
  | _ n ih =>
    by_cases hlt : n < 10
    · have hdigit : ∀ n < 10, 0 < n → [n.digitChar].head? ≠ some '0' := by decide
      rw [Nat.toDigits_of_lt_base hlt]
      exact hdigit n hlt h
    · rw [Nat.toDigits_of_base_le (by decide) (by omega),
        List.head?_append_of_ne_nil _ Nat.toDigits_ne_nil]
      exact ih (n / 10) (by omega) (by omega)

/-- A number is read back from the way it is printed. -/
theorem parseIndex_toString (n : Nat) : parseIndex (toString n) = some n := by
  have hlist : (toString n).toList = Nat.toDigits 10 n := by
    rw [Nat.toString_eq_repr, Nat.toList_repr]
  unfold parseIndex
  dsimp only
  rw [hlist]
  have hplain : ¬ ((Nat.toDigits 10 n).isEmpty = true ∨
      (Nat.toDigits 10 n).head? = some '0' ∧ (Nat.toDigits 10 n).length ≠ 1) := by
    rintro (hempty | ⟨hhead, hlength⟩)
    · exact Nat.toDigits_ne_nil (List.isEmpty_iff.mp hempty)
    · rcases Nat.eq_zero_or_pos n with rfl | hpos
      · exact hlength rfl
      · exact head?_toDigits hpos hhead
  have hdigits : (Nat.toDigits 10 n).all Char.isDigit = true :=
    List.all_eq_true.mpr fun c hc => Nat.isDigit_of_mem_toDigits (by decide) (by decide) hc
  rw [if_neg hplain, if_pos hdigits]
  exact congrArg some Nat.ofDigitChars_ten_toDigits

theorem replaceEscape_of_not_mem {digit char : Char} {token : List Char} (h : '~' ∉ token) :
    replaceEscape digit char token = token := by
  induction token with
  | nil => rfl
  | cons c rest ih =>
    have hc : c ≠ '~' := fun heq => h (heq ▸ List.mem_cons_self)
    have hrest := ih fun hmem => h (List.mem_cons_of_mem _ hmem)
    rw [replaceEscape.eq_2 _ _ _ _ fun _ _ heq _ => hc heq, hrest]

/-- A token without a tilde stands for itself. -/
theorem unescapeToken_of_not_mem {token : List Char} (h : '~' ∉ token) :
    unescapeToken token = String.ofList token := by
  unfold unescapeToken
  rw [replaceEscape_of_not_mem h, replaceEscape_of_not_mem h]

/-- A pointer of tokens that need no escape. -/
theorem pointerTokens_flatMap {tokens : List String} (hne : tokens ≠ [])
    (hslash : ∀ token ∈ tokens, '/' ∉ token.toList) (htilde : ∀ token ∈ tokens, '~' ∉ token.toList) :
    pointerTokens (String.ofList (tokens.flatMap fun token => '/' :: token.toList)) = some tokens := by
  have hjoin : ∀ (token : String) (rest : List String),
      (token :: rest).flatMap (fun token => '/' :: token.toList) =
        '/' :: ['/'].intercalate ((token :: rest).map String.toList) := by
    intro token rest
    induction rest generalizing token with
    | nil => simp
    | cons next rest ih =>
      rw [List.flatMap_cons, ih, List.map_cons, List.map_cons, List.map_cons, List.intercalate_cons_cons]
      simp
  cases tokens with
  | nil => exact absurd rfl hne
  | cons token rest =>
    have hsplit : (['/'].intercalate ((token :: rest).map String.toList)).splitOn '/' =
        (token :: rest).map String.toList := by
      refine List.splitOn_intercalate '/' (fun l hl => ?_) (List.cons_ne_nil _ _)
      obtain ⟨token', htoken', rfl⟩ := List.mem_map.mp hl
      exact hslash token' htoken'
    unfold pointerTokens
    rw [String.toList_ofList, hjoin]
    show some ((['/'].intercalate ((token :: rest).map String.toList)).splitOn '/' |>.map unescapeToken) = _
    rw [hsplit, List.map_map]
    refine congrArg some ((List.map_congr_left fun token' htoken' => ?_).trans (List.map_id _))
    exact (unescapeToken_of_not_mem (htilde token' htoken')).trans String.ofList_toList

namespace Json

/-- What one token of a pointer selects. -/
def child? (v : Json) (token : String) : Option Json :=
  match v with
  | .object fields => Fields.get? fields token
  | .array elems => (parseIndex token).bind (elems[·]?)
  | _ => none

/-- What a list of tokens selects. -/
def at? (v : Json) (tokens : List String) : Option Json := tokens.foldlM child? v

/-- `value.pointer(pointer)`. -/
def pointer (v : Json) (pointer : String) : Option Json := (pointerTokens pointer).bind v.at?

theorem at?_cons (v : Json) (token : String) (tokens : List String) :
    v.at? (token :: tokens) = (v.child? token).bind (·.at? tokens) := rfl

example : (Json.object [("a/b", .array [.null, .bool true])]).pointer "/a~1b/1" = some (.bool true) :=
  rfl

end Json

end Apcore
