import Apcore.Registry.Ids
import Apcore.Text

/-! # `Names` — canonical names and ids

`to_snake_case` leaves a text without capitals as it is, and that is why both rewrites built on it
change nothing the second time: neither a canonical name nor an id in the canonical grammar has a
capital. -/

namespace Apcore

/-! ## Snake case -/

/-- `to_snake_case` puts an underscore between two characters. -/
def snakeBoundary (prev c : Char) (next : Option Char) : Bool :=
  if (prev.isLower || prev.isDigit) && c.isUpper then true
  else prev.isUpper && c.isUpper && next.any Char.isLower

/-- The loop of `to_snake_case`, behind the character `prev`. -/
def snakeChars : Option Char → List Char → List Char
  | _, [] => []
  | prev, c :: rest =>
    if prev.any (snakeBoundary · c rest.head?) then '_' :: c.toLower :: snakeChars (some c) rest
    else c.toLower :: snakeChars (some c) rest

/-- `to_snake_case`. -/
def toSnakeCase (segment : List Char) : List Char :=
  if segment.any Char.isUpper then snakeChars none segment else segment

/-! ## Canonical names -/

/-- `CanonicalNameError`. -/
inductive CanonicalNameError where
  | emptyName | nonAscii | invalidStart | nameTooLong
  deriving DecidableEq, Repr

/-- `CanonicalNameResult`. -/
structure CanonicalNameResult where
  originalName : String
  canonicalName : Option String
  error : Option CanonicalNameError
  deriving DecidableEq, Repr

/-- A character that `trim_matches` and `replace_separator_runs` take for a separator. -/
def isSeparator (c : Char) : Bool := !c.isAlphanum && c != '_'

/-- `replace_separator_runs`, inside a run of separators or not. -/
def replaceSeparatorRuns : Bool → List Char → List Char
  | _, [] => []
  | inSeparator, c :: rest =>
    if c.isAlphanum || c == '_' then c :: replaceSeparatorRuns false rest
    else if !inSeparator then '_' :: replaceSeparatorRuns true rest
    else replaceSeparatorRuns true rest

/-- What `canonicalize_name` finds wrong with a candidate. -/
def candidateError : List Char → Option CanonicalNameError
  | [] => some .emptyName
  | c :: rest =>
    if !c.isLower then some .invalidStart
    else if (c :: rest).length > 192 then some .nameTooLong
    else none

/-- The candidate of `canonicalize_name`. -/
def candidate (name : String) : List Char :=
  replaceSeparatorRuns false (toSnakeCase (trimMatches isSeparator name.toList))

/-- `canonicalize_name`. -/
def canonicalizeName (name : String) : CanonicalNameResult :=
  let result : CanonicalNameResult :=
    { originalName := name, canonicalName := none, error := none }
  if !name.toList.all fun c => c.toNat < 128 then { result with error := some .nonAscii }
  else
    match candidateError (candidate name) with
    | some error => { result with error := some error }
    | none => { result with canonicalName := some (String.ofList (candidate name)) }

/-! ## Canonical ids -/

/-- The parts of a text between the occurrences of a separator; `skip` is how many characters of an
occurrence are still to be passed over. -/
def splitFrom (separator : List Char) : Nat → List Char → List (List Char)
  | _, [] => [[]]
  | skip + 1, _ :: rest => splitFrom separator skip rest
  | 0, c :: rest =>
    if separator.isPrefixOf (c :: rest) then [] :: splitFrom separator (separator.length - 1) rest
    else (splitFrom separator 0 rest).modifyHead (c :: ·)

/-- `text.split(separator)`, of a separator that is not empty. -/
def splitText (separator text : List Char) : List (List Char) := splitFrom separator 0 text

/-- `SUPPORTED_LANGUAGES`. -/
def supportedLanguages : List (String × String) :=
  [("python", "."), ("rust", "::"), ("go", "."), ("java", "."), ("typescript", ".")]

/-- `separator_for_language`. -/
def separatorForLanguage (language : String) : Option String :=
  (supportedLanguages.find? (·.1 == language)).map (·.2)

/-- The candidate of `normalize_to_canonical_id`. -/
def canonicalIdChars (separator localId : String) : List Char :=
  List.intercalate ['.'] ((splitText separator.toList localId.toList).map toSnakeCase)

/-- `normalize_to_canonical_id`; the pattern it compiles is `MODULE_ID_PATTERN`. -/
def normalizeToCanonicalId (localId language : String) : Except ModuleError String :=
  if localId = "" then .error (.new .generalInvalidInput "local_id must be a non-empty string")
  else
    match separatorForLanguage language with
    | none => .error (.new .generalInvalidInput
        ("Unsupported language '" ++ language ++ "'. Must be one of: " ++
          ", ".intercalate (supportedLanguages.map (·.1))))
    | some separator =>
      let canonicalId := String.ofList (canonicalIdChars separator localId)
      if !matchesIdPattern false canonicalId.toList then .error (.new .generalInvalidInput
        ("Normalized ID '" ++ canonicalId ++ "' (from '" ++ localId ++ "', language='" ++ language ++
          "') does not conform to Canonical ID grammar"))
      else .ok canonicalId

example : (canonicalizeName "cat-file").canonicalName = some "cat_file" := by decide +kernel
example : (canonicalizeName "7z").error = some .invalidStart := by decide +kernel

/-! ## Grammars -/

/-- A character of a canonical name. -/
def IsNameChar (c : Char) : Prop := c.isLower = true ∨ c.isDigit = true ∨ c = '_'

/-- A lower-case letter, and then characters of a name. -/
def IsSegment (s : List Char) : Prop :=
  ∃ c rest, s = c :: rest ∧ c.isLower = true ∧ ∀ d ∈ rest, IsNameChar d

/-- A segment of at most 192 characters. -/
def IsCanonicalName (name : String) : Prop := IsSegment name.toList ∧ name.toList.length ≤ 192

/-- The canonical grammar of ids: segments with dots between them. -/
def InIdGrammar (id : String) : Prop := ∀ segment ∈ id.toList.splitOn '.', IsSegment segment

section Grammar

variable {s segment : List Char} {separator : List Char}

theorem IsNameChar.not_isUpper {c : Char} (h : IsNameChar c) : c.isUpper = false := by
  rcases h with h | h | rfl
  · exact not_isUpper_of_isLower h
  · exact not_isUpper_of_isDigit h
  · decide

theorem IsNameChar.not_separator {c : Char} (h : IsNameChar c) : (c.isAlphanum || c == '_') = true := by
  rcases h with h | h | rfl
  · show ((c.isUpper || c.isLower) || c.isDigit || _) = true
    rw [h, Bool.or_true, Bool.true_or, Bool.true_or]
  · show (_ || c.isDigit || _) = true
    rw [h, Bool.or_true, Bool.true_or]
  · decide

theorem IsSegment.chars (h : IsSegment s) : ∀ c ∈ s, IsNameChar c := by
  obtain ⟨c, rest, rfl, hc, hrest⟩ := h
  intro d hd
  rcases List.mem_cons.mp hd with rfl | hd
  · exact .inl hc
  · exact hrest d hd

/-- Without capitals there is nothing to convert. -/
theorem toSnakeCase_of_lower (h : ∀ c ∈ s, c.isUpper = false) : toSnakeCase s = s := by
  rw [toSnakeCase, if_neg]
  simpa using h

/-- No capital is left. -/
theorem not_isUpper_of_mem_toSnakeCase {c : Char} (h : c ∈ toSnakeCase s) : c.isUpper = false := by
  have hloop : ∀ prev, c ∈ snakeChars prev s → c.isUpper = false := by
    clear h
    induction s with
    | nil => simp [snakeChars]
    | cons d s ih =>
      intro prev h
      rw [snakeChars] at h
      split_ifs at h
      · rcases List.mem_cons.mp h with rfl | h
        · decide
        rcases List.mem_cons.mp h with rfl | h
        · exact not_isUpper_toLower d
        · exact ih _ h
      · rcases List.mem_cons.mp h with rfl | h
        · exact not_isUpper_toLower d
        · exact ih _ h
  rw [toSnakeCase] at h
  split_ifs at h with hupper
  · exact hloop none h
  · rw [Bool.not_eq_true, List.any_eq_false] at hupper
    exact Bool.not_eq_true _ ▸ hupper c h

/-- Characters of names are none of the separators. -/
theorem replaceSeparatorRuns_of_names (h : ∀ c ∈ s, IsNameChar c) (inSeparator : Bool) :
    replaceSeparatorRuns inSeparator s = s := by
  induction s generalizing inSeparator with
  | nil => rfl
  | cons c s ih =>
    rw [replaceSeparatorRuns, if_pos (h c List.mem_cons_self).not_separator,
      ih fun d hd => h d (List.mem_cons_of_mem _ hd)]

/-- What is left has letters, digits and underscores only, and no capital that was not there. -/
theorem mem_replaceSeparatorRuns {c : Char} {inSeparator : Bool}
    (h : c ∈ replaceSeparatorRuns inSeparator s) : c = '_' ∨ c ∈ s ∧ c.isAlphanum = true := by
  induction s generalizing inSeparator with
  | nil => cases h
  | cons d s ih =>
    have hrest {inSeparator : Bool} (h : c ∈ replaceSeparatorRuns inSeparator s) :
        c = '_' ∨ c ∈ d :: s ∧ c.isAlphanum = true :=
      (ih h).imp_right fun hboth => ⟨List.mem_cons_of_mem _ hboth.1, hboth.2⟩
    rw [replaceSeparatorRuns] at h
    split_ifs at h with hkeep
    · rcases List.mem_cons.mp h with rfl | h
      · rcases Bool.or_eq_true_iff.mp hkeep with halnum | hscore
        · exact .inr ⟨List.mem_cons_self, halnum⟩
        · exact .inl (beq_iff_eq.mp hscore)
      · exact hrest h
    · rcases List.mem_cons.mp h with rfl | h
      · exact .inl rfl
      · exact hrest h
    · exact hrest h

/-- A candidate has characters of names only. -/
theorem isNameChar_of_mem_candidate {name : String} {c : Char} (h : c ∈ candidate name) :
    IsNameChar c := by
  rcases mem_replaceSeparatorRuns h with hscore | ⟨hmem, halnum⟩
  · exact .inr (.inr hscore)
  · have hsmall := not_isUpper_of_mem_toSnakeCase hmem
    replace halnum : ((c.isUpper || c.isLower) || c.isDigit) = true := halnum
    rw [hsmall, Bool.false_or, Bool.or_eq_true] at halnum
    exact halnum.imp_right .inl

/-- The checks of a candidate are those of the grammar. -/
theorem isCanonicalName_of_candidateError {name : String}
    (h : candidateError (candidate name) = none) : IsCanonicalName (String.ofList (candidate name)) := by
  rw [IsCanonicalName, String.toList_ofList]
  cases hcandidate : candidate name with
  | nil =>
    rw [hcandidate] at h
    cases h
  | cons c rest =>
    rw [hcandidate, candidateError] at h
    split_ifs at h with hstart hlong
    refine ⟨⟨c, rest, rfl, by simpa using hstart, fun d hd => ?_⟩, Nat.not_lt.mp hlong⟩
    have hmem : d ∈ candidate name := hcandidate ▸ List.mem_cons_of_mem _ hd
    exact isNameChar_of_mem_candidate hmem

/-- A canonical name is its own candidate. -/
theorem candidate_of_canonical {name : String} (h : IsCanonicalName name) :
    candidate name = name.toList := by
  have hchars := h.1.chars
  have hseparator (c : Char) (hc : c ∈ name.toList) : isSeparator c = false := by
    rw [isSeparator, bne, ← Bool.not_or, (hchars c hc).not_separator, Bool.not_true]
  rw [candidate, trimMatches_of_ends (fun c hc => hseparator c (List.mem_of_mem_head? hc))
      (fun c hc => hseparator c (List.mem_of_getLast? hc)),
    toSnakeCase_of_lower fun c hc => (hchars c hc).not_isUpper,
    replaceSeparatorRuns_of_names hchars]

theorem candidateError_of_canonical {name : String} (h : IsCanonicalName name) :
    candidateError name.toList = none := by
  obtain ⟨⟨c, rest, hname, hstart, -⟩, hlength⟩ := h
  rw [hname] at hlength ⊢
  rw [candidateError, hstart, if_neg (by simp), if_neg (Nat.not_lt.mpr hlength)]

theorem ascii_of_canonical {name : String} (h : IsCanonicalName name) :
    (name.toList.all fun c => c.toNat < 128) = true := by
  rw [List.all_eq_true]
  intro c hc
  rw [decide_eq_true_eq]
  rcases h.1.chars c hc with h | h | rfl
  · exact lt_128_of_isLower h
  · exact lt_128_of_isDigit h
  · decide

/-- A name `canonicalize_name` gives is one, and there is no error then. -/
theorem canonicalizeName_cases (name : String) :
    (∃ error, (canonicalizeName name).canonicalName = none ∧
        (canonicalizeName name).error = some error) ∨
      ∃ canonical, (canonicalizeName name).canonicalName = some canonical ∧
        (canonicalizeName name).error = none ∧ IsCanonicalName canonical := by
  unfold canonicalizeName
  dsimp only
  split_ifs with hascii
  · exact .inl ⟨_, rfl, rfl⟩
  · cases herror : candidateError (candidate name) with
    | some error => exact .inl ⟨error, rfl, rfl⟩
    | none => exact .inr ⟨_, rfl, rfl, isCanonicalName_of_candidateError herror⟩

/-- A canonical name stays as it is. -/
theorem canonicalizeName_of_canonical {name : String} (h : IsCanonicalName name) :
    (canonicalizeName name).canonicalName = some name := by
  unfold canonicalizeName
  rw [ascii_of_canonical h, candidate_of_canonical h, candidateError_of_canonical h,
    String.ofList_toList]
  rfl

/-! ## Ids -/

theorem splitFrom_ne_nil (separator : List Char) (skip : Nat) (s : List Char) :
    splitFrom separator skip s ≠ [] := by
  induction s generalizing skip with
  | nil =>
    cases skip <;> exact List.cons_ne_nil _ _
  | cons c s ih =>
    cases skip with
    | succ skip => exact ih skip
    | zero =>
      rw [splitFrom]
      split_ifs
      · exact List.cons_ne_nil _ _
      · intro hnil
        rw [List.modifyHead_eq_nil_iff] at hnil
        exact ih 0 hnil

/-- The parts put together again with the separator between them are the text. -/
theorem intercalate_splitFrom (hne : separator ≠ []) (skip : Nat) (s : List Char) :
    List.intercalate separator (splitFrom separator skip s) = s.drop skip := by
  induction s generalizing skip with
  | nil => cases skip <;> rfl
  | cons c s ih =>
    cases skip with
    | succ skip => exact ih skip
    | zero =>
      rw [splitFrom, List.drop_zero]
      split_ifs with hseparator
      · rw [List.intercalate_cons_of_ne_nil (splitFrom_ne_nil _ _ _), ih, List.nil_append]
        obtain ⟨left, hleft⟩ := List.isPrefixOf_iff_prefix.mp hseparator
        cases separator with
        | nil => exact absurd rfl hne
        | cons d separator =>
          rw [List.cons_append] at hleft ⊢
          obtain ⟨rfl, rfl⟩ := List.cons_eq_cons.mp hleft
          rw [List.length_cons, Nat.add_sub_cancel, List.drop_left]
      · have hwhole := ih 0
        rw [List.drop_zero] at hwhole
        cases hparts : splitFrom separator 0 s with
        | nil => exact absurd hparts (splitFrom_ne_nil _ _ _)
        | cons part parts =>
          rw [hparts] at hwhole
          rw [List.modifyHead_cons]
          cases parts with
          | nil => rw [List.intercalate_singleton] at hwhole ⊢; rw [hwhole]
          | cons next parts =>
            rw [List.intercalate_cons_cons] at hwhole ⊢
            rw [← hwhole]
            rfl

/-- The parts have characters of the text only. -/
theorem mem_of_mem_splitFrom {skip : Nat} {part : List Char} {c : Char}
    (h : part ∈ splitFrom separator skip s) (hc : c ∈ part) : c ∈ s := by
  induction s generalizing skip part with
  | nil =>
    cases skip <;> · rw [splitFrom, List.mem_singleton] at h; subst h; exact hc
  | cons d s ih =>
    cases skip with
    | succ skip => exact List.mem_cons_of_mem _ (ih h hc)
    | zero =>
      rw [splitFrom] at h
      split_ifs at h
      · rcases List.mem_cons.mp h with rfl | h
        · cases hc
        · exact List.mem_cons_of_mem _ (ih h hc)
      · cases hparts : splitFrom separator 0 s with
        | nil => exact absurd hparts (splitFrom_ne_nil _ _ _)
        | cons first parts =>
          rw [hparts] at h
          have hmem {part : List Char} (h : part ∈ first :: parts) (hc : c ∈ part) : c ∈ d :: s :=
            List.mem_cons_of_mem _ (ih (hparts ▸ h) hc)
          rcases List.mem_cons.mp h with rfl | h
          · rcases List.mem_cons.mp hc with rfl | hc
            · exact List.mem_cons_self
            · exact hmem List.mem_cons_self hc
          · exact hmem (List.mem_cons_of_mem _ h) hc

/-- The pattern of ids says what the grammar says, of an id and of what is left of a segment. -/
theorem matchesIdPattern_iff (s : List Char) :
    (matchesIdPattern false s = true ↔ ∀ segment ∈ s.splitOn '.', IsSegment segment) ∧
      (matchesIdPattern true s = true ↔
        (∀ c ∈ (s.splitOn '.').headD [], IsNameChar c) ∧
          ∀ segment ∈ (s.splitOn '.').tail, IsSegment segment) := by
  induction s with
  | nil => simp [matchesIdPattern, IsSegment]
  | cons c s ih =>
    obtain ⟨first, rest, hsegments⟩ := List.exists_cons_of_ne_nil (List.splitOn_ne_nil '.' s)
    rw [hsegments, List.headD_cons, List.tail_cons] at ih
    rw [List.splitOn_cons_eq_if_modifyHead, hsegments]
    have hdot : ('.' : Char).isLower = false := by decide
    by_cases hc : c = '.'
    · subst hc
      rw [if_pos (beq_self_eq_true _)]
      constructor
      · rw [matchesIdPattern, hdot, Bool.false_and]
        constructor
        · exact fun h => absurd h Bool.false_ne_true
        · intro h
          obtain ⟨c, tail, htail, -⟩ := h [] List.mem_cons_self
          cases htail
      · rw [matchesIdPattern, if_pos (beq_self_eq_true _), ih.1]
        exact ⟨fun h => ⟨fun c hc => absurd hc List.not_mem_nil, h⟩, And.right⟩
    · rw [if_neg (by simpa using hc), List.modifyHead_cons]
      constructor
      · rw [matchesIdPattern, Bool.and_eq_true, ih.2, List.forall_mem_cons, ← and_assoc]
        refine and_congr_left fun _ => ⟨fun h => ⟨c, first, rfl, h.1, h.2⟩, ?_⟩
        rintro ⟨d, tail, hd, hlower, htail⟩
        obtain ⟨rfl, rfl⟩ := List.cons_eq_cons.mp hd
        exact ⟨hlower, htail⟩
      · have hchar : (c.isLower || c.isDigit || c == '_') = true ↔ IsNameChar c := by
          rw [Bool.or_eq_true, Bool.or_eq_true, beq_iff_eq, or_assoc]
          rfl
        rw [matchesIdPattern, if_neg (by simpa using hc), Bool.and_eq_true, hchar, ih.2,
          List.headD_cons, List.tail_cons, List.forall_mem_cons, and_assoc]

theorem matchesIdPattern_iff_grammar (id : String) :
    matchesIdPattern false id.toList = true ↔ InIdGrammar id := (matchesIdPattern_iff id.toList).1

/-- A character is the separator, or in one of the parts. -/
theorem exists_mem_splitOn {c d : Char} (h : d ∈ s) : d = c ∨ ∃ part ∈ s.splitOn c, d ∈ part := by
  induction s with
  | nil => cases h
  | cons a s ih =>
    rw [List.splitOn_cons_eq_if_modifyHead]
    obtain ⟨first, rest, hparts⟩ := List.exists_cons_of_ne_nil (List.splitOn_ne_nil c s)
    by_cases ha : a = c
    · rw [if_pos (by simpa using ha)]
      rcases List.mem_cons.mp h with rfl | h
      · exact .inl ha
      · exact (ih h).imp_right fun ⟨part, hpart, hd⟩ => ⟨part, List.mem_cons_of_mem _ hpart, hd⟩
    · rw [if_neg (by simpa using ha), hparts, List.modifyHead_cons]
      rw [hparts] at ih
      rcases List.mem_cons.mp h with rfl | h
      · exact .inr ⟨_, List.mem_cons_self, List.mem_cons_self⟩
      · refine (ih h).imp_right fun ⟨part, hpart, hd⟩ => ?_
        rcases List.mem_cons.mp hpart with rfl | hpart
        · exact ⟨_, List.mem_cons_self, List.mem_cons_of_mem _ hd⟩
        · exact ⟨part, List.mem_cons_of_mem _ hpart, hd⟩

/-- The characters of an id are those of names, and dots. -/
theorem InIdGrammar.chars {id : String} (h : InIdGrammar id) {c : Char} (hc : c ∈ id.toList) :
    c = '.' ∨ IsNameChar c :=
  (exists_mem_splitOn hc).imp_right fun ⟨part, hpart, hmem⟩ => (h part hpart).chars c hmem

theorem InIdGrammar.not_isUpper {id : String} (h : InIdGrammar id) {c : Char} (hc : c ∈ id.toList) :
    c.isUpper = false := by
  rcases h.chars hc with rfl | hname
  · decide
  · exact hname.not_isUpper

/-- No separator of a supported language is empty. -/
theorem separator_cases {language separator : String}
    (h : separatorForLanguage language = some separator) : separator = "." ∨ separator = "::" := by
  obtain ⟨⟨name, separator'⟩, hfind, rfl⟩ := Option.map_eq_some_iff.mp h
  have hmem := List.mem_of_find?_eq_some hfind
  simp only [supportedLanguages, List.mem_cons, Prod.mk.injEq, List.not_mem_nil, or_false] at hmem
  rcases hmem with ⟨-, rfl⟩ | ⟨-, rfl⟩ | ⟨-, rfl⟩ | ⟨-, rfl⟩ | ⟨-, rfl⟩
  · exact .inl rfl
  · exact .inr rfl
  · exact .inl rfl
  · exact .inl rfl
  · exact .inl rfl

/-- Where the separator does not begin, nothing is split. -/
theorem splitText_of_not_mem {d : Char} (h : d ∉ s) : splitText (d :: separator) s = [s] := by
  unfold splitText
  induction s with
  | nil => rfl
  | cons c s ih =>
    have hne : d ≠ c := fun heq => h (heq ▸ List.mem_cons_self)
    rw [splitFrom, if_neg, ih fun hmem => h (List.mem_cons_of_mem _ hmem), List.modifyHead_cons]
    rw [List.isPrefixOf_iff_prefix, List.cons_prefix_cons]
    exact fun hboth => hne hboth.1

/-- An id in the canonical grammar is its own candidate, whatever the language. -/
theorem canonicalIdChars_of_grammar {id language separator : String} (h : InIdGrammar id)
    (hseparator : separatorForLanguage language = some separator) :
    canonicalIdChars separator id = id.toList := by
  have hparts (parts : List (List Char)) (hmem : ∀ part ∈ parts, ∀ c ∈ part, c ∈ id.toList) :
      parts.map toSnakeCase = parts := by
    have hself : ∀ part ∈ parts, toSnakeCase part = part := fun part hpart =>
      toSnakeCase_of_lower fun c hc => h.not_isUpper (hmem part hpart c hc)
    rw [List.map_congr_left hself, List.map_id']
  rw [canonicalIdChars, hparts (splitText separator.toList id.toList) fun part hpart c hc =>
    mem_of_mem_splitFrom hpart hc]
  rcases separator_cases hseparator with rfl | rfl
  · exact intercalate_splitFrom (List.cons_ne_nil _ _) 0 id.toList
  · have hcolon : ':' ∉ id.toList := by
      intro hmem
      rcases h.chars hmem with heq | hlower | hdigit | heq
      · exact absurd heq (by decide)
      · exact absurd hlower (by decide)
      · exact absurd hdigit (by decide)
      · exact absurd heq (by decide)
    have hwhole : splitText "::".toList id.toList = [id.toList] := splitText_of_not_mem hcolon
    rw [hwhole, List.intercalate_singleton]

end Grammar

/-- What `normalize_to_canonical_id` accepts. -/
theorem normalizeToCanonicalId_eq_ok {localId language id : String}
    (h : normalizeToCanonicalId localId language = .ok id) :
    InIdGrammar id ∧ ∃ separator, separatorForLanguage language = some separator := by
  unfold normalizeToCanonicalId at h
  split_ifs at h with hempty
  cases hseparator : separatorForLanguage language with
  | none =>
    rw [hseparator] at h
    cases h
  | some separator =>
    rw [hseparator] at h
    dsimp only at h
    split_ifs at h with hpattern
    cases h
    rw [Bool.not_eq_true', Bool.not_eq_false] at hpattern
    exact ⟨(matchesIdPattern_iff_grammar _).mp hpattern, separator, rfl⟩

/-- An id in the canonical grammar stays as it is. -/
theorem normalizeToCanonicalId_of_grammar {id language separator : String} (h : InIdGrammar id)
    (hseparator : separatorForLanguage language = some separator) :
    normalizeToCanonicalId id language = .ok id := by
  have hne : id ≠ "" := by
    rintro rfl
    obtain ⟨c, rest, hnil, -⟩ := h [] List.mem_cons_self
    cases hnil
  unfold normalizeToCanonicalId
  rw [if_neg hne, hseparator]
  dsimp only
  rw [canonicalIdChars_of_grammar h hseparator, String.ofList_toList,
    (matchesIdPattern_iff_grammar id).mpr h]
  rfl

/-- **Both rewrites land in their grammars and stay there.** -/
theorem canonical_forms :
    (∀ name,
      (∃ error, (canonicalizeName name).canonicalName = none ∧
          (canonicalizeName name).error = some error) ∨
        ∃ canonical, (canonicalizeName name).canonicalName = some canonical ∧
          (canonicalizeName name).error = none ∧ IsCanonicalName canonical ∧
            (canonicalizeName canonical).canonicalName = some canonical) ∧
      ∀ localId language id, normalizeToCanonicalId localId language = .ok id →
        InIdGrammar id ∧ normalizeToCanonicalId id language = .ok id := by
  constructor
  · intro name
    refine (canonicalizeName_cases name).imp_right ?_
    rintro ⟨canonical, hname, herror, hcanonical⟩
    exact ⟨canonical, hname, herror, hcanonical, canonicalizeName_of_canonical hcanonical⟩
  · intro localId language id h
    obtain ⟨hgrammar, separator, hseparator⟩ := normalizeToCanonicalId_eq_ok h
    exact ⟨hgrammar, normalizeToCanonicalId_of_grammar hgrammar hseparator⟩

end Apcore
