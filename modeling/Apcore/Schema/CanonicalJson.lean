import Apcore.Lib.UniqueReading
import Apcore.Schema.Keys

/-! # `Schema.CanonicalJson` — the text that is hashed

`canonical_json` writes a value with the keys of every object sorted. Strings and numbers are written
by `serde_json`, of which is assumed that it writes two of them differently, strings between quotes,
and numbers in the characters of numerals. -/

namespace Apcore

open UniqueReading

/-! ## The writer -/

/-- The keys with what they are mapped to. -/
def sortedMembers (map : List (String × Json)) : List (String × Json) :=
  (sortedKeys map).filterMap fun key => (Fields.get? map key).map (key, ·)

theorem mem_sortedMembers {map : List (String × Json)} {member : String × Json} :
    member ∈ sortedMembers map ↔ Fields.get? map member.1 = some member.2 := by
  unfold sortedMembers sortedKeys
  rw [List.mem_filterMap]
  constructor
  · rintro ⟨key, -, hmember⟩
    obtain ⟨v, hv, rfl⟩ := Option.map_eq_some_iff.mp hmember
    exact hv
  · intro h
    refine ⟨member.1, ?_, Option.map_eq_some_iff.mpr ⟨member.2, h, rfl⟩⟩
    rw [List.mem_insertionSort, List.mem_dedup]
    by_contra hnot
    rw [Fields.get?_eq_none hnot] at h
    cases h

theorem sizeOf_sortedMembers {map : List (String × Json)} {member : String × Json}
    (h : member ∈ sortedMembers map) : sizeOf member.2 < sizeOf (Json.object map) := by
  obtain ⟨entry, hfind, hentry⟩ := Option.map_eq_some_iff.mp (mem_sortedMembers.mp h)
  have hlt := List.sizeOf_lt_of_mem (List.mem_of_find?_eq_some hfind)
  rw [← hentry]
  rw [Json.object.sizeOf_spec]
  have : sizeOf entry.2 < sizeOf entry := by
    rw [Prod.mk.sizeOf_spec]
    omega
  omega

/-- `serde_json::to_string` of a string and of a number. -/
structure Printer where
  string : String → List Char
  number : Number → List Char

/-- A character of a numeral. -/
def isNumeric (c : Char) : Bool := c.isDigit || "+-.eE".toList.contains c

/-- What is assumed of `serde_json`. -/
structure Printer.Faithful (printer : Printer) : Prop where
  string_injective : Function.Injective printer.string
  string_quoted (s : String) : ∃ body, printer.string s = '"' :: body ++ ['"'] ∧ Quoted '"' '\\' body
  number_injective : Function.Injective printer.number
  number_ne_nil (n : Number) : printer.number n ≠ []
  number_numeric (n : Number) : ∀ c ∈ printer.number n, isNumeric c = true

variable (printer : Printer)

/-- `write_canonical`. -/
def canonicalText : Json → List Char
  | .object map =>
    '{' :: List.intercalate [','] ((sortedMembers map).attach.map fun member =>
      printer.string member.1.1 ++ ':' :: canonicalText member.1.2) ++ ['}']
  | .array items =>
    '[' :: List.intercalate [','] (items.attach.map fun item => canonicalText item.1) ++ [']']
  | .null => "null".toList
  | .bool true => "true".toList
  | .bool false => "false".toList
  | .number n => printer.number n
  | .string s => printer.string s
termination_by v => sizeOf v
decreasing_by
  · exact sizeOf_sortedMembers member.2
  · have := List.sizeOf_lt_of_mem item.2
    rw [Json.array.sizeOf_spec]
    omega

/-- `canonical_json`. -/
def canonicalJson (value : Json) : String := String.ofList (canonicalText printer value)

def memberText (member : String × Json) : List Char :=
  printer.string member.1 ++ ':' :: canonicalText printer member.2

theorem canonicalText_object (map : List (String × Json)) : canonicalText printer (.object map) =
    '{' :: List.intercalate [','] ((sortedMembers map).map (memberText printer)) ++ ['}'] := by
  rw [canonicalText]
  exact congrArg (fun texts => '{' :: List.intercalate [','] texts ++ ['}'])
    (List.attach_map_val (f := memberText printer))

theorem canonicalText_array (items : List Json) : canonicalText printer (.array items) =
    '[' :: List.intercalate [','] (items.map (canonicalText printer)) ++ [']'] := by
  rw [canonicalText, List.attach_map_val]

/-! ## Equality up to the order of keys -/

/-- Equality up to the order of the keys of objects, at every depth. -/
inductive Json.SameUpToOrder : Json → Json → Prop
  | null : SameUpToOrder .null .null
  | bool (b : Bool) : SameUpToOrder (.bool b) (.bool b)
  | number (n : Number) : SameUpToOrder (.number n) (.number n)
  | string (s : String) : SameUpToOrder (.string s) (.string s)
  | array {xs ys : List Json} (hlength : xs.length = ys.length)
      (hitems : ∀ (i : Nat) (x y : Json), xs[i]? = some x → ys[i]? = some y → SameUpToOrder x y) :
      SameUpToOrder (.array xs) (.array ys)
  | object {map map' : List (String × Json)}
      (hkeys : ∀ key, (Fields.get? map key).isSome = (Fields.get? map' key).isSome)
      (hvalues : ∀ key x y, Fields.get? map key = some x → Fields.get? map' key = some y →
        SameUpToOrder x y) :
      SameUpToOrder (.object map) (.object map')

open Json (SameUpToOrder)

/-! ## Reading the text off -/

/-- The six shapes of a value, as the first character of its text tells them. -/
inductive Shape where
  | null
  | bool
  | number
  | string
  | array
  | object
  deriving DecidableEq

def Json.shape : Json → Shape
  | .null => .null
  | .bool _ => .bool
  | .number _ => .number
  | .string _ => .string
  | .array _ => .array
  | .object _ => .object

def shapeOfChar (c : Char) : Option Shape :=
  if c = 'n' then some .null
  else if c = 't' ∨ c = 'f' then some .bool
  else if c = '"' then some .string
  else if c = '[' then some .array
  else if c = '{' then some .object
  else if isNumeric c then some .number
  else none

theorem shapeOfChar_of_isNumeric {c : Char} (h : isNumeric c = true) :
    shapeOfChar c = some .number := by
  have hne : ∀ d, isNumeric d = false → c ≠ d := by
    rintro d hd rfl
    exact Bool.false_ne_true (hd.symm.trans h)
  unfold shapeOfChar
  rw [if_neg (hne 'n' (by decide)), if_neg (not_or.mpr ⟨hne 't' (by decide), hne 'f' (by decide)⟩),
    if_neg (hne '"' (by decide)), if_neg (hne '[' (by decide)), if_neg (hne '{' (by decide)), if_pos h]

variable {printer}

theorem canonicalText_first (hp : printer.Faithful) (v : Json) :
    ∃ c tail, canonicalText printer v = c :: tail ∧ shapeOfChar c = some v.shape := by
  cases v with
  | null => exact ⟨'n', "ull".toList, by rw [canonicalText]; rfl, rfl⟩
  | bool b =>
    cases b with
    | false => exact ⟨'f', "alse".toList, by rw [canonicalText]; rfl, rfl⟩
    | true => exact ⟨'t', "rue".toList, by rw [canonicalText]; rfl, rfl⟩
  | number n =>
    obtain ⟨c, tail, htext⟩ := List.exists_cons_of_ne_nil (hp.number_ne_nil n)
    refine ⟨c, tail, by rw [canonicalText, htext], shapeOfChar_of_isNumeric ?_⟩
    exact hp.number_numeric n c (htext ▸ List.mem_cons_self)
  | string s =>
    obtain ⟨body, htext, -⟩ := hp.string_quoted s
    exact ⟨'"', body ++ ['"'], by rw [canonicalText, htext]; rfl, rfl⟩
  | array items => exact ⟨'[', _, canonicalText_array printer items, rfl⟩
  | object map => exact ⟨'{', _, canonicalText_object printer map, rfl⟩

theorem shape_eq_of_text_eq (hp : printer.Faithful) {a b : Json} {rest rest' : List Char}
    (h : canonicalText printer a ++ rest = canonicalText printer b ++ rest') : a.shape = b.shape := by
  obtain ⟨c, tail, hc, hshape⟩ := canonicalText_first hp a
  obtain ⟨c', tail', hc', hshape'⟩ := canonicalText_first hp b
  rw [hc, hc'] at h
  rw [(List.cons.inj h).1, hshape'] at hshape
  exact (Option.some.inj hshape).symm

theorem ends_cons {c : Char} (h : isNumeric c = false) (rest : List Char) :
    Ends isNumeric (c :: rest) := by
  intro d hd
  obtain rfl := Option.some.inj hd
  exact h

/-- A member is read off: its key is a literal, and a colon separates it. -/
theorem memberText_readsOff (hp : printer.Faithful) {member : String × Json}
    (h : ReadsOff (canonicalText printer) SameUpToOrder (Ends isNumeric) member.2) :
    ReadsOff (memberText printer) (fun p q => p.1 = q.1 ∧ SameUpToOrder p.2 q.2) (Ends isNumeric)
      member :=
  ReadsOff.pair (ReadsOff.literal (by decide) hp.string_quoted hp.string_injective member.1) h
    fun _ => trivial

/-- Members in the same order with the same keys are the members of the same object. -/
theorem SameUpToOrder.of_members {map map' : List (String × Json)}
    (h : List.Forall₂ (fun p q => p.1 = q.1 ∧ SameUpToOrder p.2 q.2) (sortedMembers map)
      (sortedMembers map')) : SameUpToOrder (.object map) (.object map') := by
  have hto : ∀ key x, Fields.get? map key = some x →
      ∃ y, Fields.get? map' key = some y ∧ SameUpToOrder x y := by
    intro key x hx
    obtain ⟨member, hmember, rfl, hsame⟩ :=
      exists_of_mem_forall₂ h ((@mem_sortedMembers _ (key, x)).mpr hx)
    exact ⟨member.2, mem_sortedMembers.mp hmember, hsame⟩
  have hfrom : ∀ key y, Fields.get? map' key = some y → ∃ x, Fields.get? map key = some x := by
    intro key y hy
    have hflip : List.Forall₂ (fun q p : String × Json => p.1 = q.1 ∧ SameUpToOrder p.2 q.2)
        (sortedMembers map') (sortedMembers map) := List.Forall₂.flip h
    obtain ⟨⟨key', x⟩, hmember, heq, -⟩ :=
      exists_of_mem_forall₂ hflip ((@mem_sortedMembers _ (key, y)).mpr hy)
    obtain rfl : key' = key := heq
    exact ⟨x, mem_sortedMembers.mp hmember⟩
  refine .object (fun key => ?_) fun key x y hx hy => ?_
  · rw [Bool.eq_iff_iff, Option.isSome_iff_exists, Option.isSome_iff_exists]
    exact ⟨fun ⟨x, hx⟩ => (hto key x hx).imp fun _ hy => hy.1, fun ⟨y, hy⟩ => hfrom key y hy⟩
  · obtain ⟨y', hy', hsame⟩ := hto key x hx
    obtain rfl := Option.some.inj (hy.symm.trans hy')
    exact hsame

/-- The text of a value is read off up to a character that is none of a numeral. -/
theorem canonicalText_readsOff (hp : printer.Faithful) (a : Json) :
    ReadsOff (canonicalText printer) SameUpToOrder (Ends isNumeric) a := by
  induction a using Json.children_induction with
  | null =>
    intro b rest rest' _ _ heq
    have hshape := shape_eq_of_text_eq hp heq
    cases b with
    | null => exact ⟨.null, List.append_cancel_left heq⟩
    | _ => cases hshape
  | bool x =>
    intro b rest rest' _ _ heq
    have hshape := shape_eq_of_text_eq hp heq
    cases b with
    | bool y =>
      cases x <;> cases y
      · exact ⟨.bool false, List.append_cancel_left heq⟩
      · rw [canonicalText, canonicalText] at heq
        exact absurd (List.cons.inj heq).1 (by decide)
      · rw [canonicalText, canonicalText] at heq
        exact absurd (List.cons.inj heq).1 (by decide)
      · exact ⟨.bool true, List.append_cancel_left heq⟩
    | _ => cases hshape
  | number m =>
    intro b rest rest' hrest hrest' heq
    have hshape := shape_eq_of_text_eq hp heq
    cases b with
    | number n =>
      rw [canonicalText, canonicalText] at heq
      obtain ⟨rfl, hrests⟩ := ReadsOff.word hp.number_numeric hp.number_injective m n rest rest'
        hrest hrest' heq
      exact ⟨.number m, hrests⟩
    | _ => cases hshape
  | string s =>
    intro b rest rest' hrest hrest' heq
    have hshape := shape_eq_of_text_eq hp heq
    cases b with
    | string t =>
      rw [canonicalText, canonicalText] at heq
      obtain ⟨rfl, hrests⟩ := ReadsOff.literal (by decide) hp.string_quoted hp.string_injective s t
        rest rest' trivial trivial heq
      exact ⟨.string s, hrests⟩
    | _ => cases hshape
  | array xs ih =>
    intro b rest rest' hrest hrest' heq
    have hshape := shape_eq_of_text_eq hp heq
    cases b with
    | array ys =>
      rw [canonicalText_array, canonicalText_array, List.append_assoc, List.append_assoc] at heq
      have hfirst : ∀ v, ∃ c tail, canonicalText printer v = c :: tail ∧ c ≠ ']' := by
        intro v
        obtain ⟨c, tail, htext, hc⟩ := canonicalText_first hp v
        refine ⟨c, tail, htext, ?_⟩
        rintro rfl
        cases hc
      obtain ⟨hitems, hrests⟩ := readsOff_listed ih (ends_cons (by decide)) (ends_cons (by decide))
        (by decide) hfirst (List.cons.inj heq).2
      obtain ⟨hlength, hget⟩ := List.forall₂_iff_get.mp hitems
      refine ⟨.array hlength fun i x y hx hy => ?_, hrests⟩
      obtain ⟨hi, rfl⟩ := List.getElem?_eq_some_iff.mp hx
      obtain ⟨hi', rfl⟩ := List.getElem?_eq_some_iff.mp hy
      exact hget i hi hi'
    | _ => cases hshape
  | object map ih =>
    intro b rest rest' hrest hrest' heq
    have hshape := shape_eq_of_text_eq hp heq
    cases b with
    | object map' =>
      rw [canonicalText_object, canonicalText_object, List.append_assoc, List.append_assoc] at heq
      have hread : ∀ member ∈ sortedMembers map, ReadsOff (memberText printer)
          (fun p q => p.1 = q.1 ∧ SameUpToOrder p.2 q.2) (Ends isNumeric) member := by
        intro member hmember
        obtain ⟨entry, hfind, hentry⟩ := Option.map_eq_some_iff.mp (mem_sortedMembers.mp hmember)
        refine memberText_readsOff hp ?_
        rw [← hentry]
        exact ih entry (List.mem_of_find?_eq_some hfind)
      have hfirst : ∀ member, ∃ c tail, memberText printer member = c :: tail ∧ c ≠ '}' := by
        intro member
        obtain ⟨body, htext, -⟩ := hp.string_quoted member.1
        refine ⟨'"', body ++ ['"'] ++ ':' :: canonicalText printer member.2, ?_, by decide⟩
        rw [memberText, htext]
        rfl
      obtain ⟨hmembers, hrests⟩ := readsOff_listed hread (ends_cons (by decide))
        (ends_cons (by decide)) (by decide) hfirst (List.cons.inj heq).2
      exact ⟨SameUpToOrder.of_members hmembers, hrests⟩
    | _ => cases hshape

/-! ## Equal values have one text -/

theorem sortedKeys_eq {map map' : List (String × Json)}
    (hkeys : ∀ key, (Fields.get? map key).isSome = (Fields.get? map' key).isSome) :
    sortedKeys map = sortedKeys map' := by
  refine (sortedKeys_sortedLT map).eq_of_mem_iff (sortedKeys_sortedLT map') fun key => ?_
  rw [mem_sortedKeys, mem_sortedKeys, hkeys]

/-- Values that are equal up to the order of keys are written the same. -/
theorem canonicalText_eq_of_same {a b : Json} (h : SameUpToOrder a b) :
    canonicalText printer a = canonicalText printer b := by
  induction h with
  | null => rfl
  | bool => rfl
  | number => rfl
  | string => rfl
  | @array xs ys hlength _ ih =>
    have htexts : xs.map (canonicalText printer) = ys.map (canonicalText printer) := by
      refine List.ext_getElem (by simpa using hlength) fun i hi hi' => ?_
      rw [List.getElem_map, List.getElem_map]
      exact ih i _ _ (List.getElem?_eq_getElem _) (List.getElem?_eq_getElem _)
    rw [canonicalText_array, canonicalText_array, htexts]
  | @object map map' hkeys _ ih =>
    have htexts : (sortedMembers map).map (memberText printer) =
        (sortedMembers map').map (memberText printer) := by
      unfold sortedMembers
      rw [List.map_filterMap, List.map_filterMap, sortedKeys_eq hkeys]
      refine List.filterMap_congr fun key _ => ?_
      have hkey := hkeys key
      cases hx : Fields.get? map key with
      | none =>
        rw [hx] at hkey
        rw [Option.isNone_iff_eq_none.mp (Option.isSome_eq_false_iff.mp hkey.symm)]
      | some x =>
        rw [hx] at hkey
        obtain ⟨y, hy⟩ := Option.isSome_iff_exists.mp hkey.symm
        rw [hy]
        show some (printer.string key ++ ':' :: _) = some (printer.string key ++ ':' :: _)
        rw [ih key x y hx hy]
    rw [canonicalText_object, canonicalText_object, htexts]

/-- Two values have one text if and only if they are equal up to the order of keys. -/
theorem canonicalJson_eq_iff (hp : printer.Faithful) (a b : Json) :
    canonicalJson printer a = canonicalJson printer b ↔ SameUpToOrder a b := by
  constructor
  · intro h
    refine (canonicalText_readsOff hp a).same_of_eq (fun c hc => by cases hc) ?_
    exact String.ofList_injective h
  · intro h
    rw [canonicalJson, canonicalJson, canonicalText_eq_of_same h]

/-! ## A printer

It writes strings without control characters and integers as `serde_json` does. -/

def escapeChar (c : Char) : List Char := if c = '"' ∨ c = '\\' then ['\\', c] else [c]

def signedDigits (n : ℤ) : List Char := (if n < 0 then '-' else '+') :: Nat.toDigits 10 n.natAbs

def plainPrinter : Printer where
  string s := '"' :: s.toList.flatMap escapeChar ++ ['"']
  number
    | .posInt n => Nat.toDigits 10 n.toNat
    | .negInt n => signedDigits n
    | .float q => 'e' :: signedDigits q.num ++ '.' :: Nat.toDigits 10 q.den

theorem quoted_escape (cs : List Char) : Quoted '"' '\\' (cs.flatMap escapeChar) := by
  induction cs with
  | nil => exact .nil
  | cons c cs ih =>
    rw [List.flatMap_cons]
    by_cases hc : c = '"' ∨ c = '\\'
    · rw [escapeChar, if_pos hc]
      exact .escaped ih
    · rw [escapeChar, if_neg hc]
      exact .plain (fun h => hc (.inl h)) (fun h => hc (.inr h)) ih

theorem escape_injective {cs ds : List Char} (h : cs.flatMap escapeChar = ds.flatMap escapeChar) :
    cs = ds := by
  induction cs generalizing ds with
  | nil =>
    cases ds with
    | nil => rfl
    | cons d ds =>
      rw [List.flatMap_cons, escapeChar] at h
      split at h <;> cases h
  | cons c cs ih =>
    cases ds with
    | nil =>
      rw [List.flatMap_cons, escapeChar] at h
      split at h <;> cases h
    | cons d ds =>
      rw [List.flatMap_cons, List.flatMap_cons, escapeChar, escapeChar] at h
      by_cases hc : c = '"' ∨ c = '\\' <;> by_cases hd : d = '"' ∨ d = '\\'
      · rw [if_pos hc, if_pos hd] at h
        obtain ⟨rfl, htail⟩ := List.cons.inj (List.cons.inj h).2
        rw [ih htail]
      · rw [if_pos hc, if_neg hd] at h
        exact absurd (.inr (List.cons.inj h).1.symm) hd
      · rw [if_neg hc, if_pos hd] at h
        exact absurd (.inr (List.cons.inj h).1) hc
      · rw [if_neg hc, if_neg hd] at h
        obtain ⟨rfl, htail⟩ := List.cons.inj h
        rw [ih htail]

theorem toDigits_injective {m n : ℕ} (h : Nat.toDigits 10 m = Nat.toDigits 10 n) : m = n := by
  rw [← Nat.ofDigitChars_ten_toDigits (n := m), h, Nat.ofDigitChars_ten_toDigits]

theorem isNumeric_of_mem_toDigits {c : Char} {n : ℕ} (h : c ∈ Nat.toDigits 10 n) :
    isNumeric c = true := by
  have hdigit : c.isDigit = true := Nat.isDigit_of_mem_toDigits (by decide) (by decide) h
  rw [isNumeric, hdigit, Bool.true_or]

theorem isNumeric_of_mem_signedDigits {c : Char} {n : ℤ} (h : c ∈ signedDigits n) :
    isNumeric c = true := by
  rcases List.mem_cons.mp h with rfl | h
  · split <;> decide
  · exact isNumeric_of_mem_toDigits h

theorem signedDigits_injective {m n : ℤ} (h : signedDigits m = signedDigits n) : m = n := by
  obtain ⟨hsign, hdigits⟩ := List.cons.inj h
  have habs := toDigits_injective hdigits
  by_cases hm : m < 0 <;> by_cases hn : n < 0
  · omega
  · rw [if_pos hm, if_neg hn] at hsign
    exact absurd hsign (by decide)
  · rw [if_neg hm, if_pos hn] at hsign
    exact absurd hsign (by decide)
  · omega

theorem head?_toDigits_ne {c : Char} (hc : c.isDigit = false) {n : ℕ} {rest : List Char} :
    Nat.toDigits 10 n ≠ c :: rest := by
  intro h
  have hdigit : c.isDigit = true :=
    Nat.isDigit_of_mem_toDigits (b := 10) (n := n) (by decide) (by decide) (h ▸ List.mem_cons_self)
  exact Bool.false_ne_true (hc.symm.trans hdigit)

theorem plainPrinter_number_injective : Function.Injective plainPrinter.number := by
  intro m n h
  have hsign : ∀ k : ℤ, ∃ c, signedDigits k = c :: Nat.toDigits 10 k.natAbs ∧ (c = '-' ∨ c = '+') := by
    intro k
    refine ⟨_, rfl, ?_⟩
    split
    · exact .inl rfl
    · exact .inr rfl
  cases m with
  | posInt m =>
    cases n with
    | posInt n => rw [UInt64.toNat_inj.mp (toDigits_injective h)]
    | negInt n =>
      obtain ⟨c, hc, hcases⟩ := hsign n
      refine absurd (h.trans hc) (head?_toDigits_ne ?_)
      rcases hcases with rfl | rfl <;> decide
    | float q => exact absurd h (head?_toDigits_ne (by decide))
  | negInt m =>
    obtain ⟨c, hc, hcases⟩ := hsign m
    cases n with
    | posInt n =>
      refine absurd (h.symm.trans hc) (head?_toDigits_ne ?_)
      rcases hcases with rfl | rfl <;> decide
    | negInt n => rw [signedDigits_injective h]
    | float q =>
      have hhead := (List.cons.inj (hc.symm.trans h)).1
      rcases hcases with rfl | rfl <;> exact absurd hhead (by decide)
  | float q =>
    cases n with
    | posInt n => exact absurd h.symm (head?_toDigits_ne (by decide))
    | negInt n =>
      obtain ⟨c, hc, hcases⟩ := hsign n
      have hhead := (List.cons.inj (hc.symm.trans h.symm)).1
      rcases hcases with rfl | rfl <;> exact absurd hhead (by decide)
    | float r =>
      -- the point is where the numerator ends
      have hplain : ∀ k : ℤ, ∀ c ∈ signedDigits k, (c != '.') = true := by
        intro k c hc
        obtain ⟨d, hd, hcases⟩ := hsign k
        rw [hd] at hc
        rcases List.mem_cons.mp hc with rfl | hc
        · rcases hcases with rfl | rfl <;> decide
        · have hdigit : c.isDigit = true := Nat.isDigit_of_mem_toDigits (by decide) (by decide) hc
          rw [bne_iff_ne]
          rintro rfl
          exact Bool.false_ne_true hdigit
      have hends : ∀ rest, Ends (· != '.') ('.' :: rest) := by
        intro rest c hc
        obtain rfl := Option.some.inj hc
        decide
      have htail : signedDigits q.num ++ '.' :: Nat.toDigits 10 q.den =
          signedDigits r.num ++ '.' :: Nat.toDigits 10 r.den := (List.cons.inj h).2
      have hnum : signedDigits q.num = signedDigits r.num := by
        rw [← takeWhile_append_of_ends (hplain q.num) (hends (Nat.toDigits 10 q.den)), htail,
          takeWhile_append_of_ends (hplain r.num) (hends _)]
      rw [hnum] at htail
      have hden := toDigits_injective (List.cons.inj (List.append_cancel_left htail)).2
      rw [Rat.ext (signedDigits_injective hnum) hden]

theorem plainPrinter_faithful : plainPrinter.Faithful where
  string_injective s t h := by
    have hbody := List.append_cancel_right (List.cons.inj h).2
    exact String.toList_injective (escape_injective hbody)
  string_quoted s := ⟨s.toList.flatMap escapeChar, rfl, quoted_escape s.toList⟩
  number_injective := plainPrinter_number_injective
  number_ne_nil n := by
    cases n with
    | posInt n => exact Nat.toDigits_ne_nil
    | negInt n => exact List.cons_ne_nil _ _
    | float q => exact List.cons_ne_nil _ _
  number_numeric n c hc := by
    cases n with
    | posInt n => exact isNumeric_of_mem_toDigits hc
    | negInt n => exact isNumeric_of_mem_signedDigits hc
    | float q =>
      rcases List.mem_cons.mp hc with rfl | hc
      · decide
      rcases List.mem_append.mp hc with hc | hc
      · exact isNumeric_of_mem_signedDigits hc
      rcases List.mem_cons.mp hc with rfl | hc
      · decide
      · exact isNumeric_of_mem_toDigits hc

end Apcore
