import Apcore.Errors
import Apcore.Text

/-! # `TraceContext` — W3C trace headers

`TraceParent::parse` and `TraceContext::extract` read the `traceparent` header, each with the same
expression and its own checks; `to_header` writes it. A `tracestate` header is a list of pairs. -/

namespace Apcore

/-! ## Hexadecimal bytes -/

/-- The class `[0-9a-f]`, by value. -/
def lowerHexDigits : List Char := "0123456789abcdef".toList

def isLowerHex (c : Char) : Bool := lowerHexDigits.contains c

/-- The value of a digit. -/
def lowerHexValue (c : Char) : Nat := lowerHexDigits.idxOf c

/-- `u8::from_str_radix(digits, 16)`, of two digits of the class. -/
def hexByte (digits : List Char) : UInt8 :=
  UInt8.ofNat (digits.foldl (fun value c => 16 * value + lowerHexValue c) 0)

/-- `{:02x}`. -/
def formatHexByte (b : UInt8) : List Char :=
  [lowerHexDigits.getD (b.toNat / 16) '0', lowerHexDigits.getD (b.toNat % 16) '0']

/-! ## The header -/

/-- `TraceParent`. -/
structure TraceParent where
  version : UInt8
  traceId : String
  parentId : String
  traceFlags : UInt8
  tracestate : List (String × String) := []
  deriving DecidableEq, Repr

/-- A group of the expression, of so many digits, and what follows it. -/
def hexGroup (n : Nat) (text : List Char) : Option (List Char × List Char) :=
  if (text.take n).length = n ∧ (text.take n).all isLowerHex then some (text.take n, text.drop n)
  else none

/-- A literal dash. -/
def dash : List Char → Option (List Char)
  | '-' :: rest => some rest
  | _ => none

/-- The groups of a match of
`TRACEPARENT_RE = ^([0-9a-f]{2})-([0-9a-f]{32})-([0-9a-f]{16})-([0-9a-f]{2})$`. -/
structure Captures where
  version : List Char
  traceId : List Char
  parentId : List Char
  traceFlags : List Char

def captures (text : List Char) : Option Captures := do
  let (version, rest) ← hexGroup 2 text
  let rest ← dash rest
  let (traceId, rest) ← hexGroup 32 rest
  let rest ← dash rest
  let (parentId, rest) ← hexGroup 16 rest
  let rest ← dash rest
  let (traceFlags, rest) ← hexGroup 2 rest
  if rest.isEmpty then some { version, traceId, parentId, traceFlags } else none

/-- `id.chars().all(|c| c == '0')`. -/
def allZero (id : List Char) : Bool := id.all (· == '0')

namespace TraceParent

/-- `TraceParent::parse`. -/
def parse (header : String) : Except ModuleError TraceParent :=
  match captures header.toList with
  | none => .error (.new .generalInvalidInput ("Invalid traceparent format: " ++ header))
  | some caps =>
    if hexByte caps.version = 0xff then
      .error (.new .generalInvalidInput "Invalid traceparent version: ff")
    else if allZero caps.traceId then
      .error (.new .generalInvalidInput "Invalid traceparent: trace_id is all zeros")
    else if allZero caps.parentId then
      .error (.new .generalInvalidInput "Invalid traceparent: parent_id is all zeros")
    else
      .ok { version := hexByte caps.version
            traceId := String.ofList caps.traceId
            parentId := String.ofList caps.parentId
            traceFlags := hexByte caps.traceFlags }

/-- `to_header`. -/
def toHeader (traceparent : TraceParent) : String :=
  String.ofList (formatHexByte traceparent.version ++ '-' :: traceparent.traceId.toList ++
    '-' :: traceparent.parentId.toList ++ '-' :: formatHexByte traceparent.traceFlags)

end TraceParent

/-! ## Reading the headers of a request -/

/-- `lookup_header_ci`, in the order of the map. -/
def lookupHeaderCi (headers : List (String × String)) (name : String) : Option String :=
  (headers.find? fun header => eqIgnoreAsciiCase header.1 name).map (·.2)

/-- `TraceContext::extract`; `lowercase` is `str::to_lowercase`. -/
def extract (lowercase : String → String) (headers : List (String × String)) : Option TraceParent :=
  (lookupHeaderCi headers "traceparent").bind fun raw =>
    (captures (lowercase (String.ofList (rustTrim raw.toList))).toList).bind fun caps =>
      if hexByte caps.version = 0xff then none
      else if allZero caps.traceId || allZero caps.parentId then none
      else some
        { version := hexByte caps.version
          traceId := String.ofList caps.traceId
          parentId := String.ofList caps.parentId
          traceFlags := hexByte caps.traceFlags }

/-! ## The vendor state -/

/-- `TRACESTATE_MAX_ENTRIES`. -/
def tracestateMaxEntries : Nat := 32

/-- What the loop of `parse_tracestate` pushes for an entry. -/
def parseEntry (entry : List Char) : Option (String × String) :=
  if (rustTrim entry).isEmpty then none
  else
    (splitOnce '=' (String.ofList (rustTrim entry))).bind fun (key, value) =>
      if (rustTrim key.toList).isEmpty || (rustTrim value.toList).isEmpty then none
      else some (String.ofList (rustTrim key.toList), String.ofList (rustTrim value.toList))

/-- The loop of `parse_tracestate`. -/
def parseEntries : List (List Char) → List (String × String) → List (String × String)
  | [], out => out
  | entry :: rest, out =>
    if tracestateMaxEntries ≤ out.length then out
    else parseEntries rest (out ++ (parseEntry entry).toList)

/-- `parse_tracestate`. -/
def parseTracestate (raw : String) : List (String × String) :=
  parseEntries (raw.toList.splitOn ',') []

/-- `format_tracestate`. -/
def formatTracestate (entries : List (String × String)) : String :=
  String.ofList ([','].intercalate
    ((entries.take tracestateMaxEntries).map fun entry => entry.1.toList ++ '=' :: entry.2.toList))

end Apcore

/-! ## Trace headers read back what was written

A header matches in one way only, so the groups of a match are the header. The entries of a vendor
state that was read have no comma and no whitespace around them, and no `=` in the key. -/

namespace Apcore

/-! ## Bytes -/

theorem hexByte_formatHexByte (b : UInt8) : hexByte (formatHexByte b) = b := by
  have hall : ∀ n < 256, hexByte (formatHexByte (UInt8.ofNat n)) = UInt8.ofNat n := by decide +kernel
  have hb := hall b.toNat b.toNat_lt
  rw [UInt8.ofNat_toNat] at hb
  exact hb

theorem all_formatHexByte (b : UInt8) : (formatHexByte b).all isLowerHex = true := by
  have hall : ∀ n < 256, (formatHexByte (UInt8.ofNat n)).all isLowerHex = true := by decide +kernel
  have hb := hall b.toNat b.toNat_lt
  rw [UInt8.ofNat_toNat] at hb
  exact hb

theorem getD_lowerHexValue {c : Char} (h : isLowerHex c = true) :
    lowerHexValue c < 16 ∧ lowerHexDigits.getD (lowerHexValue c) '0' = c := by
  have hmem : c ∈ lowerHexDigits := List.contains_iff_mem.mp h
  have hlt : lowerHexValue c < lowerHexDigits.length := List.idxOf_lt_length_of_mem hmem
  have hlength : lowerHexDigits.length = 16 := by decide
  refine ⟨by omega, ?_⟩
  have hread : lowerHexDigits[lowerHexValue c]? = some c := by
    rw [List.getElem?_eq_getElem hlt]
    exact congrArg some (List.getElem_idxOf hlt)
  rw [List.getD_eq_getElem?_getD, hread, Option.getD_some]

theorem formatHexByte_hexByte {digits : List Char} (hlength : digits.length = 2)
    (hdigits : digits.all isLowerHex = true) : formatHexByte (hexByte digits) = digits := by
  obtain ⟨a, b, rfl⟩ := List.length_eq_two.mp hlength
  obtain ⟨ha, hb⟩ : isLowerHex a = true ∧ isLowerHex b = true := by simpa using hdigits
  obtain ⟨hlta, ha⟩ := getD_lowerHexValue ha
  obtain ⟨hltb, hb⟩ := getD_lowerHexValue hb
  have hvalue : (hexByte [a, b]).toNat = 16 * lowerHexValue a + lowerHexValue b := by
    have hbyte : hexByte [a, b] = UInt8.ofNat (16 * lowerHexValue a + lowerHexValue b) := by
      simp [hexByte]
    rw [hbyte, UInt8.toNat_ofNat']
    omega
  have hhigh : (16 * lowerHexValue a + lowerHexValue b) / 16 = lowerHexValue a := by omega
  have hlow : (16 * lowerHexValue a + lowerHexValue b) % 16 = lowerHexValue b := by omega
  rw [formatHexByte, hvalue, hhigh, hlow, ha, hb]

/-! ## The groups of a match -/

theorem hexGroup_eq_some {n : Nat} {text group rest : List Char} :
    hexGroup n text = some (group, rest) ↔
      group.length = n ∧ group.all isLowerHex = true ∧ text = group ++ rest := by
  unfold hexGroup
  constructor
  · intro h
    split_ifs at h with hmatch
    obtain ⟨rfl, rfl⟩ := Prod.mk.inj (Option.some.inj h)
    exact ⟨hmatch.1, hmatch.2, (List.take_append_drop n text).symm⟩
  · rintro ⟨rfl, hdigits, rfl⟩
    rw [List.take_left, List.drop_left, if_pos ⟨rfl, hdigits⟩]

theorem dash_eq_some {text rest : List Char} : dash text = some rest ↔ text = '-' :: rest := by
  unfold dash
  constructor
  · intro h
    split at h
    · rw [Option.some.inj h]
    · cases h
  · rintro rfl
    rfl

namespace Captures

/-- The groups have the lengths and the digits of the expression. -/
structure WellFormed (caps : Captures) : Prop where
  version : caps.version.length = 2 ∧ caps.version.all isLowerHex = true
  traceId : caps.traceId.length = 32 ∧ caps.traceId.all isLowerHex = true
  parentId : caps.parentId.length = 16 ∧ caps.parentId.all isLowerHex = true
  traceFlags : caps.traceFlags.length = 2 ∧ caps.traceFlags.all isLowerHex = true

/-- The text that matches. -/
def text (caps : Captures) : List Char :=
  caps.version ++ '-' :: caps.traceId ++ '-' :: caps.parentId ++ '-' :: caps.traceFlags

end Captures

/-- A match is the whole text. -/
theorem captures_eq_some {text : List Char} {caps : Captures} :
    captures text = some caps ↔ caps.WellFormed ∧ text = caps.text := by
  constructor
  · intro h
    unfold captures at h
    obtain ⟨⟨version, rest⟩, hversion, h⟩ := Option.bind_eq_some_iff.mp h
    obtain ⟨rest', hdash, h⟩ := Option.bind_eq_some_iff.mp h
    obtain ⟨⟨traceId, rest⟩, htrace, h⟩ := Option.bind_eq_some_iff.mp h
    obtain ⟨rest', hdash', h⟩ := Option.bind_eq_some_iff.mp h
    obtain ⟨⟨parentId, rest⟩, hparent, h⟩ := Option.bind_eq_some_iff.mp h
    obtain ⟨rest', hdash'', h⟩ := Option.bind_eq_some_iff.mp h
    obtain ⟨⟨traceFlags, rest⟩, hflags, h⟩ := Option.bind_eq_some_iff.mp h
    dsimp only at *
    split_ifs at h with hend
    obtain rfl := Option.some.inj h
    obtain rfl := List.isEmpty_iff.mp hend
    obtain ⟨hlength, hdigits, rfl⟩ := hexGroup_eq_some.mp hversion
    obtain rfl := dash_eq_some.mp hdash
    obtain ⟨hlength', hdigits', rfl⟩ := hexGroup_eq_some.mp htrace
    obtain rfl := dash_eq_some.mp hdash'
    obtain ⟨hlength'', hdigits'', rfl⟩ := hexGroup_eq_some.mp hparent
    obtain rfl := dash_eq_some.mp hdash''
    obtain ⟨hlengthFlags, hdigitsFlags, rfl⟩ := hexGroup_eq_some.mp hflags
    refine ⟨⟨⟨hlength, hdigits⟩, ⟨hlength', hdigits'⟩, ⟨hlength'', hdigits''⟩,
      ⟨hlengthFlags, hdigitsFlags⟩⟩, ?_⟩
    unfold Captures.text
    simp
  · rintro ⟨hcaps, rfl⟩
    unfold captures Captures.text
    have hversion : hexGroup 2 (caps.version ++ '-' :: caps.traceId ++ '-' :: caps.parentId ++
        '-' :: caps.traceFlags) = some (caps.version,
          '-' :: (caps.traceId ++ '-' :: (caps.parentId ++ '-' :: caps.traceFlags))) :=
      hexGroup_eq_some.mpr ⟨hcaps.version.1, hcaps.version.2, by simp⟩
    have htrace : hexGroup 32 (caps.traceId ++ '-' :: (caps.parentId ++ '-' :: caps.traceFlags)) =
        some (caps.traceId, '-' :: (caps.parentId ++ '-' :: caps.traceFlags)) :=
      hexGroup_eq_some.mpr ⟨hcaps.traceId.1, hcaps.traceId.2, rfl⟩
    have hparent : hexGroup 16 (caps.parentId ++ '-' :: caps.traceFlags) =
        some (caps.parentId, '-' :: caps.traceFlags) :=
      hexGroup_eq_some.mpr ⟨hcaps.parentId.1, hcaps.parentId.2, rfl⟩
    have hflags : hexGroup 2 caps.traceFlags = some (caps.traceFlags, []) :=
      hexGroup_eq_some.mpr ⟨hcaps.traceFlags.1, hcaps.traceFlags.2, (List.append_nil _).symm⟩
    refine Option.bind_eq_some_iff.mpr ⟨_, hversion, ?_⟩
    refine Option.bind_eq_some_iff.mpr ⟨_, dash_eq_some.mpr rfl, ?_⟩
    refine Option.bind_eq_some_iff.mpr ⟨_, htrace, ?_⟩
    refine Option.bind_eq_some_iff.mpr ⟨_, dash_eq_some.mpr rfl, ?_⟩
    refine Option.bind_eq_some_iff.mpr ⟨_, hparent, ?_⟩
    refine Option.bind_eq_some_iff.mpr ⟨_, dash_eq_some.mpr rfl, ?_⟩
    exact Option.bind_eq_some_iff.mpr ⟨_, hflags, rfl⟩

/-! ## The header -/

namespace TraceParent

/-- What a header can stand for: a version other than `ff`, and ids that are not all zeros. -/
structure Valid (traceparent : TraceParent) : Prop where
  version : traceparent.version ≠ 0xff
  traceId : traceparent.traceId.toList.length = 32 ∧
    traceparent.traceId.toList.all isLowerHex = true ∧ allZero traceparent.traceId.toList = false
  parentId : traceparent.parentId.toList.length = 16 ∧
    traceparent.parentId.toList.all isLowerHex = true ∧ allZero traceparent.parentId.toList = false

/-- The groups of a header that is written. -/
def groups (traceparent : TraceParent) : Captures where
  version := formatHexByte traceparent.version
  traceId := traceparent.traceId.toList
  parentId := traceparent.parentId.toList
  traceFlags := formatHexByte traceparent.traceFlags

theorem captures_toHeader {traceparent : TraceParent} (h : traceparent.Valid) :
    captures traceparent.toHeader.toList = some traceparent.groups := by
  rw [captures_eq_some]
  refine ⟨⟨⟨rfl, all_formatHexByte _⟩, ⟨h.traceId.1, h.traceId.2.1⟩,
    ⟨h.parentId.1, h.parentId.2.1⟩, ⟨rfl, all_formatHexByte _⟩⟩, ?_⟩
  unfold toHeader
  rw [String.toList_ofList]
  rfl

/-- A header carries all but the vendor state. -/
theorem parse_of_valid {traceparent : TraceParent} (h : traceparent.Valid) :
    parse traceparent.toHeader = .ok { traceparent with tracestate := [] } := by
  unfold parse
  rw [captures_toHeader h]
  simp [groups, hexByte_formatHexByte, h.version, h.traceId.2.2, h.parentId.2.2]

/-- What a header that parses is. -/
theorem parse_eq_ok {header : String} {traceparent : TraceParent} (h : parse header = .ok traceparent) :
    ∃ caps, captures header.toList = some caps ∧ hexByte caps.version ≠ 0xff ∧
      allZero caps.traceId = false ∧ allZero caps.parentId = false ∧
      traceparent =
        { version := hexByte caps.version
          traceId := String.ofList caps.traceId
          parentId := String.ofList caps.parentId
          traceFlags := hexByte caps.traceFlags } := by
  unfold parse at h
  cases hcaps : captures header.toList with
  | none =>
    rw [hcaps] at h
    cases h
  | some caps =>
    rw [hcaps] at h
    dsimp only at h
    split_ifs at h with hversion htrace hparent
    exact ⟨caps, rfl, hversion, by simpa using htrace, by simpa using hparent,
      (Except.ok.inj h).symm⟩

/-- The header that was parsed is written again. -/
theorem toHeader_of_parse {header : String} {traceparent : TraceParent}
    (h : parse header = .ok traceparent) : traceparent.toHeader = header := by
  obtain ⟨caps, hcaps, -, -, -, rfl⟩ := parse_eq_ok h
  obtain ⟨hwell, htext⟩ := captures_eq_some.mp hcaps
  have hversion := formatHexByte_hexByte hwell.version.1 hwell.version.2
  have hflags := formatHexByte_hexByte hwell.traceFlags.1 hwell.traceFlags.2
  unfold toHeader
  dsimp only
  rw [hversion, hflags, String.toList_ofList, String.toList_ofList]
  show String.ofList caps.text = header
  rw [← htext, String.ofList_toList]

/-- It is in lower case. -/
theorem lower_of_parse {header : String} {traceparent : TraceParent}
    (h : parse header = .ok traceparent) : ∀ c ∈ header.toList, isLowerHex c = true ∨ c = '-' := by
  obtain ⟨caps, hcaps, -, -, -, rfl⟩ := parse_eq_ok h
  obtain ⟨hwell, htext⟩ := captures_eq_some.mp hcaps
  have hversion := List.all_eq_true.mp hwell.version.2
  have htrace := List.all_eq_true.mp hwell.traceId.2
  have hparent := List.all_eq_true.mp hwell.parentId.2
  have hflags := List.all_eq_true.mp hwell.traceFlags.2
  intro c hc
  rw [htext] at hc
  unfold Captures.text at hc
  simp only [List.mem_append, List.mem_cons] at hc
  rcases hc with ((hc | rfl | hc) | rfl | hc) | rfl | hc
  · exact .inl (hversion c hc)
  · exact .inr rfl
  · exact .inl (htrace c hc)
  · exact .inr rfl
  · exact .inl (hparent c hc)
  · exact .inr rfl
  · exact .inl (hflags c hc)

end TraceParent

/-- `extract` does what `parse` does to the header, trimmed and in lower case. -/
theorem extract_eq (lowercase : String → String) (headers : List (String × String)) :
    extract lowercase headers = (lookupHeaderCi headers "traceparent").bind fun raw =>
      (TraceParent.parse (lowercase (String.ofList (rustTrim raw.toList)))).toOption := by
  unfold extract
  refine congrArg _ (funext fun raw => ?_)
  unfold TraceParent.parse
  cases captures (lowercase (String.ofList (rustTrim raw.toList))).toList with
  | none => rfl
  | some caps =>
    by_cases hversion : hexByte caps.version = 0xff
    · simp [hversion, Except.toOption]
    · cases htrace : allZero caps.traceId <;> cases hparent : allZero caps.parentId <;>
        simp [hversion, htrace, hparent, Except.toOption]

/-! ## The vendor state -/

/-- An entry as it is read: what stands around the first `=`, trimmed, neither side empty. -/
structure GoodEntry (entry : String × String) : Prop where
  key : entry.1.toList ≠ [] ∧ Trimmed entry.1.toList ∧ '=' ∉ entry.1.toList ∧ ',' ∉ entry.1.toList
  value : entry.2.toList ≠ [] ∧ Trimmed entry.2.toList ∧ ',' ∉ entry.2.toList

/-- The text of an entry. -/
def entryText (entry : String × String) : List Char := entry.1.toList ++ '=' :: entry.2.toList

theorem mem_of_mem_rustTrim {s : List Char} {c : Char} (h : c ∈ rustTrim s) : c ∈ s := by
  rw [rustTrim_eq] at h
  exact (trimMatches_slice _ s).subset h

theorem goodEntry_of_parseEntry {text : List Char} {entry : String × String} (hcomma : ',' ∉ text)
    (h : parseEntry text = some entry) : GoodEntry entry := by
  unfold parseEntry at h
  split_ifs at h
  obtain ⟨⟨key, value⟩, hsplit, h⟩ := Option.bind_eq_some_iff.mp h
  dsimp only at h
  split_ifs at h with hempty
  obtain rfl := Option.some.inj h
  obtain ⟨htext, hkey⟩ := splitOnce_eq_some hsplit
  rw [String.toList_ofList] at htext
  have hmem : ∀ c ∈ key.toList ++ '=' :: value.toList, c ∈ text := by
    intro c hc
    rw [← htext] at hc
    exact mem_of_mem_rustTrim hc
  have hne : rustTrim key.toList ≠ [] ∧ rustTrim value.toList ≠ [] := by
    simpa [List.isEmpty_iff] using hempty
  refine ⟨?_, ?_⟩ <;> rw [String.toList_ofList]
  · refine ⟨hne.1, trimmed_rustTrim _, fun hc => hkey (mem_of_mem_rustTrim hc), fun hc => hcomma ?_⟩
    exact hmem _ (List.mem_append_left _ (mem_of_mem_rustTrim hc))
  · refine ⟨hne.2, trimmed_rustTrim _, fun hc => hcomma ?_⟩
    exact hmem _ (List.mem_append_right _ (List.mem_cons_of_mem _ (mem_of_mem_rustTrim hc)))

/-- Such an entry is read back from its text. -/
theorem parseEntry_entryText {entry : String × String} (h : GoodEntry entry) :
    parseEntry (entryText entry) = some entry := by
  have htrim : rustTrim (entryText entry) = entryText entry :=
    rustTrim_of_trimmed (h.key.2.1.append h.key.1 h.value.2.1 h.value.1)
  have hne : (entryText entry).isEmpty = false := by
    unfold entryText
    simp
  unfold parseEntry
  rw [htrim, hne]
  unfold entryText
  rw [splitOnce_append h.key.2.2.1]
  have hkey : rustTrim entry.1.toList = entry.1.toList := rustTrim_of_trimmed h.key.2.1
  have hvalue : rustTrim entry.2.toList = entry.2.toList := rustTrim_of_trimmed h.value.2.1
  have hkey' := h.key.1
  have hvalue' := h.value.1
  simp [hkey, hvalue, hkey', hvalue']

/-- The loop takes the first entries that can be read, as many as there may be. -/
theorem parseEntries_eq (texts : List (List Char)) (out : List (String × String)) :
    parseEntries texts out =
      out ++ (texts.filterMap parseEntry).take (tracestateMaxEntries - out.length) := by
  induction texts generalizing out with
  | nil => simp [parseEntries]
  | cons text rest ih =>
    unfold parseEntries
    by_cases hfull : tracestateMaxEntries ≤ out.length
    · rw [if_pos hfull, Nat.sub_eq_zero_of_le hfull, List.take_zero, List.append_nil]
    · rw [if_neg hfull, ih, List.filterMap_cons]
      cases parseEntry text with
      | none => simp
      | some entry =>
        have hroom : tracestateMaxEntries - out.length =
            (tracestateMaxEntries - (out.length + 1)) + 1 := by omega
        simp [hroom]

theorem parseTracestate_eq (raw : String) :
    parseTracestate raw =
      ((raw.toList.splitOn ',').filterMap parseEntry).take tracestateMaxEntries := by
  unfold parseTracestate
  rw [parseEntries_eq]
  rfl

/-- What is read from a header. -/
theorem goodEntry_of_mem_parseTracestate {raw : String} {entry : String × String}
    (h : entry ∈ parseTracestate raw) : GoodEntry entry := by
  rw [parseTracestate_eq] at h
  obtain ⟨text, htext, hentry⟩ := List.mem_filterMap.mp (List.mem_of_mem_take h)
  exact goodEntry_of_parseEntry (not_mem_of_mem_splitOn htext) hentry

/-- A list of such entries, no longer than the limit, is read back. -/
theorem parseTracestate_formatTracestate {entries : List (String × String)}
    (hgood : ∀ entry ∈ entries, GoodEntry entry) (hlength : entries.length ≤ tracestateMaxEntries) :
    parseTracestate (formatTracestate entries) = entries := by
  rw [parseTracestate_eq]
  unfold formatTracestate
  rw [String.toList_ofList, List.take_of_length_le hlength]
  cases entries with
  | nil => rfl
  | cons first rest =>
    have hread : ((first :: rest).map entryText).filterMap parseEntry = first :: rest := by
      rw [List.filterMap_map]
      refine (List.filterMap_congr fun entry hentry => ?_).trans List.filterMap_some
      exact parseEntry_entryText (hgood entry hentry)
    have hsplit : ([','].intercalate ((first :: rest).map entryText)).splitOn ',' =
        (first :: rest).map entryText := by
      refine List.splitOn_intercalate ',' ?_ (by simp)
      intro text htext
      obtain ⟨entry, hentry, rfl⟩ := List.mem_map.mp htext
      have hentry := hgood entry hentry
      unfold entryText
      simp [hentry.key.2.2.2, hentry.value.2.2]
    show ((([','].intercalate ((first :: rest).map entryText)).splitOn ',').filterMap parseEntry).take
      tracestateMaxEntries = first :: rest
    rw [hsplit, hread, List.take_of_length_le hlength]

theorem length_parseTracestate_le (raw : String) :
    (parseTracestate raw).length ≤ tracestateMaxEntries := by
  rw [parseTracestate_eq, List.length_take]
  exact Nat.min_le_left _ _

/-! ## Round trips -/

/-- What the readers and the writers of the headers make of each other's results. -/
structure HeadersRoundTrip (lowercase : String → String) : Prop where
  /-- All but the vendor state is in the header. -/
  parse_toHeader : ∀ traceparent : TraceParent, traceparent.Valid →
    TraceParent.parse traceparent.toHeader = .ok { traceparent with tracestate := [] }
  toHeader_parse : ∀ header traceparent, TraceParent.parse header = .ok traceparent →
    traceparent.toHeader = header ∧ ∀ c ∈ header.toList, isLowerHex c = true ∨ c = '-'
  extract_none : ∀ headers, lookupHeaderCi headers "traceparent" = none →
    extract lowercase headers = none
  extract_some : ∀ headers raw, lookupHeaderCi headers "traceparent" = some raw →
    ∀ traceparent, extract lowercase headers = some traceparent ↔
      TraceParent.parse (lowercase (String.ofList (rustTrim raw.toList))) = .ok traceparent
  tracestate : ∀ raw, parseTracestate (formatTracestate (parseTracestate raw)) = parseTracestate raw

/-- The headers round trip. -/
theorem headersRoundTrip (lowercase : String → String) : HeadersRoundTrip lowercase where
  parse_toHeader := fun _ h => TraceParent.parse_of_valid h
  toHeader_parse := fun _ _ h => ⟨TraceParent.toHeader_of_parse h, TraceParent.lower_of_parse h⟩
  extract_none := by
    intro headers h
    rw [extract_eq, h]
    rfl
  extract_some := by
    intro headers raw h traceparent
    rw [extract_eq, h]
    show (TraceParent.parse _).toOption = some traceparent ↔ _
    cases TraceParent.parse (lowercase (String.ofList (rustTrim raw.toList))) with
    | error e => simp [Except.toOption]
    | ok found => simp [Except.toOption]
  tracestate := fun raw => parseTracestate_formatTracestate
    (fun _ h => goodEntry_of_mem_parseTracestate h) (length_parseTracestate_le raw)

/-- A trace parent with a vendor state. -/
def vendorParent : TraceParent where
  version := 0
  traceId := "4bf92f3577b34da6a3ce929d0e0e4736"
  parentId := "00f067aa0ba902b7"
  traceFlags := 1
  tracestate := [("vendor", "1")]

/-- Its header does not give it back. -/
theorem not_parse_vendorParent :
    vendorParent.Valid ∧ TraceParent.parse vendorParent.toHeader ≠ .ok vendorParent := by
  have hvalid : vendorParent.Valid := ⟨by decide, by decide, by decide⟩
  refine ⟨hvalid, fun h => ?_⟩
  rw [TraceParent.parse_of_valid hvalid] at h
  have htracestate := congrArg TraceParent.tracestate (Except.ok.inj h)
  cases htracestate

end Apcore
