import Apcore.ContextCodec
import Apcore.TraceContext

/-! # `TraceInjection` — the trace headers of a context

`inject` writes the trace id that the context has, whatever it is, and a parent id of its own
choice; `extract` reads a header by its grammar and refuses ids that are all zeros. A trace id that
the program generates or takes over from a header fits the grammar. One that came with a serialised
context is any string. -/

namespace Apcore

/-! ## Fresh ids -/

/-- `uuid::Uuid::new_v4().simple()`. -/
structure UuidV4 where
  digits : List Char
  length : digits.length = 32
  hex : digits.all isLowerHex = true
  version : digits[12]? = some '4'

namespace UuidV4

def simple (uuid : UuidV4) : String := String.ofList uuid.digits

/-- `[..16]`. -/
def spanId (uuid : UuidV4) : String := String.ofList (uuid.digits.take 16)

theorem mem_take (uuid : UuidV4) {n : Nat} (hn : 12 < n) : '4' ∈ uuid.digits.take n :=
  List.mem_of_getElem? ((List.getElem?_take_of_lt hn).trans uuid.version)

end UuidV4

theorem allZero_of_mem {id : List Char} (h : '4' ∈ id) : allZero id = false :=
  List.all_eq_false.mpr ⟨'4', h, by decide⟩

/-- `generate_trace_id`. -/
def generateTraceId (uuid : UuidV4) : String := uuid.simple

def traceIdZeros : String := "00000000000000000000000000000000"

def traceIdFfff : String := "ffffffffffffffffffffffffffffffff"

/-- `accept_or_regenerate_trace_id`. -/
def acceptOrRegenerateTraceId (incoming : String) (uuid : UuidV4) : String :=
  let isValidHex := incoming.toList.length = 32 ∧ incoming.toList.all isLowerHex = true
  let isW3cValid := incoming ≠ traceIdZeros ∧ incoming ≠ traceIdFfff
  if isValidHex ∧ isW3cValid then incoming else generateTraceId uuid

/-! ## What the data map says -/

/-- `TRACE_FLAGS_KEY`. -/
def traceFlagsKey : String := "_apcore.trace.flags"

/-- `TRACE_STATE_KEY`. -/
def traceStateKey : String := "_apcore.trace.state"

/-- The key of `TRACING_SPANS`. -/
def tracingSpansKey : String := "_apcore.mw.tracing.spans"

/-- `PARENT_ID_RE.is_match`. -/
def isParentId (text : String) : Bool := text.toList.length == 16 && text.toList.all isLowerHex

/-- `read_current_span_id`. -/
def readCurrentSpanId (data : List (String × Json)) : Option String := do
  let spans ← (← Fields.get? data tracingSpansKey).asArray?
  let spanId ← (← Fields.ofJson? (← spans.getLast?) "span_id").asStr?
  if isParentId spanId then some spanId else none

/-- The value of a digit of either case. -/
def hexValue (c : Char) : Option Nat :=
  if isLowerHex c.toLower then some (lowerHexValue c.toLower) else none

/-- The digits of `from_str_radix`. -/
def u8OfHexDigits (digits : List Char) : Option UInt8 :=
  (digits.mapM hexValue).bind fun values =>
    let value := values.foldl (fun value digit => 16 * value + digit) 0
    if value < 256 then some (UInt8.ofNat value) else none

/-- `u8::from_str_radix(text, 16).ok()`, which takes a plus sign. -/
def u8OfHex : List Char → Option UInt8
  | [] => none
  | ['+'] => none
  | '+' :: digits => u8OfHexDigits digits
  | digits => u8OfHexDigits digits

/-- `read_inbound_flags`. -/
def readInboundFlags (data : List (String × Json)) : Option UInt8 := do
  let s ← (← Fields.get? data traceFlagsKey).asStr?
  if s.utf8ByteSize ≠ 2 then none else u8OfHex s.toList

/-- A pair of `read_inbound_tracestate`. -/
def tracestatePair : Json → Option (String × String)
  | .array [.string key, .string value] => some (key, value)
  | _ => none

/-- `read_inbound_tracestate`. -/
def readInboundTracestate (data : List (String × Json)) : Option (List (String × String)) := do
  let entries ← (← (← Fields.get? data traceStateKey).asArray?).mapM tracestatePair
  if entries.isEmpty then none else some entries

/-! ## Writing the headers -/

/-- `trace_id.replace('-', "")`. -/
def traceIdHex (ctx : Context) : String := String.ofList (ctx.traceId.toList.filter (· ≠ '-'))

/-- The parent id: the caller's, else that of the current span, else a fresh one. -/
def parentIdHex (data : List (String × Json)) (uuid : UuidV4) (parentId : Option String) : String :=
  (parentId.filter isParentId).getD ((readCurrentSpanId data).getD uuid.spanId)

/-- The flags: the caller's, else those that came in, else sampled. -/
def outboundFlags (data : List (String × Json)) (traceFlags : Option UInt8) : UInt8 :=
  traceFlags.getD ((readInboundFlags data).getD 1)

/-- `headers.insert("tracestate", value)`, of entries that make a header. -/
def insertTracestate (tracestate : Option (List (String × String)))
    (headers : List (String × String)) : List (String × String) :=
  match tracestate with
  | some entries =>
    if !entries.isEmpty && !(formatTracestate entries).isEmpty then
      Fields.insert "tracestate" (formatTracestate entries) headers
    else headers
  | none => headers

/-- `inject_with_options`, on the context, the entries of its data map and a fresh uuid. -/
def injectWithOptions (ctx : Context) (data : List (String × Json)) (uuid : UuidV4)
    (parentId : Option String) (traceFlags : Option UInt8)
    (tracestate : Option (List (String × String))) : List (String × String) :=
  let flags := String.ofList (formatHexByte (outboundFlags data traceFlags))
  let traceparent := "00-" ++ traceIdHex ctx ++ "-" ++ parentIdHex data uuid parentId ++ "-" ++ flags
  insertTracestate tracestate [("traceparent", traceparent)]

/-- `inject`. -/
def inject (ctx : Context) (data : List (String × Json)) (uuid : UuidV4) : List (String × String) :=
  injectWithOptions ctx data uuid none none (readInboundTracestate data)

/-- `inject_checked`; `debug` is the format `{:?}` of a string. -/
def injectChecked (debug : String → String) (ctx : Context) (data : List (String × Json))
    (uuid : UuidV4) (parentId : Option String) (traceFlags : Option UInt8)
    (tracestate : Option (List (String × String))) : Except ModuleError (List (String × String)) :=
  match parentId with
  | some p =>
    if isParentId p then .ok (injectWithOptions ctx data uuid parentId traceFlags tracestate)
    else .error (.new .invalidParentId ("parent_id must be 16 lowercase hex chars, got " ++ debug p))
  | none => .ok (injectWithOptions ctx data uuid parentId traceFlags tracestate)

/-! ## Headers that are accepted -/

/-- The documented part of `str::to_lowercase` that a header depends on. -/
structure Lowercases (lowercase : String → String) : Prop where
  ascii : ∀ text, (∀ c ∈ text.toList, c.toNat < 128) → lowercase text = text.map Char.toLower

/-- The headers are accepted, and give the ids and the flags that they were written from. -/
def Accepted (lowercase : String → String) (headers : List (String × String))
    (traceId parentId : String) (traceFlags : UInt8) : Prop :=
  ∃ traceparent, extract lowercase headers = some traceparent ∧ traceparent.traceId = traceId ∧
    traceparent.parentId = parentId ∧ traceparent.traceFlags = traceFlags

/-- The trace id, without its dashes, is what a header can have. -/
def GoodTraceId (traceId : String) : Prop :=
  let digits := traceId.toList.filter (· ≠ '-')
  digits.length = 32 ∧ digits.all isLowerHex = true ∧ allZero digits = false

def zeroParentId : String := "0000000000000000"

/-- The trace id fits, and no parent id of zeros comes from the caller or, where the caller's is not
taken, from the current span. -/
structure Traceable (ctx : Context) (data : List (String × Json)) (parentId : Option String) :
    Prop where
  traceId : GoodTraceId ctx.traceId
  caller : parentId ≠ some zeroParentId
  span : parentId.filter isParentId = none → readCurrentSpanId data ≠ some zeroParentId

/-- The headers of a context are accepted exactly when it is traceable, unless the caller's parent
id is refused. -/
structure InjectionLaw (lowercase debug : String → String) : Prop where
  inject : ∀ (ctx : Context) (data : List (String × Json)) (uuid : UuidV4),
    Accepted lowercase (inject ctx data uuid) (traceIdHex ctx) (parentIdHex data uuid none)
      (outboundFlags data none) ↔ Traceable ctx data none
  injectChecked : ∀ (ctx : Context) (data : List (String × Json)) (uuid : UuidV4)
    (parentId : Option String) (traceFlags : Option UInt8)
    (tracestate : Option (List (String × String))),
    (∀ headers, injectChecked debug ctx data uuid parentId traceFlags tracestate = .ok headers →
      Accepted lowercase headers (traceIdHex ctx) (parentIdHex data uuid parentId)
        (outboundFlags data traceFlags)) ↔
      (∃ p, parentId = some p ∧ isParentId p = false) ∨ Traceable ctx data parentId

/-! ## The header that is written -/

/-- What the header says. -/
def injected (ctx : Context) (data : List (String × Json)) (uuid : UuidV4)
    (parentId : Option String) (traceFlags : Option UInt8) : TraceParent where
  version := 0
  traceId := traceIdHex ctx
  parentId := parentIdHex data uuid parentId
  traceFlags := outboundFlags data traceFlags

theorem lookup_insertTracestate (tracestate : Option (List (String × String))) (header : String) :
    lookupHeaderCi (insertTracestate tracestate [("traceparent", header)]) "traceparent" =
      some header := by
  have hself : eqIgnoreAsciiCase "traceparent" "traceparent" = true := by decide
  have halone : lookupHeaderCi [("traceparent", header)] "traceparent" = some header := by
    simp only [lookupHeaderCi, List.find?_cons, hself, Option.map_some]
  unfold insertTracestate
  split
  · next entries =>
    split_ifs
    · have hinsert : Fields.insert "tracestate" (formatTracestate entries) [("traceparent", header)] =
          [("traceparent", header), ("tracestate", formatTracestate entries)] := rfl
      rw [hinsert]
      simp only [lookupHeaderCi, List.find?_cons, hself, Option.map_some]
    · exact halone
  · exact halone

theorem lookup_injectWithOptions (ctx : Context) (data : List (String × Json)) (uuid : UuidV4)
    (parentId : Option String) (traceFlags : Option UInt8)
    (tracestate : Option (List (String × String))) :
    lookupHeaderCi (injectWithOptions ctx data uuid parentId traceFlags tracestate) "traceparent" =
      some (injected ctx data uuid parentId traceFlags).toHeader := by
  rw [injectWithOptions, lookup_insertTracestate]
  refine congrArg some (String.toList_inj.mp ?_)
  rw [TraceParent.toHeader, String.toList_ofList]
  simp only [String.toList_append, String.toList_ofList, injected]
  have hversion : formatHexByte 0 = ['0', '0'] := by decide
  rw [hversion]
  simp

/-- What a header is made of is trimmed and in lower case already. -/
theorem lowercase_rustTrim {lowercase : String → String} (hlowercase : Lowercases lowercase)
    {header : String} (h : ∀ c ∈ header.toList, isLowerHex c = true ∨ c = '-') :
    lowercase (String.ofList (rustTrim header.toList)) = header := by
  have hplain : ∀ c, isLowerHex c = true ∨ c = '-' →
      isRustWhitespace c = false ∧ c.toNat < 128 ∧ c.toLower = c := by
    rintro c (hc | rfl)
    · have hall : lowerHexDigits.all fun c =>
          !isRustWhitespace c && decide (c.toNat < 128) && c.toLower == c := by decide +kernel
      simpa [and_assoc] using List.all_eq_true.mp hall c (List.contains_iff_mem.mp hc)
    · decide
  have htrimmed : Trimmed header.toList :=
    ⟨fun c hc => (hplain c (h c (List.mem_of_mem_head? hc))).1,
      fun c hc => (hplain c (h c (List.mem_of_mem_getLast? hc))).1⟩
  rw [rustTrim_of_trimmed htrimmed, String.ofList_toList,
    hlowercase.ascii header fun c hc => (hplain c (h c hc)).2.1]
  refine String.toList_inj.mp ?_
  rw [String.toList_map]
  exact (List.map_congr_left fun c hc => (hplain c (h c hc)).2.2).trans (List.map_id _)

/-- A header is accepted, with what it was written from, exactly when that is valid. -/
theorem accepted_iff_valid {lowercase : String → String} (hlowercase : Lowercases lowercase)
    {headers : List (String × String)} {traceparent : TraceParent} (hversion : traceparent.version = 0)
    (hlookup : lookupHeaderCi headers "traceparent" = some traceparent.toHeader) :
    Accepted lowercase headers traceparent.traceId traceparent.parentId traceparent.traceFlags ↔
      traceparent.Valid := by
  have hextract : extract lowercase headers = (TraceParent.parse
      (lowercase (String.ofList (rustTrim traceparent.toHeader.toList)))).toOption := by
    rw [extract_eq, hlookup]
    rfl
  constructor
  · rintro ⟨found, hfound, htrace, hparent, -⟩
    rw [hextract] at hfound
    cases hparse : TraceParent.parse
        (lowercase (String.ofList (rustTrim traceparent.toHeader.toList))) with
    | error e =>
      rw [hparse] at hfound
      cases hfound
    | ok parsed =>
      rw [hparse] at hfound
      obtain rfl := Option.some.inj hfound
      obtain ⟨caps, hcaps, -, hzero, hzero', rfl⟩ := TraceParent.parse_eq_ok hparse
      obtain ⟨hwell, -⟩ := captures_eq_some.mp hcaps
      refine ⟨by rw [hversion]; decide, ?_, ?_⟩
      · rw [← htrace, String.toList_ofList]
        exact ⟨hwell.traceId.1, hwell.traceId.2, hzero⟩
      · rw [← hparent, String.toList_ofList]
        exact ⟨hwell.parentId.1, hwell.parentId.2, hzero'⟩
  · intro hvalid
    have hparse := TraceParent.parse_of_valid hvalid
    refine ⟨{ traceparent with tracestate := [] }, ?_, rfl, rfl, rfl⟩
    rw [hextract, lowercase_rustTrim hlowercase (TraceParent.lower_of_parse hparse), hparse]
    rfl

/-! ## The parent id -/

theorem isParentId_iff {text : String} :
    isParentId text = true ↔ text.toList.length = 16 ∧ text.toList.all isLowerHex = true := by
  rw [isParentId, Bool.and_eq_true_iff, beq_iff_eq]

theorem isParentId_spanId (uuid : UuidV4) : isParentId uuid.spanId = true := by
  rw [isParentId_iff, UuidV4.spanId, String.toList_ofList, List.length_take, uuid.length]
  refine ⟨rfl, List.all_eq_true.mpr fun c hc => ?_⟩
  exact List.all_eq_true.mp uuid.hex c (List.mem_of_mem_take hc)

theorem isParentId_of_readCurrentSpanId {data : List (String × Json)} {spanId : String}
    (h : readCurrentSpanId data = some spanId) : isParentId spanId = true := by
  obtain ⟨found, -, h⟩ := Option.bind_eq_some_iff.mp h
  obtain ⟨spans, -, h⟩ := Option.bind_eq_some_iff.mp h
  obtain ⟨last, -, h⟩ := Option.bind_eq_some_iff.mp h
  obtain ⟨field, -, h⟩ := Option.bind_eq_some_iff.mp h
  obtain ⟨id, -, h⟩ := Option.bind_eq_some_iff.mp h
  obtain ⟨hid, h⟩ := Option.ite_none_right_eq_some.mp h
  exact Option.some.inj h ▸ hid

/-- The parent id has the digits of one, whoever gives it. -/
theorem isParentId_parentIdHex (data : List (String × Json)) (uuid : UuidV4)
    (parentId : Option String) : isParentId (parentIdHex data uuid parentId) = true := by
  unfold parentIdHex
  cases hcaller : parentId.filter isParentId with
  | some p => exact (Option.filter_eq_some_iff.mp hcaller).2
  | none =>
    cases hspan : readCurrentSpanId data with
    | some spanId => exact isParentId_of_readCurrentSpanId hspan
    | none => exact isParentId_spanId uuid

theorem allZero_iff {text : String} (h : isParentId text = true) :
    allZero text.toList = true ↔ text = zeroParentId := by
  constructor
  · intro hzero
    refine String.toList_inj.mp ?_
    have hall : ∀ c ∈ text.toList, c = '0' := fun c hc => by
      simpa using List.all_eq_true.mp hzero c hc
    have heq := List.eq_replicate_of_mem hall
    rw [(isParentId_iff.mp h).1] at heq
    exact heq
  · rintro rfl
    decide

/-- Zeros come from the caller or, where the caller's id is not taken, from the current span: a fresh
id has a digit of its version. -/
theorem allZero_parentIdHex (data : List (String × Json)) (uuid : UuidV4)
    (parentId : Option String) :
    allZero (parentIdHex data uuid parentId).toList = false ↔
      parentId ≠ some zeroParentId ∧
        (parentId.filter isParentId = none → readCurrentSpanId data ≠ some zeroParentId) := by
  have hzero := allZero_iff (isParentId_parentIdHex data uuid parentId)
  rw [← Bool.not_eq_true, hzero]
  unfold parentIdHex
  cases hcaller : parentId.filter isParentId with
  | some p =>
    obtain ⟨rfl, hp⟩ := Option.filter_eq_some_iff.mp hcaller
    simp
  | none =>
    have hne : parentId ≠ some zeroParentId := by
      rintro rfl
      have hmatch : isParentId zeroParentId = true := by decide
      rw [Option.filter_some, if_pos hmatch] at hcaller
      cases hcaller
    cases hspan : readCurrentSpanId data with
    | some spanId => simp [hne]
    | none =>
      have hfresh : uuid.spanId ≠ zeroParentId := by
        intro heq
        have hlast := (allZero_iff (isParentId_spanId uuid)).mpr heq
        rw [UuidV4.spanId, String.toList_ofList, allZero_of_mem (uuid.mem_take (by decide))] at hlast
        cases hlast
      simp [hne, hfresh]

/-! ## The law -/

theorem valid_injected_iff {ctx : Context} {data : List (String × Json)} {uuid : UuidV4}
    {parentId : Option String} {traceFlags : Option UInt8} :
    (injected ctx data uuid parentId traceFlags).Valid ↔ Traceable ctx data parentId := by
  have hparent := isParentId_iff.mp (isParentId_parentIdHex data uuid parentId)
  have htrace : GoodTraceId ctx.traceId ↔ (traceIdHex ctx).toList.length = 32 ∧
      (traceIdHex ctx).toList.all isLowerHex = true ∧ allZero (traceIdHex ctx).toList = false := by
    rw [traceIdHex, String.toList_ofList]
    exact Iff.rfl
  constructor
  · intro h
    obtain ⟨hcaller, hspan⟩ := (allZero_parentIdHex data uuid parentId).mp h.parentId.2.2
    exact ⟨htrace.mpr h.traceId, hcaller, hspan⟩
  · intro h
    have hzero := (allZero_parentIdHex data uuid parentId).mpr ⟨h.caller, h.span⟩
    exact ⟨(by decide : (0 : UInt8) ≠ 0xff), htrace.mp h.traceId, hparent.1, hparent.2, hzero⟩

theorem accepted_injectWithOptions {lowercase : String → String} (hlowercase : Lowercases lowercase)
    (ctx : Context) (data : List (String × Json)) (uuid : UuidV4) (parentId : Option String)
    (traceFlags : Option UInt8) (tracestate : Option (List (String × String))) :
    Accepted lowercase (injectWithOptions ctx data uuid parentId traceFlags tracestate)
      (traceIdHex ctx) (parentIdHex data uuid parentId) (outboundFlags data traceFlags) ↔
      Traceable ctx data parentId :=
  (accepted_iff_valid hlowercase rfl
    (lookup_injectWithOptions ctx data uuid parentId traceFlags tracestate)).trans valid_injected_iff

/-- **The headers of a context are accepted exactly when the context is traceable.** -/
theorem injectionLaw {lowercase : String → String} (hlowercase : Lowercases lowercase)
    (debug : String → String) : InjectionLaw lowercase debug where
  inject := fun ctx data uuid =>
    accepted_injectWithOptions hlowercase ctx data uuid none none (readInboundTracestate data)
  injectChecked := by
    intro ctx data uuid parentId traceFlags tracestate
    have haccepted :=
      accepted_injectWithOptions hlowercase ctx data uuid parentId traceFlags tracestate
    have hok : (∀ headers, .ok (injectWithOptions ctx data uuid parentId traceFlags tracestate) =
        (.ok headers : Except ModuleError (List (String × String))) →
        Accepted lowercase headers (traceIdHex ctx) (parentIdHex data uuid parentId)
          (outboundFlags data traceFlags)) ↔ Traceable ctx data parentId := by
      rw [← haccepted]
      exact ⟨fun h => h _ rfl, fun h headers hheaders => Except.ok.inj hheaders ▸ h⟩
    unfold injectChecked
    cases parentId with
    | none => exact hok.trans ⟨.inr, fun h => h.resolve_left fun ⟨p, hp, _⟩ => by cases hp⟩
    | some p =>
      by_cases hp : isParentId p = true
      · simp only [if_pos hp]
        refine hok.trans ⟨.inr, fun h => h.resolve_left ?_⟩
        rintro ⟨p', hsame, hp'⟩
        obtain rfl := Option.some.inj hsame
        rw [hp] at hp'
        cases hp'
      · simp only [if_neg hp]
        exact ⟨fun _ => .inl ⟨p, rfl, Bool.eq_false_iff.mpr hp⟩, fun _ headers h => by cases h⟩

theorem lowercases_map_toLower : Lowercases (String.map Char.toLower) := ⟨fun _ _ => rfl⟩

theorem injectionLaw_toLower : InjectionLaw (String.map Char.toLower) id :=
  injectionLaw lowercases_map_toLower id

/-! ## A context without a trace id -/

def exampleUuid : UuidV4 where
  digits := "4bf92f3577b34da6a3ce929d0e0e4736".toList
  length := by decide
  hex := by decide
  version := by decide

/-- The empty object is a context, and its header is refused. -/
theorem not_accepted_empty : ¬ ∀ (value : Json) (ctx : Context) (data : List (String × Json)),
    Context.deserialize 0 value = .ok (ctx, data) → ∀ uuid,
      Accepted (String.map Char.toLower) (inject ctx data uuid) (traceIdHex ctx)
        (parentIdHex data uuid none) (outboundFlags data none) := by
  intro h
  have haccepted := h (.object []) _ _ rfl exampleUuid
  have htraceable := (accepted_injectWithOptions lowercases_map_toLower _ _ _ _ _ _).mp haccepted
  exact absurd htraceable.traceId.1 (by decide)

end Apcore
