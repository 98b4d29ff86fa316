import Mathlib.Data.List.Chain
import Mathlib.Data.List.Nodup
import Apcore.Lib.Fallible
import Apcore.Registry.Ids
import Apcore.Text

/-! # `Registry.MultiClass` — ids for the classes of one file

A file with several module classes gives each marked class an id of its own: the id of the file,
and a segment made of the class name. The segment conversion is a normal form (`Segmented`), which
is why it is idempotent; the derivation checks each id it makes, and only the id of the file that a
lone class gets is passed on unchecked. -/

namespace Apcore

/-! ## The segment of a class name -/

/-- `class_name_to_segment` puts an underscore between two characters: before the last capital of
a run that a small letter follows, and before a capital that follows a small letter or a digit. -/
def boundaryBefore (prev c : Char) (next : Option Char) : Bool :=
  if prev.isUpper && c.isUpper then next.any Char.isLower
  else (prev.isLower || prev.isDigit) && c.isUpper

/-- The first loop of `class_name_to_segment`, behind the character `prev`. -/
def insertBoundaries : Option Char → List Char → List Char
  | _, [] => []
  | prev, c :: rest =>
    if prev.any (boundaryBefore · c rest.head?) then '_' :: c :: insertBoundaries (some c) rest
    else c :: insertBoundaries (some c) rest

/-- What the second loop makes of a character. -/
def sanitizeChar (c : Char) : Char := if c.isAlphanum then c.toLower else '_'

/-- The third loop: underscores in a row become one. -/
def collapseUnderscores : Bool → List Char → List Char
  | _, [] => []
  | prevUnderscore, c :: rest =>
    if c = '_' then
      if prevUnderscore then collapseUnderscores true rest
      else '_' :: collapseUnderscores true rest
    else c :: collapseUnderscores false rest

/-- `class_name_to_segment`, on the characters of the name. -/
def segmentChars (name : List Char) : List Char :=
  trimMatches (· == '_')
    (collapseUnderscores false ((insertBoundaries none name).map sanitizeChar))

/-- `class_name_to_segment`. -/
def classNameToSegment (className : String) : String := String.ofList (segmentChars className.toList)

example : classNameToSegment "HTTPSenderV2" = "http_sender_v2" := by decide +kernel

/-! ## The id of the file -/

/-- The file stem of a name: what stands before its last dot, unless that is nothing. -/
def fileStem (name : List Char) : List Char :=
  match (name.reverse.dropWhile (· != '.')).tail.reverse with
  | [] => name
  | stem => stem

/-- The normal components of a path. -/
def normalComponents (path : String) : List (List Char) :=
  (path.toList.splitOn '/').filter fun part => part ≠ [] ∧ part ≠ ['.'] ∧ part ≠ ['.', '.']

/-- `Path::file_name`: the last component, if it is a normal one. -/
def fileName (path : String) : Option (List Char) :=
  ((path.toList.splitOn '/').filter fun part => part ≠ [] ∧ part ≠ ['.']).getLast?.filter
    (· ≠ ['.', '.'])

/-- `compute_base_id`, on Unix paths. -/
def computeBaseId (filePath extensionsRoot : String) : String :=
  let parts := normalComponents filePath
  match parts.findIdx? (· == extensionsRoot.toList) with
  | none => String.ofList (((fileName filePath).map fileStem).getD [])
  | some idx =>
    match parts.drop (idx + 1) with
    | [] => ""
    | first :: rest =>
      let rel := first :: rest
      String.ofList (['.'].intercalate (rel.dropLast ++ [fileStem (rel.getLast (by simp [rel]))]))

example : computeBaseId "src/extensions/math/ops.rs" "extensions" = "math.ops" := by decide +kernel

/-! ## Derivation -/

/-- `DiscoveredClass`. -/
structure DiscoveredClass where
  name : String
  implementsModule : Bool
  multiClass : Bool
  deriving DecidableEq

namespace ModuleError

/-- `ModuleError::module_id_conflict`, for names that print as they are. -/
def moduleIdConflict (filePath : String) (classNames : List String) (conflictingSegment : String) :
    ModuleError :=
  (new .moduleIdConflict ("Module ID conflict in '" ++ filePath ++ "': classes [" ++
    ", ".intercalate (classNames.map fun name => "\"" ++ name ++ "\"") ++
    "] both produce segment '" ++ conflictingSegment ++ "'")).withDetails
    [("class_names", .array (classNames.map .string)),
      ("conflicting_segment", .string conflictingSegment), ("file_path", .string filePath)]

/-- `ModuleError::invalid_segment`. -/
def invalidSegment (filePath className segment : String) : ModuleError :=
  (new .invalidSegment ("Invalid class segment '" ++ segment ++ "' derived from '" ++ className ++
    "' in '" ++ filePath ++ "': must match ^[a-z][a-z0-9_]*$")).withDetails
    [("class_name", .string className), ("file_path", .string filePath),
      ("segment", .string segment)]

/-- `ModuleError::id_too_long`. -/
def idTooLong (filePath moduleId : String) : ModuleError :=
  (new .idTooLong ("Derived module_id '" ++ moduleId ++ "' exceeds maximum length of " ++
    toString maxModuleIdLength ++ " characters")).withDetails
    [("file_path", .string filePath), ("module_id", .string moduleId)]

end ModuleError

/-- `segment_pattern`. -/
def matchesSegment : List Char → Bool
  | [] => false
  | c :: rest => c.isLower && rest.all fun d => d.isLower || d.isDigit || d == '_'

/-- `canonical_id_pattern`, which is that of the registry. -/
def matchesCanonicalId (moduleId : String) : Bool := matchesIdPattern false moduleId.toList

/-- The loop of `derive_module_ids` over the marked classes; `seen` are the names and segments so
far. -/
def deriveMarked (filePath baseId : String) :
    List (String × String) → List DiscoveredClass → Except ModuleError (List String)
  | _, [] => .ok []
  | seen, cls :: rest =>
    let segment := classNameToSegment cls.name
    if !matchesSegment segment.toList then .error (.invalidSegment filePath cls.name segment)
    else
      match seen.find? (·.2 == segment) with
      | some prior => .error (.moduleIdConflict filePath [prior.1, cls.name] segment)
      | none =>
        let moduleId := baseId ++ "." ++ segment
        if !matchesCanonicalId moduleId then .error (.invalidSegment filePath cls.name segment)
        else if moduleId.utf8ByteSize > maxModuleIdLength then
          .error (.idTooLong filePath moduleId)
        else do
          let ids ← deriveMarked filePath baseId (seen ++ [(cls.name, segment)]) rest
          pure (moduleId :: ids)

/-- `derive_module_ids`. -/
def deriveModuleIds (filePath extensionsRoot : String) (classes : List DiscoveredClass) :
    Except ModuleError (List String) :=
  let qualifying := classes.filter (·.implementsModule)
  let baseId := computeBaseId filePath extensionsRoot
  if qualifying = [] then .ok []
  else if qualifying.length = 1 then .ok [baseId]
  else if !qualifying.any (·.multiClass) then .ok [baseId]
  else deriveMarked filePath baseId [] (qualifying.filter (·.multiClass))

/-! ## Segments are a normal form -/

/-- The characters of a segment. -/
def isSegmentChar (c : Char) : Bool := c.isLower || c.isDigit || c == '_'

/-- Neither end is an underscore, no two underscores are next to each other, and all characters are
those of a segment. -/
structure Segmented (s : List Char) : Prop where
  chars : ∀ c ∈ s, isSegmentChar c = true
  spaced : s.IsChain fun a b => ¬(a = '_' ∧ b = '_')
  head : s.head? ≠ some '_'
  last : s.getLast? ≠ some '_'

theorem lt_128_of_segmentChar {c : Char} (h : isSegmentChar c = true) : c.toNat < 128 := by
  simp only [isSegmentChar, Bool.or_eq_true, beq_iff_eq] at h
  rcases h with (h | h) | rfl
  · exact lt_128_of_isLower h
  · exact lt_128_of_isDigit h
  · decide

/-- What holds of the first 128 characters, one by one. -/
theorem sanitize_ascii : ∀ n < 128,
    isSegmentChar (sanitizeChar (Char.ofNat n)) = true ∧
      (isSegmentChar (Char.ofNat n) = true →
        sanitizeChar (Char.ofNat n) = Char.ofNat n ∧ (Char.ofNat n).isUpper = false) := by
  decide +kernel

theorem isSegmentChar_sanitizeChar (c : Char) : isSegmentChar (sanitizeChar c) = true := by
  by_cases h : c.isAlphanum = true
  · have := (sanitize_ascii c.toNat (lt_128_of_isAlphanum h)).1
    rwa [Char.ofNat_toNat] at this
  · rw [sanitizeChar, if_neg h]
    decide

theorem sanitizeChar_of_segmentChar {c : Char} (h : isSegmentChar c = true) :
    sanitizeChar c = c ∧ c.isUpper = false := by
  have := (sanitize_ascii c.toNat (lt_128_of_segmentChar h)).2
  rw [Char.ofNat_toNat] at this
  exact this h

/-! ### What the loops make -/

theorem mem_of_mem_collapse {prev : Bool} {s : List Char} {c : Char}
    (h : c ∈ collapseUnderscores prev s) : c ∈ s := by
  induction s generalizing prev with
  | nil => exact h
  | cons d rest ih =>
    unfold collapseUnderscores at h
    split_ifs at h with hd hprev
    · exact List.mem_cons_of_mem _ (ih h)
    · rcases List.mem_cons.mp h with rfl | h
      · rw [hd]
        exact List.mem_cons_self ..
      · exact List.mem_cons_of_mem _ (ih h)
    · rcases List.mem_cons.mp h with rfl | h
      · exact List.mem_cons_self ..
      · exact List.mem_cons_of_mem _ (ih h)

/-- Behind an underscore the collapsed rest does not begin with one. -/
theorem collapse_spaced (prev : Bool) (s : List Char) :
    (collapseUnderscores prev s).IsChain (fun a b => ¬(a = '_' ∧ b = '_')) ∧
      (prev = true → (collapseUnderscores prev s).head? ≠ some '_') := by
  induction s generalizing prev with
  | nil => simp [collapseUnderscores]
  | cons c rest ih =>
    unfold collapseUnderscores
    split_ifs with hc hprev
    · exact ⟨(ih true).1, fun _ => (ih true).2 rfl⟩
    · refine ⟨?_, fun h => absurd h hprev⟩
      rw [List.isChain_cons]
      refine ⟨fun b hb => ?_, (ih true).1⟩
      rintro ⟨-, rfl⟩
      exact (ih true).2 rfl hb
    · refine ⟨?_, fun _ h => hc (by simpa using h)⟩
      rw [List.isChain_cons]
      exact ⟨fun b hb h => hc h.1, (ih false).1⟩

theorem segmented_segmentChars (name : List Char) : Segmented (segmentChars name) := by
  obtain ⟨before, behind, hwhole⟩ := trimMatches_slice (· == '_')
    (collapseUnderscores false ((insertBoundaries none name).map sanitizeChar))
  refine ⟨fun c hc => ?_, ?_, fun h => ?_, fun h => ?_⟩
  · have hmem : c ∈ collapseUnderscores false ((insertBoundaries none name).map sanitizeChar) := by
      rw [← hwhole]
      exact List.mem_append_left _ (List.mem_append_right _ hc)
    obtain ⟨d, -, rfl⟩ := List.mem_map.mp (mem_of_mem_collapse hmem)
    exact isSegmentChar_sanitizeChar d
  · have hspaced := (collapse_spaced false ((insertBoundaries none name).map sanitizeChar)).1
    rw [← hwhole] at hspaced
    exact hspaced.left_of_append.right_of_append
  · have := head?_trimMatches _ _ '_' h
    simp at this
  · have := getLast?_trimMatches _ _ '_' h
    simp at this

/-! ### What the loops leave alone -/

theorem insertBoundaries_of_lower {s : List Char} (h : ∀ c ∈ s, c.isUpper = false)
    (prev : Option Char) : insertBoundaries prev s = s := by
  induction s generalizing prev with
  | nil => rfl
  | cons c rest ih =>
    have hc := h c (List.mem_cons_self ..)
    have hnone : prev.any (boundaryBefore · c rest.head?) = false := by
      cases prev with
      | none => rfl
      | some p => simp [boundaryBefore, hc]
    rw [insertBoundaries, hnone, ih fun d hd => h d (List.mem_cons_of_mem _ hd)]
    rfl

theorem collapse_of_spaced {s : List Char} (h : s.IsChain fun a b => ¬(a = '_' ∧ b = '_'))
    {prev : Bool} (hprev : prev = true → s.head? ≠ some '_') : collapseUnderscores prev s = s := by
  induction s generalizing prev with
  | nil => rfl
  | cons c rest ih =>
    rw [List.isChain_cons] at h
    unfold collapseUnderscores
    split_ifs with hc hp
    · exact absurd (by rw [hc]; rfl) (hprev hp)
    · rw [ih h.2 fun _ hb => h.1 _ hb ⟨hc, rfl⟩, hc]
    · rw [ih h.2 (by simp)]

theorem segmentChars_of_segmented {s : List Char} (h : Segmented s) : segmentChars s = s := by
  have hinsert : insertBoundaries none s = s :=
    insertBoundaries_of_lower (fun c hc => (sanitizeChar_of_segmentChar (h.chars c hc)).2) none
  have hmap : s.map sanitizeChar = s := by
    calc s.map sanitizeChar = s.map id :=
          List.map_congr_left fun c hc => (sanitizeChar_of_segmentChar (h.chars c hc)).1
      _ = s := List.map_id s
  rw [segmentChars, hinsert, hmap, collapse_of_spaced h.spaced (by simp)]
  refine trimMatches_of_ends (fun c hc => ?_) fun c hc => ?_
  · have hne : c ≠ '_' := by
      rintro rfl
      exact h.head hc
    simpa using hne
  · have hne : c ≠ '_' := by
      rintro rfl
      exact h.last hc
    simpa using hne

/-- The conversion has nothing left to do on what it yields. -/
theorem classNameToSegment_idempotent (className : String) :
    classNameToSegment (classNameToSegment className) = classNameToSegment className := by
  unfold classNameToSegment
  rw [String.toList_ofList, segmentChars_of_segmented (segmented_segmentChars _)]

theorem segmented_classNameToSegment (className : String) :
    Segmented (classNameToSegment className).toList := by
  rw [classNameToSegment, String.toList_ofList]
  exact segmented_segmentChars className.toList

/-! ## Derived ids -/

/-- Of several classes, some are marked. -/
def multiClassFile (classes : List DiscoveredClass) : Bool :=
  decide (1 < (classes.filter (·.implementsModule)).length) &&
    (classes.filter (·.implementsModule)).any (·.multiClass)

/-- The classes that take part: the marked ones of several, else the first one. -/
def participating (classes : List DiscoveredClass) : List DiscoveredClass :=
  if multiClassFile classes then (classes.filter (·.implementsModule)).filter (·.multiClass)
  else (classes.filter (·.implementsModule)).take 1

/-- The id of a participating class. -/
def derivedId (filePath extensionsRoot : String) (classes : List DiscoveredClass)
    (cls : DiscoveredClass) : String :=
  if multiClassFile classes then
    computeBaseId filePath extensionsRoot ++ "." ++ classNameToSegment cls.name
  else computeBaseId filePath extensionsRoot

/-- A canonical id that is not too long. -/
structure ValidId (moduleId : String) : Prop where
  canonical : matchesCanonicalId moduleId = true
  length_le : moduleId.length ≤ maxModuleIdLength

/-- A character takes a byte at least. -/
theorem length_le_utf8ByteSize (s : String) : s.length ≤ s.utf8ByteSize := by
  have hchars : ∀ l : List Char, l.length ≤ (String.ofList l).utf8ByteSize := by
    intro l
    induction l with
    | nil => exact Nat.zero_le _
    | cons c rest ih =>
      have hsplit : String.ofList (c :: rest) = String.singleton c ++ String.ofList rest := by
        apply String.toList_injective
        simp
      have hc := c.utf8Size_pos
      rw [hsplit, String.utf8ByteSize_append, String.utf8ByteSize_singleton, List.length_cons]
      omega
  have h := hchars s.toList
  rwa [String.ofList_toList] at h

/-- What the loop yields on the classes that are left, where `seen` were before them. -/
structure MarkedIds (baseId : String) (seen : List (String × String))
    (classes : List DiscoveredClass) (ids : List String) : Prop where
  eq_map : ids = classes.map fun cls => baseId ++ "." ++ classNameToSegment cls.name
  valid : ∀ moduleId ∈ ids, ValidId moduleId
  fresh : ∀ cls ∈ classes, ∀ entry ∈ seen, entry.2 ≠ classNameToSegment cls.name
  nodup : (classes.map fun cls => classNameToSegment cls.name).Nodup

theorem markedIds_of_deriveMarked {filePath baseId : String} {seen : List (String × String)}
    {classes : List DiscoveredClass} {ids : List String}
    (h : deriveMarked filePath baseId seen classes = .ok ids) :
    MarkedIds baseId seen classes ids := by
  -- on the classes; each one adds its segment to what the rest must avoid
  induction classes generalizing seen ids with
  | nil =>
    cases h
    exact ⟨rfl, by simp, by simp, List.nodup_nil⟩
  | cons cls rest ih =>
    simp only [deriveMarked] at h
    cases hfind : seen.find? (·.2 == classNameToSegment cls.name) with
    | some prior =>
      rw [hfind] at h
      split_ifs at h
    | none =>
      rw [hfind] at h
      dsimp only at h
      split_ifs at h with hsegment hcanonical hlong
      cases hrest : deriveMarked filePath baseId
          (seen ++ [(cls.name, classNameToSegment cls.name)]) rest with
      | error e =>
        rw [hrest] at h
        cases h
      | ok restIds =>
        rw [hrest] at h
        cases h
        have hih := ih hrest
        constructor
        case eq_map => rw [List.map_cons, ← hih.eq_map]
        case valid =>
          rintro moduleId (_ | ⟨_, hmem⟩)
          · have hle := length_le_utf8ByteSize (baseId ++ "." ++ classNameToSegment cls.name)
            exact ⟨by simpa using hcanonical, by omega⟩
          · exact hih.valid moduleId hmem
        case fresh =>
          rintro other (_ | ⟨_, hmem⟩) entry hentry
          · have hne := List.find?_eq_none.mp hfind entry hentry
            simpa using hne
          · exact hih.fresh other hmem entry (List.mem_append_left _ hentry)
        case nodup =>
          rw [List.map_cons, List.nodup_cons]
          refine ⟨fun hmem => ?_, hih.nodup⟩
          obtain ⟨other, hother, heq⟩ := List.mem_map.mp hmem
          exact hih.fresh other hother _ (List.mem_append_right _ (List.mem_singleton_self _))
            heq.symm

/-- Appending to one base keeps segments apart. -/
theorem MarkedIds.nodup_ids {baseId : String} {seen : List (String × String)}
    {classes : List DiscoveredClass} {ids : List String}
    (h : MarkedIds baseId seen classes ids) : ids.Nodup := by
  have happend : Function.Injective fun segment : String => baseId ++ "." ++ segment := by
    intro a b hab
    apply String.toList_injective
    have hchars := congrArg String.toList hab
    simpa using hchars
  have hnodup := h.nodup.map happend
  rw [List.map_map] at hnodup
  rw [h.eq_map]
  exact hnodup

/-- The ids of the participating classes, in order and apart. The id of the file is passed on as it
is; every id with a segment was checked. -/
structure DerivedIds (filePath extensionsRoot : String) (classes : List DiscoveredClass)
    (ids : List String) : Prop where
  eq_map : ids = (participating classes).map (derivedId filePath extensionsRoot classes)
  nodup : ids.Nodup
  valid : multiClassFile classes = true ∨ ValidId (computeBaseId filePath extensionsRoot) →
    ∀ moduleId ∈ ids, ValidId moduleId

/-- A file whose classes share its id. -/
theorem derivedIds_single {filePath extensionsRoot : String} {classes : List DiscoveredClass}
    (hfile : multiClassFile classes = false) (hsome : classes.filter (·.implementsModule) ≠ []) :
    DerivedIds filePath extensionsRoot classes [computeBaseId filePath extensionsRoot] := by
  obtain ⟨cls, rest, hcons⟩ := List.exists_cons_of_ne_nil hsome
  constructor
  case eq_map => simp [participating, derivedId, hfile, hcons]
  case nodup => exact by simp
  case valid =>
    rintro (h | h) moduleId hmem
    · simp [hfile] at h
    · rw [List.mem_singleton.mp hmem]
      exact h

theorem derivedIds_of_deriveModuleIds {filePath extensionsRoot : String}
    {classes : List DiscoveredClass} {ids : List String}
    (h : deriveModuleIds filePath extensionsRoot classes = .ok ids) :
    DerivedIds filePath extensionsRoot classes ids := by
  unfold deriveModuleIds at h
  dsimp only at h
  split_ifs at h with hnone hone hmarked
  · cases h
    exact ⟨by simp [participating, hnone, multiClassFile], List.nodup_nil, by simp⟩
  · cases h
    exact derivedIds_single (by simp [multiClassFile, hone]) hnone
  · cases h
    exact derivedIds_single (by simp only [multiClassFile]; simp_all) hnone
  · have hfile : multiClassFile classes = true := by
      have hlength := List.length_pos_iff.mpr hnone
      simp only [multiClassFile, Bool.and_eq_true, decide_eq_true_eq]
      exact ⟨by omega, by simpa using hmarked⟩
    have hids := markedIds_of_deriveMarked h
    refine ⟨?_, hids.nodup_ids, fun _ => hids.valid⟩
    rw [hids.eq_map, participating, if_pos hfile]
    exact List.map_congr_left fun cls _ => by rw [derivedId, if_pos hfile]

/-- What `derive_module_ids` yields, and what a segment looks like. -/
theorem derivedIds_and_segments :
    (∀ (filePath extensionsRoot : String) (classes : List DiscoveredClass) (ids : List String),
      deriveModuleIds filePath extensionsRoot classes = .ok ids →
        DerivedIds filePath extensionsRoot classes ids) ∧
    ∀ className : String,
      classNameToSegment (classNameToSegment className) = classNameToSegment className ∧
        Segmented (classNameToSegment className).toList :=
  ⟨fun _ _ _ _ h => derivedIds_of_deriveModuleIds h, fun className =>
    ⟨classNameToSegment_idempotent className, segmented_classNameToSegment className⟩⟩

theorem derivedIds_and_segments_two :
    DerivedIds "extensions/math.rs" "extensions"
      [⟨"AddOp", true, true⟩, ⟨"Helper", true, false⟩, ⟨"MulOp", true, true⟩]
      ["math.add_op", "math.mul_op"] := by
  refine derivedIds_and_segments.1 _ _ _ _ ?_
  have h : (deriveModuleIds "extensions/math.rs" "extensions"
      [⟨"AddOp", true, true⟩, ⟨"Helper", true, false⟩, ⟨"MulOp", true, true⟩]).toOption =
      some ["math.add_op", "math.mul_op"] := by decide +kernel
  exact Fallible.ok_of_toOption h

/-- A lone class gets the id of its file, which need not be a canonical one. -/
theorem not_derivedIds_canonical :
    ¬∀ (filePath extensionsRoot : String) (classes : List DiscoveredClass) (ids : List String),
      deriveModuleIds filePath extensionsRoot classes = .ok ids →
        ∀ moduleId ∈ ids, matchesCanonicalId moduleId = true := by
  intro h
  have hok : deriveModuleIds "extensions/Bad-Name.rs" "extensions" [⟨"Bad", true, false⟩] =
      .ok ["Bad-Name"] :=
    Fallible.ok_of_toOption (by decide +kernel)
  have hcanonical := h _ _ _ _ hok "Bad-Name" (List.mem_singleton_self _)
  exact absurd hcanonical (by decide +kernel)

end Apcore
