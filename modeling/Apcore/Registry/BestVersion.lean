import Mathlib.Data.List.Sort
import Mathlib.Data.List.Perm.Basic
import Apcore.Registry.Version

/-! # `Registry.BestVersion` — malformed hints, and the best version

A constraint is malformed by its text alone. The loop over the parts of a hint reads a part only
when the version satisfies all parts before it, and the selection reads the hint only when there
is a version to try; so a malformed part is reported exactly when it is reached
(`validatedInFull_iff`). -/

namespace Apcore

/-- The loop of `try_select_best_version` over the candidates, the highest first. -/
def selectFrom (hint : String) : List String → Except ModuleError (Option String)
  | [] => .ok none
  | candidate :: rest =>
    match tryMatchesVersionHint candidate hint with
    | .error e => .error e
    | .ok true => .ok (some candidate)
    | .ok false => selectFrom hint rest

/-- `try_select_best_version`. -/
def trySelectBestVersion (versions : List String) (versionHint : Option String) :
    Except ModuleError (Option String) :=
  if versions.isEmpty then .ok none
  else
    let sorted := versions.insertionSort fun a b => parseSemver a ≤ parseSemver b
    match versionHint with
    | none => .ok sorted.getLast?
    | some hint => selectFrom hint sorted.reverse

example : (trySelectBestVersion ["1.0.0", "1.10.0", "1.2.0"] (some "^1.0")).toOption =
    some (some "1.10.0") := by decide +kernel

/-! ## The parts of a hint -/

/-- The parts the loop of `try_matches_version_hint` goes through. -/
def hintParts (hint : String) : List (List Char) := hint.toList.splitOn ','

/-- The part is a constraint. -/
def wellFormedPart (part : List Char) : Bool := (splitConstraint (rustTrim part)).isOk

/-- The part is a constraint, and the version satisfies it. -/
def satisfiesPart (version : SemVer) (part : List Char) : Bool :=
  match checkSingleConstraint version (rustTrim part) with
  | .ok b => b
  | .error _ => false

/-- Some part of the hint is malformed. -/
def MalformedHint (hint : String) : Prop := ∃ part ∈ hintParts hint, wellFormedPart part = false

/-- The version satisfies every part before the first malformed one. -/
def PassesUntilMalformed (version : SemVer) (hint : String) : Prop :=
  ∀ part ∈ (hintParts hint).takeWhile wellFormedPart, satisfiesPart version part = true

/-- A constraint errs on a version exactly when it is malformed, whatever the version. -/
theorem checkSingleConstraint_of_wellFormed (version : SemVer) {part : List Char}
    (h : wellFormedPart part = true) :
    checkSingleConstraint version (rustTrim part) = .ok (satisfiesPart version part) := by
  unfold wellFormedPart at h
  unfold satisfiesPart checkSingleConstraint
  cases hsplit : splitConstraint (rustTrim part) with
  | error e => simp [hsplit, Except.isOk, Except.toBool] at h
  | ok split => rfl

theorem checkSingleConstraint_of_malformed (version : SemVer) {part : List Char}
    (h : wellFormedPart part = false) :
    ∃ e, checkSingleConstraint version (rustTrim part) = .error e := by
  unfold wellFormedPart at h
  unfold checkSingleConstraint
  cases hsplit : splitConstraint (rustTrim part) with
  | error e => exact ⟨e, rfl⟩
  | ok split => simp [hsplit, Except.isOk, Except.toBool] at h

/-! ## The loop -/

/-- Parts that are all constraints make a conjunction. -/
theorem checkConstraints_of_wellFormed (version : SemVer) {parts : List (List Char)}
    (h : ∀ part ∈ parts, wellFormedPart part = true) :
    checkConstraints version parts = .ok (parts.all (satisfiesPart version)) := by
  induction parts with
  | nil => rfl
  | cons part rest ih =>
    have hpart := checkSingleConstraint_of_wellFormed version (h part (List.mem_cons_self ..))
    have hrest := ih fun p hp => h p (List.mem_cons_of_mem _ hp)
    unfold checkConstraints
    rw [hpart]
    cases hsat : satisfiesPart version part
    · simp [hsat]
    · simp [hsat, hrest]

/-- The loop errs exactly when there is a malformed part and the version satisfies all before
the first. -/
theorem checkConstraints_isOk_eq_false (version : SemVer) (parts : List (List Char)) :
    (checkConstraints version parts).isOk = false ↔
      (∃ part ∈ parts, wellFormedPart part = false) ∧
        ∀ part ∈ parts.takeWhile wellFormedPart, satisfiesPart version part = true := by
  induction parts with
  | nil => simp [checkConstraints, Except.isOk, Except.toBool]
  | cons part rest ih =>
    cases hwell : wellFormedPart part
    · obtain ⟨e, he⟩ := checkSingleConstraint_of_malformed version hwell
      simp [checkConstraints, he, hwell, Except.isOk, Except.toBool]
    · have hpart := checkSingleConstraint_of_wellFormed version hwell
      cases hsat : satisfiesPart version part
      · -- the loop ends here, before any malformed part
        simp [checkConstraints, hpart, hsat, hwell, Except.isOk, Except.toBool]
      · rw [checkConstraints, hpart, hsat]
        simpa [hwell, hsat] using ih

theorem tryMatchesVersionHint_isOk_eq_false (version hint : String) :
    (tryMatchesVersionHint version hint).isOk = false ↔
      MalformedHint hint ∧ PassesUntilMalformed (parseSemver version) hint :=
  checkConstraints_isOk_eq_false _ _

/-- Without a malformed part, the hint is the conjunction of its parts. -/
theorem tryMatchesVersionHint_of_wellFormed (version : String) {hint : String}
    (h : ¬MalformedHint hint) :
    tryMatchesVersionHint version hint =
      .ok ((hintParts hint).all (satisfiesPart (parseSemver version))) := by
  refine checkConstraints_of_wellFormed _ fun part hpart => ?_
  rw [← Bool.not_eq_false]
  exact fun hwell => h ⟨part, hpart, hwell⟩

/-- No version satisfies a hint with a malformed part. -/
theorem tryMatchesVersionHint_ne_true {version hint : String} (h : MalformedHint hint) :
    tryMatchesVersionHint version hint ≠ .ok true := by
  obtain ⟨part, hmem, hwell⟩ := h
  obtain ⟨e, he⟩ := checkSingleConstraint_of_malformed (parseSemver version) hwell
  suffices hloop : ∀ parts, part ∈ parts →
      checkConstraints (parseSemver version) parts ≠ .ok true from hloop _ hmem
  intro parts hin
  induction parts with
  | nil => simp at hin
  | cons head rest ih =>
    unfold checkConstraints
    rcases List.mem_cons.mp hin with rfl | hin
    · simp [he]
    · cases checkSingleConstraint (parseSemver version) (rustTrim head) with
      | error e => simp
      | ok b =>
        cases b
        · simp
        · exact ih hin

/-! ## The selection -/

/-- With a malformed hint, the scan errs as soon as a candidate reaches the malformed part. -/
theorem selectFrom_isOk_eq_false {hint : String} (h : MalformedHint hint)
    (candidates : List String) :
    (selectFrom hint candidates).isOk = false ↔
      ∃ candidate ∈ candidates, PassesUntilMalformed (parseSemver candidate) hint := by
  induction candidates with
  | nil => simp [selectFrom, Except.isOk, Except.toBool]
  | cons candidate rest ih =>
    have hreach := tryMatchesVersionHint_isOk_eq_false candidate hint
    unfold selectFrom
    cases hmatch : tryMatchesVersionHint candidate hint with
    | error e =>
      have hr : PassesUntilMalformed (parseSemver candidate) hint :=
        (hreach.mp (by rw [hmatch]; rfl)).2
      simp [hr, Except.isOk, Except.toBool]
    | ok b =>
      have hr : ¬PassesUntilMalformed (parseSemver candidate) hint := fun hr => by
        have hbad := hreach.mpr ⟨h, hr⟩
        rw [hmatch] at hbad
        cases hbad
      cases b with
      | true => exact absurd hmatch (tryMatchesVersionHint_ne_true h)
      | false => simpa [hr] using ih

/-- Without a malformed part no candidate errs. -/
theorem selectFrom_isOk {hint : String} (h : ¬MalformedHint hint) (candidates : List String) :
    (selectFrom hint candidates).isOk = true := by
  induction candidates with
  | nil => rfl
  | cons candidate rest ih =>
    unfold selectFrom
    rw [tryMatchesVersionHint_of_wellFormed candidate h]
    cases (hintParts hint).all (satisfiesPart (parseSemver candidate))
    · exact ih
    · rfl

theorem trySelectBestVersion_isOk_eq_false (versions : List String) (hint : String) :
    (trySelectBestVersion versions (some hint)).isOk = false ↔
      MalformedHint hint ∧
        ∃ candidate ∈ versions, PassesUntilMalformed (parseSemver candidate) hint := by
  unfold trySelectBestVersion
  by_cases hbad : MalformedHint hint
  · cases versions with
    | nil => simp [Except.isOk, Except.toBool]
    | cons head rest => simp [selectFrom_isOk_eq_false hbad, hbad]
  · split_ifs
    · simp [hbad, Except.isOk, Except.toBool]
    · simp [hbad, selectFrom_isOk hbad]

/-- A hint validated in full: matching and selecting err exactly on a malformed part, and a hint
without one is the conjunction of its parts. -/
structure ValidatedInFull (version hint : String) (versions : List String) : Prop where
  errs : (tryMatchesVersionHint version hint).isOk = false ↔ MalformedHint hint
  conjunction : ¬MalformedHint hint → tryMatchesVersionHint version hint =
    .ok ((hintParts hint).all (satisfiesPart (parseSemver version)))
  selects : (trySelectBestVersion versions (some hint)).isOk = false ↔ MalformedHint hint
  unhinted : (trySelectBestVersion versions none).isOk = true

/-- **A hint is validated in full exactly when every part of it is reached**: no part is
malformed, or the version and one of the versions to select from satisfy all before the first
malformed one. -/
theorem validatedInFull_iff (version hint : String) (versions : List String) :
    ValidatedInFull version hint versions ↔
      ¬MalformedHint hint ∨
        (PassesUntilMalformed (parseSemver version) hint ∧
          ∃ candidate ∈ versions, PassesUntilMalformed (parseSemver candidate) hint) := by
  have herrs := tryMatchesVersionHint_isOk_eq_false version hint
  have hselects := trySelectBestVersion_isOk_eq_false versions hint
  constructor
  · intro h
    by_cases hbad : MalformedHint hint
    · exact Or.inr ⟨(herrs.mp (h.errs.mpr hbad)).2, (hselects.mp (h.selects.mpr hbad)).2⟩
    · exact Or.inl hbad
  · intro h
    refine ⟨?_, tryMatchesVersionHint_of_wellFormed version, ?_, ?_⟩
    · rw [herrs, and_iff_left_iff_imp]
      intro hbad
      exact (h.resolve_left (not_not_intro hbad)).1
    · rw [hselects, and_iff_left_iff_imp]
      intro hbad
      exact (h.resolve_left (not_not_intro hbad)).2
    · unfold trySelectBestVersion
      split_ifs <;> rfl

/-- An unmatched part hides the malformed one after it. -/
theorem not_validatedInFull :
    ¬∀ version hint versions, ValidatedInFull version hint versions := by
  intro h
  have herr := (h "1.0.0" ">=2.0.0,latest" []).errs.mpr
    ⟨"latest".toList, by decide +kernel, by decide +kernel⟩
  revert herr
  decide +kernel

end Apcore

/-! ## The best version, and in which order it is chosen

The selection sorts the versions by their triples and takes the last one that matches. Versions are
strings, and different strings may have one triple; then the sort leaves them in the order in which
they come, which is that of a hash map. `orderFree_iff` says when the choice does not depend on it. -/

namespace Apcore

/-- `select_best_version`. -/
def selectBestVersion (versions : List String) (versionHint : Option String) : Option String :=
  match trySelectBestVersion versions versionHint with
  | .ok chosen => chosen
  | .error _ => none

/-- `VersionedStore`; the versions of an id are in an order in which the map may go through them,
whatever the order in which they were added. -/
structure VersionedStore (T : Type) where
  data : String → Option (List (String × T))

namespace VersionedStore

variable {T : Type}

/-- `VersionedStore::get_latest`. -/
def getLatest (store : VersionedStore T) (moduleId : String) : Option T :=
  (store.data moduleId).bind fun versions =>
    (selectBestVersion (versions.map (·.1)) none).bind (Fields.get? versions)

/-- `VersionedStore::resolve`. -/
def resolve (store : VersionedStore T) (moduleId : String) (versionHint : Option String) : Option T :=
  (store.data moduleId).bind fun versions =>
    (selectBestVersion (versions.map (·.1)) versionHint).bind (Fields.get? versions)

/-- A store with the versions of one id. -/
def holding (moduleId : String) (versions : List (String × T)) : VersionedStore T where
  data := fun id => if id = moduleId then some versions else none

end VersionedStore

/-! ## What is chosen -/

/-- The hint has no malformed part. -/
def WellFormedHint (versionHint : Option String) : Prop := ∀ hint ∈ versionHint, ¬MalformedHint hint

theorem wellFormedHint_none : WellFormedHint none := by
  intro hint h
  cases h

/-- The version matches the hint. -/
def fitsHint (versionHint : Option String) (version : String) : Bool :=
  versionHint.all fun hint => (hintParts hint).all (satisfiesPart (parseSemver version))

/-- The versions from the highest on; of equal ones the last comes first. -/
def descending (versions : List String) : List String :=
  (versions.insertionSort fun a b => parseSemver a ≤ parseSemver b).reverse

/-- One of the best versions: it matches, and no version that matches is higher. -/
structure Best (versionHint : Option String) (versions : List String) (version : String) : Prop where
  mem : version ∈ versions
  fits : fitsHint versionHint version = true
  highest : ∀ other ∈ versions, fitsHint versionHint other = true →
    parseSemver other ≤ parseSemver version

section

variable {versionHint : Option String} {versions order : List String} {version chosen : String}

/-- A well-formed hint is matched as `fitsHint` says. -/
theorem tryMatches_of_fitsHint {hint : String} (h : ¬MalformedHint hint) (version : String) :
    tryMatchesVersionHint version hint = .ok (fitsHint (some hint) version) :=
  tryMatchesVersionHint_of_wellFormed version h

theorem selectFrom_eq_find {hint : String} (h : ¬MalformedHint hint) (candidates : List String) :
    selectFrom hint candidates = .ok (candidates.find? (fitsHint (some hint))) := by
  induction candidates with
  | nil => rfl
  | cons candidate rest ih =>
    rw [selectFrom, tryMatches_of_fitsHint h, List.find?_cons]
    cases fitsHint (some hint) candidate
    · exact ih
    · rfl

/-- The choice is the first version that matches, from the highest on. -/
theorem selectBestVersion_eq_find (h : WellFormedHint versionHint) (versions : List String) :
    selectBestVersion versions versionHint = (descending versions).find? (fitsHint versionHint) := by
  unfold selectBestVersion trySelectBestVersion
  cases versions with
  | nil => rfl
  | cons head rest =>
    rw [if_neg (by simp)]
    cases versionHint with
    | none =>
      rw [descending]
      show List.getLast? _ = _
      rw [List.getLast?_eq_head?_reverse]
      generalize List.reverse _ = sorted
      cases sorted <;> rfl
    | some hint =>
      dsimp only
      rw [selectFrom_eq_find (h hint rfl)]
      rfl

theorem mem_descending : version ∈ descending versions ↔ version ∈ versions := by
  rw [descending, List.mem_reverse, List.mem_insertionSort]

theorem descending_pairwise (versions : List String) :
    (descending versions).Pairwise fun a b => parseSemver b ≤ parseSemver a := by
  rw [descending, List.pairwise_reverse]
  have : Std.Total (fun a b : String => parseSemver a ≤ parseSemver b) := ⟨fun a b => le_total _ _⟩
  have : IsTrans String (fun a b : String => parseSemver a ≤ parseSemver b) :=
    ⟨fun _ _ _ => le_trans⟩
  exact List.pairwise_insertionSort _ versions

/-- What is chosen is one of the best. -/
theorem best_of_select (h : WellFormedHint versionHint)
    (hchosen : selectBestVersion versions versionHint = some chosen) :
    Best versionHint versions chosen := by
  rw [selectBestVersion_eq_find h, List.find?_eq_some_iff_append] at hchosen
  obtain ⟨hfits, front, rest, hsplit, hfront⟩ := hchosen
  have hpairwise := hsplit ▸ descending_pairwise versions
  rw [List.pairwise_append] at hpairwise
  refine ⟨mem_descending.mp (hsplit ▸ List.mem_append_right _ List.mem_cons_self), hfits, ?_⟩
  intro other hother hmatch
  rcases List.mem_append.mp (hsplit ▸ mem_descending.mpr hother) with hmem | hmem
  · have hnot := hfront other hmem
    rw [hmatch] at hnot
    exact absurd hnot (by simp)
  · rcases List.mem_cons.mp hmem with rfl | hmem
    · exact le_rfl
    · exact (List.pairwise_cons.mp hpairwise.2.1).1 other hmem

/-- Nothing is chosen exactly when nothing matches. -/
theorem select_eq_none_iff (h : WellFormedHint versionHint) :
    selectBestVersion versions versionHint = none ↔
      ∀ version ∈ versions, fitsHint versionHint version = false := by
  rw [selectBestVersion_eq_find h, List.find?_eq_none]
  simp only [mem_descending, Bool.not_eq_true]

theorem Best.of_perm (hbest : Best versionHint order version) (hperm : order.Perm versions) :
    Best versionHint versions version :=
  ⟨hperm.mem_iff.mp hbest.mem, hbest.fits, fun other hother =>
    hbest.highest other (hperm.mem_iff.mpr hother)⟩

/-- The last version of an order goes behind all that are not higher. -/
theorem insertionSort_last (order : List String) (version : String) :
    ∃ front back,
      ((order ++ [version]).insertionSort fun a b => parseSemver a ≤ parseSemver b) =
        front ++ version :: back ∧ ∀ other ∈ back, parseSemver version < parseSemver other := by
  induction order with
  | nil => exact ⟨[], [], rfl, by simp⟩
  | cons a order ih =>
    obtain ⟨front, back, hsort, hback⟩ := ih
    rw [List.cons_append, List.insertionSort_cons, hsort]
    clear hsort
    induction front with
    | nil =>
      rw [List.nil_append, List.orderedInsert_cons]
      split_ifs with hle
      · exact ⟨[a], back, rfl, hback⟩
      · refine ⟨[], _, rfl, fun other hother => ?_⟩
        rcases (List.mem_orderedInsert _).mp hother with rfl | hother
        · exact not_le.mp hle
        · exact hback other hother
    | cons b front ih =>
      rw [List.cons_append, List.orderedInsert_cons]
      split_ifs with hle
      · exact ⟨a :: b :: front, back, rfl, hback⟩
      · obtain ⟨front', back', hinsert, hback'⟩ := ih
        exact ⟨b :: front', back', by rw [hinsert, List.cons_append], hback'⟩

/-- One of the best that comes last is chosen. -/
theorem select_of_best_last (h : WellFormedHint versionHint)
    (hbest : Best versionHint (order ++ [version]) version) :
    selectBestVersion (order ++ [version]) versionHint = some version := by
  obtain ⟨front, back, hsort, hback⟩ := insertionSort_last order version
  have hdescending : descending (order ++ [version]) = back.reverse ++ version :: front.reverse := by
    rw [descending, hsort, List.reverse_append, List.reverse_cons, List.append_assoc]
    rfl
  rw [selectBestVersion_eq_find h, hdescending, List.find?_eq_some_iff_append]
  refine ⟨hbest.fits, back.reverse, front.reverse, rfl, fun other hother => ?_⟩
  rw [Bool.not_eq_true']
  by_contra hmatch
  have hhigher := hback other (List.mem_reverse.mp hother)
  have hmem : other ∈ order ++ [version] := by
    rw [← mem_descending, hdescending]
    exact List.mem_append_left _ hother
  exact absurd (hbest.highest other hmem (by simpa using hmatch)) (not_le.mpr hhigher)

/-- Any of the best is chosen in some order. -/
theorem exists_order (h : WellFormedHint versionHint) (hbest : Best versionHint versions version) :
    ∃ order, order.Perm versions ∧ selectBestVersion order versionHint = some version := by
  have hperm : (versions.erase version ++ [version]).Perm versions :=
    (List.perm_append_singleton _ _).trans (List.perm_cons_erase hbest.mem).symm
  exact ⟨_, hperm, select_of_best_last h (hbest.of_perm hperm.symm)⟩

end

/-! ## In every order -/

/-- Whatever the order of the versions, one of the best is chosen if there is one, by the selection
and by a store; and it is always the same. -/
structure OrderFree (versions : List String) (versionHint : Option String) : Prop where
  best : ∀ order, order.Perm versions → ∀ chosen,
    selectBestVersion order versionHint = some chosen → Best versionHint versions chosen
  found : ∀ order, order.Perm versions →
    (selectBestVersion order versionHint = none ↔
      ∀ version ∈ versions, fitsHint versionHint version = false)
  same : ∀ order, order.Perm versions →
    selectBestVersion order versionHint = selectBestVersion versions versionHint
  resolves : ∀ {T : Type} (moduleId : String) (entries : List (String × T)),
    (entries.map (·.1)).Perm versions →
      (VersionedStore.holding moduleId entries).resolve moduleId versionHint =
        (selectBestVersion versions versionHint).bind (Fields.get? entries)
  latest : versionHint = none → ∀ {T : Type} (moduleId : String) (entries : List (String × T)),
    (entries.map (·.1)).Perm versions →
      (VersionedStore.holding moduleId entries).getLatest moduleId =
        (selectBestVersion versions versionHint).bind (Fields.get? entries)

/-- **The choice is free of the order exactly when there is one best version**, that is when no two
different strings match with the highest triple. -/
theorem orderFree_iff {versions : List String} {versionHint : Option String}
    (h : WellFormedHint versionHint) :
    OrderFree versions versionHint ↔
      ∀ first second, Best versionHint versions first → Best versionHint versions second →
        first = second := by
  constructor
  · intro hfree first second hfirst hsecond
    obtain ⟨order, hperm, hchosen⟩ := exists_order h hfirst
    obtain ⟨order', hperm', hchosen'⟩ := exists_order h hsecond
    rw [hfree.same order hperm] at hchosen
    rw [hfree.same order' hperm', hchosen] at hchosen'
    exact Option.some.inj hchosen'
  · intro hunique
    have hbest (order : List String) (hperm : order.Perm versions) (chosen : String)
        (hchosen : selectBestVersion order versionHint = some chosen) :
        Best versionHint versions chosen := (best_of_select h hchosen).of_perm hperm
    have hfound (order : List String) (hperm : order.Perm versions) :
        selectBestVersion order versionHint = none ↔
          ∀ version ∈ versions, fitsHint versionHint version = false := by
      rw [select_eq_none_iff h]
      exact forall_congr' fun version => by rw [hperm.mem_iff]
    have hsame (order : List String) (hperm : order.Perm versions) :
        selectBestVersion order versionHint = selectBestVersion versions versionHint := by
      cases hwhole : selectBestVersion versions versionHint with
      | none => exact (hfound order hperm).mpr ((hfound versions (.refl _)).mp hwhole)
      | some chosen =>
        cases horder : selectBestVersion order versionHint with
        | none =>
          rw [(hfound versions (.refl _)).mpr ((hfound order hperm).mp horder)] at hwhole
          cases hwhole
        | some chosen' =>
          rw [hunique chosen' chosen (hbest order hperm _ horder) (hbest versions (.refl _) _ hwhole)]
    have hresolves {T : Type} (moduleId : String) (entries : List (String × T))
        (hperm : (entries.map (·.1)).Perm versions) :
        (VersionedStore.holding moduleId entries).resolve moduleId versionHint =
          (selectBestVersion versions versionHint).bind (Fields.get? entries) := by
      rw [← hsame _ hperm, VersionedStore.resolve, VersionedStore.holding]
      dsimp only
      rw [if_pos rfl, Option.bind_some]
    refine ⟨hbest, hfound, hsame, hresolves, ?_⟩
    rintro rfl T moduleId entries hperm
    exact hresolves moduleId entries hperm

/-- Of two versions with different triples one is the best. -/
theorem orderFree_two : OrderFree ["1.2.0", "1.10.0"] none := by
  have hlast (version : String) (h : Best none ["1.2.0", "1.10.0"] version) : version = "1.10.0" := by
    have hhigh := h.highest "1.10.0" (by simp) rfl
    rcases List.mem_cons.mp h.mem with rfl | hmem
    · exact absurd hhigh (by decide +kernel)
    · exact List.mem_singleton.mp hmem
  exact (orderFree_iff wellFormedHint_none).mpr fun first second hfirst hsecond =>
    (hlast first hfirst).trans (hlast second hsecond).symm

/-- A release and its pre-release have one triple. -/
theorem not_orderFree : ¬∀ versions versionHint, WellFormedHint versionHint →
    OrderFree versions versionHint := by
  intro h
  have hsame := (h ["1.0.0", "1.0.0-alpha"] none wellFormedHint_none).same ["1.0.0-alpha", "1.0.0"]
    (List.Perm.swap _ _ _)
  revert hsame
  decide +kernel

end Apcore
