import Apcore.Config.Keys
import Apcore.Json
import Apcore.Registry.Ids

/-! # `Config.EnvKeys` — the keys that environment variables name

A suffix of a variable's name becomes a dot path in one of two ways: by its underscores alone, or by
a path in the tree of a namespace's defaults. Upper and lower case are those of `str::to_uppercase`
and `str::to_lowercase`, which are left open here. -/

namespace Apcore

namespace Config

/-! ## By the underscores -/

/-- The loop of `env_key_to_dot_path_with_depth`, with the dots so far, over the rest of the
characters. -/
def scanUnderscores (maxDepth : Nat) : Nat → List Char → List Char
  | _, [] => []
  | dots, '_' :: '_' :: rest => '_' :: scanUnderscores maxDepth dots rest
  | dots, '_' :: rest =>
    if dots < maxDepth - 1 then '.' :: scanUnderscores maxDepth (dots + 1) rest
    else '_' :: scanUnderscores maxDepth dots rest
  | dots, c :: rest => c :: scanUnderscores maxDepth dots rest

/-- `env_key_to_dot_path_with_depth`. -/
def envKeyToDotPathWithDepth (lower : String → String) (raw : String) (maxDepth : Nat) : String :=
  String.ofList (scanUnderscores maxDepth 0 (lower raw).toList)

/-- Each dot as one underscore and each underscore as two. -/
def underscored (key : List Char) : List Char :=
  key.flatMap fun c => if c = '.' then ['_'] else if c = '_' then ['_', '_'] else [c]

/-- The name of a variable for a key, but for its prefix. -/
def envName (upper : String → String) (key : String) : String :=
  upper (String.ofList (underscored key.toList))

/-! ## By the tree of the defaults -/

/-- The ways to split a suffix at an underscore that is neither its first character nor its last;
`before` is what comes before, reversed. -/
def splitsFrom (before : List Char) : List Char → List (List Char × List Char)
  | [] => []
  | c :: rest =>
    if c = '_' ∧ before ≠ [] ∧ rest ≠ [] then (before.reverse, rest) :: splitsFrom (c :: before) rest
    else splitsFrom (c :: before) rest

/-- `match_suffix_to_tree`, with the levels that the depth limit leaves. -/
def matchSuffixWithin : Nat → List Char → List (String × Json) → Option (List Char)
  | levels, suffix, tree =>
    if Fields.containsKey tree (String.ofList suffix) then some suffix
    else
      match levels with
      | 0 => none
      | levels + 1 =>
        (splitsFrom [] suffix).findSome? fun split =>
          match Fields.get? tree (String.ofList split.1) with
          | some (.object subtree) =>
            (matchSuffixWithin levels split.2 subtree).map fun sub => split.1 ++ '.' :: sub
          | _ => none

/-- `match_suffix_to_tree`. -/
def matchSuffixToTree (suffix : String) (tree : List (String × Json)) (depth maxDepth : Nat) :
    Option String :=
  (matchSuffixWithin (maxDepth - 1 - depth) suffix.toList tree).map String.ofList

/-- The tree has a value at the path. -/
def HasPath (tree : List (String × Json)) : List String → Prop
  | [] => False
  | [key] => Fields.containsKey tree key = true
  | key :: path => ∃ subtree, Fields.get? tree key = some (.object subtree) ∧ HasPath subtree path

/-- The segments of a path joined by a character. -/
def joinBy (c : Char) (path : List String) : String :=
  String.ofList ([c].intercalate (path.map String.toList))

/-! ## What the scan does -/

variable {maxDepth dots : Nat} {rest : List Char}

theorem scanUnderscores_single (h : rest.head? ≠ some '_') :
    scanUnderscores maxDepth dots ('_' :: rest) =
      if dots < maxDepth - 1 then '.' :: scanUnderscores maxDepth (dots + 1) rest
      else '_' :: scanUnderscores maxDepth dots rest := by
  rw [scanUnderscores.eq_def]
  split
  · next heq => cases heq
  · next heq =>
    cases heq
    exact absurd rfl h
  · next heq =>
    cases heq
    rfl
  · next hne heq =>
    cases heq
    exact (hne rfl).elim

theorem scanUnderscores_other {c : Char} (h : c ≠ '_') :
    scanUnderscores maxDepth dots (c :: rest) = c :: scanUnderscores maxDepth dots rest := by
  rw [scanUnderscores.eq_def]
  split
  · next heq => cases heq
  · next heq =>
    cases heq
    exact absurd rfl h
  · next heq =>
    cases heq
    exact absurd rfl h
  · next heq =>
    cases heq
    rfl

/-- The scan gives back a segment, which has its underscores in pairs. -/
theorem scanUnderscores_segment {segment : List Char} (h : '.' ∉ segment) :
    scanUnderscores maxDepth dots (underscored segment ++ rest) =
      segment ++ scanUnderscores maxDepth dots rest := by
  induction segment with
  | nil => rfl
  | cons c segment ih =>
    obtain ⟨hc, hrest⟩ := not_or.mp (mt List.mem_cons.mpr h)
    rw [underscored, List.flatMap_cons, if_neg fun h' => hc h'.symm]
    by_cases hu : c = '_'
    · subst hu
      rw [if_pos rfl]
      show scanUnderscores maxDepth dots ('_' :: '_' :: (underscored segment ++ rest)) = _
      rw [scanUnderscores, ih hrest]
      rfl
    · rw [if_neg hu]
      show scanUnderscores maxDepth dots (c :: (underscored segment ++ rest)) = _
      rw [scanUnderscores_other hu, ih hrest]
      rfl

theorem underscored_append (first second : List Char) :
    underscored (first ++ second) = underscored first ++ underscored second :=
  List.flatMap_append

/-- What a segment is written as begins like the segment. -/
theorem head?_underscored {segment : List Char} (hne : segment ≠ []) (hdot : '.' ∉ segment)
    (hlead : segment.head? ≠ some '_') : (underscored segment ++ rest).head? ≠ some '_' := by
  cases segment with
  | nil => exact absurd rfl hne
  | cons c segment =>
    have hc : c ≠ '.' := fun h => hdot (h ▸ List.mem_cons_self)
    have hu : c ≠ '_' := fun h => hlead (congrArg some h)
    rw [underscored, List.flatMap_cons, if_neg hc, if_neg hu]
    exact fun h => hu (Option.some.inj h)

/-- The scan gives back a path: the underscore between two segments stands alone, since no segment
begins with one. -/
theorem scanUnderscores_path {path : List (List Char)}
    (h : ∀ segment ∈ path, segment ≠ [] ∧ '.' ∉ segment ∧ segment.head? ≠ some '_')
    (hdepth : dots + path.length ≤ maxDepth) :
    scanUnderscores maxDepth dots (underscored (['.'].intercalate path)) = ['.'].intercalate path := by
  induction path generalizing dots with
  | nil => rfl
  | cons segment path ih =>
    obtain ⟨hsegment, hpath⟩ := List.forall_mem_cons.mp h
    cases path with
    | nil =>
      rw [List.intercalate_singleton]
      have hsolo : scanUnderscores maxDepth dots (underscored segment ++ []) =
          segment ++ scanUnderscores maxDepth dots [] := scanUnderscores_segment hsegment.2.1
      rwa [List.append_nil, scanUnderscores, List.append_nil] at hsolo
    | cons next path =>
      have hdots : dots < maxDepth - 1 := by
        simp only [List.length_cons] at hdepth
        omega
      have hnext : (underscored (['.'].intercalate (next :: path))).head? ≠ some '_' := by
        obtain ⟨hne, hdot, hlead⟩ := hpath next List.mem_cons_self
        cases path with
        | nil =>
          rw [List.intercalate_singleton, ← List.append_nil (underscored next)]
          exact head?_underscored hne hdot hlead
        | cons third path =>
          rw [List.intercalate_cons_cons, List.append_assoc, underscored_append]
          exact head?_underscored hne hdot hlead
      rw [List.intercalate_cons_cons, List.append_assoc, underscored_append,
        scanUnderscores_segment hsegment.2.1]
      refine congrArg (segment ++ ·) ?_
      show scanUnderscores maxDepth dots ('_' :: underscored (['.'].intercalate (next :: path))) =
        '.' :: ['.'].intercalate (next :: path)
      rw [scanUnderscores_single hnext, if_pos hdots, ih hpath (by
        simp only [List.length_cons] at hdepth ⊢
        omega)]

/-- A scan puts in no more dots than the limit leaves. -/
theorem count_scanUnderscores (maxDepth dots : Nat) (chars : List Char) :
    (scanUnderscores maxDepth dots chars).count '.' ≤ maxDepth - 1 - dots + chars.count '.' := by
  fun_induction scanUnderscores maxDepth dots chars with
  | case1 dots => exact Nat.zero_le _
  | case2 dots rest ih => simpa using ih
  | case3 dots rest hne hlt ih =>
    rw [List.count_cons_self, List.count_cons_of_ne (show '_' ≠ '.' by decide)]
    omega
  | case4 dots rest hne hlt ih =>
    rw [List.count_cons_of_ne (show '_' ≠ '.' by decide),
      List.count_cons_of_ne (show '_' ≠ '.' by decide)]
    exact ih
  | case5 dots c rest hpair hsingle ih =>
    rw [List.count_cons, List.count_cons]
    omega

theorem length_segments (key : String) : (segments key).length = key.toList.count '.' + 1 := by
  rw [segments, List.length_map]
  induction key.toList with
  | nil => rfl
  | cons c chars ih =>
    rw [List.splitOn_cons_eq_if_modifyHead, List.count_cons]
    split_ifs with hc
    · rw [List.length_cons, ih]
    · rw [List.length_modifyHead, ih]

/-! ## What the search finds -/

/-- The splits are those with something on both sides, at or after what has been passed. -/
theorem mem_splitsFrom {before chars pre post : List Char} : (pre, post) ∈ splitsFrom before chars ↔
    pre ≠ [] ∧ post ≠ [] ∧ before.reverse ++ chars = pre ++ '_' :: post ∧
      before.length ≤ pre.length := by
  induction chars generalizing before with
  | nil =>
    refine iff_of_false List.not_mem_nil ?_
    rintro ⟨-, -, heq, hle⟩
    have hlength := congrArg List.length heq
    simp only [List.append_nil, List.length_reverse, List.length_append, List.length_cons] at hlength
    omega
  | cons c rest ih =>
    have hmem : (pre, post) ∈ splitsFrom before (c :: rest) ↔
        (c = '_' ∧ before ≠ [] ∧ rest ≠ [] ∧ pre = before.reverse ∧ post = rest) ∨
          (pre, post) ∈ splitsFrom (c :: before) rest := by
      rw [splitsFrom]
      split_ifs with h
      · rw [List.mem_cons, Prod.mk.injEq]
        exact or_congr_left ⟨fun heq => ⟨h.1, h.2.1, h.2.2, heq⟩, fun heq => heq.2.2.2⟩
      · exact ⟨.inr, fun h' => h'.resolve_left fun h'' => h ⟨h''.1, h''.2.1, h''.2.2.1⟩⟩
    have hreverse : (c :: before).reverse ++ rest = before.reverse ++ c :: rest := by simp
    rw [hmem, ih, hreverse, List.length_cons]
    constructor
    · rintro (⟨rfl, hbefore, hrest, rfl, rfl⟩ | ⟨hpre, hpost, heq, hle⟩)
      · exact ⟨fun h => hbefore (List.reverse_eq_nil_iff.mp h), hrest, rfl,
          (List.length_reverse).ge⟩
      · exact ⟨hpre, hpost, heq, by omega⟩
    · rintro ⟨hpre, hpost, heq, hle⟩
      by_cases hlength : before.length = pre.length
      · obtain ⟨hpre', hcons⟩ := List.append_inj heq (by rw [List.length_reverse, hlength])
        obtain ⟨rfl, rfl⟩ := List.cons.inj hcons
        refine .inl ⟨rfl, fun h => hpre ?_, hpost, hpre'.symm, rfl⟩
        rw [← hpre', h]
        rfl
      · exact .inr ⟨hpre, hpost, heq, by omega⟩

/-- A path of the tree that the search can take for a suffix: a single key, or keys none of which is
empty. -/
structure ReadsAs (tree : List (String × Json)) (limit : Nat) (suffix : String) (path : List String) :
    Prop where
  inTree : HasPath tree path
  withinLimit : path.length ≤ limit
  joined : joinBy '_' path = suffix
  nonempty : path.length = 1 ∨ "" ∉ path

theorem toList_joinBy_cons {c : Char} {key : String} {path : List String} (h : path ≠ []) :
    (joinBy c (key :: path)).toList = key.toList ++ c :: (joinBy c path).toList := by
  cases path with
  | nil => exact absurd rfl h
  | cons next path =>
    rw [joinBy, joinBy, String.toList_ofList, String.toList_ofList, List.map_cons, List.map_cons,
      List.intercalate_cons_cons, List.append_assoc]
    rfl

theorem joinBy_singleton (c : Char) (key : String) : joinBy c [key] = key := by
  rw [joinBy, List.map_singleton, List.intercalate_singleton, String.ofList_toList]

theorem HasPath.ne_nil {tree : List (String × Json)} {path : List String} (h : HasPath tree path) :
    path ≠ [] := by
  rintro rfl
  exact h

/-- The keys of a path that reads as something are not empty, if it is not one empty key. -/
theorem ReadsAs.nonempty_of {tree : List (String × Json)} {limit : Nat} {suffix : String}
    {path : List String} (h : ReadsAs tree limit suffix path) (hsuffix : suffix ≠ "") :
    "" ∉ path := by
  rcases h.nonempty with hone | hall
  · obtain ⟨key, rfl⟩ := List.length_eq_one_iff.mp hone
    have hjoined := h.joined
    rw [joinBy_singleton] at hjoined
    rw [List.mem_singleton, hjoined]
    exact hsuffix.symm
  · exact hall

theorem ReadsAs.cons {tree subtree : List (String × Json)} {limit : Nat} {key : String}
    {rest : String} {path : List String} (h : ReadsAs subtree limit rest path) (hkey : key ≠ "")
    (hrest : rest ≠ "") (htree : Fields.get? tree key = some (.object subtree)) :
    ReadsAs tree (limit + 1) (String.ofList (key.toList ++ '_' :: rest.toList)) (key :: path) := by
  have hpath := h.inTree.ne_nil
  refine { inTree := ?_, withinLimit := ?_, joined := ?_, nonempty := .inr ?_ }
  · cases path with
    | nil => exact absurd rfl hpath
    | cons next path => exact ⟨subtree, htree, h.inTree⟩
  · exact Nat.succ_le_succ h.withinLimit
  · rw [← String.ofList_toList (s := joinBy '_' (key :: path)), toList_joinBy_cons hpath, h.joined]
  · rw [List.mem_cons, not_or]
    exact ⟨hkey.symm, h.nonempty_of hrest⟩

/-- What the search finds is a path that reads as the suffix. -/
theorem matchSuffixWithin_sound {levels : Nat} {suffix : List Char} {tree : List (String × Json)}
    {result : List Char} (h : matchSuffixWithin levels suffix tree = some result) :
    ∃ path, ReadsAs tree (levels + 1) (String.ofList suffix) path ∧
      String.ofList result = joinBy '.' path := by
  induction levels generalizing suffix tree result with
  | zero =>
    rw [matchSuffixWithin] at h
    obtain ⟨hkey, hresult⟩ := Option.ite_none_right_eq_some.mp h
    obtain rfl := Option.some.inj hresult
    refine ⟨[String.ofList suffix], ⟨hkey, Nat.le_refl _, joinBy_singleton _ _, .inl rfl⟩, ?_⟩
    exact (joinBy_singleton _ _).symm
  | succ levels ih =>
    rw [matchSuffixWithin] at h
    by_cases hkey : Fields.containsKey tree (String.ofList suffix) = true
    · rw [if_pos hkey] at h
      obtain rfl := Option.some.inj h
      refine ⟨[String.ofList suffix], ⟨hkey, Nat.le_add_left _ _, joinBy_singleton _ _, .inl rfl⟩, ?_⟩
      exact (joinBy_singleton _ _).symm
    · rw [if_neg hkey] at h
      obtain ⟨⟨pre, post⟩, hsplit, hfound⟩ := List.exists_of_findSome?_eq_some h
      obtain ⟨hpre, hpost, heq, -⟩ := mem_splitsFrom.mp hsplit
      cases htree : Fields.get? tree (String.ofList pre) with
      | none => simp [htree] at hfound
      | some v =>
        cases v with
        | object subtree =>
          simp only [htree] at hfound
          obtain ⟨sub, hsub, rfl⟩ := Option.map_eq_some_iff.mp hfound
          obtain ⟨path, hpath, hjoined⟩ := ih hsub
          have hcons := hpath.cons (show String.ofList pre ≠ "" by simpa using hpre)
            (by simpa using hpost) htree
          rw [String.toList_ofList, String.toList_ofList] at hcons
          have hsuffix : suffix = pre ++ '_' :: post := heq
          rw [hsuffix]
          refine ⟨String.ofList pre :: path, hcons, String.toList_injective ?_⟩
          rw [toList_joinBy_cons hpath.inTree.ne_nil, ← hjoined]
          simp
        | _ => simp [htree] at hfound

/-- A path that reads as the suffix is found, or another one is. -/
theorem matchSuffixWithin_complete {levels : Nat} {suffix : List Char} {tree : List (String × Json)}
    {path : List String} (h : ReadsAs tree (levels + 1) (String.ofList suffix) path) :
    (matchSuffixWithin levels suffix tree).isSome = true := by
  induction path generalizing levels suffix tree with
  | nil => exact absurd rfl h.inTree.ne_nil
  | cons key path ih =>
    by_cases hkey : Fields.containsKey tree (String.ofList suffix) = true
    · cases levels with
      | zero =>
        rw [matchSuffixWithin, if_pos hkey]
        rfl
      | succ levels =>
        rw [matchSuffixWithin, if_pos hkey]
        rfl
    · cases path with
      | nil =>
        have hjoined := h.joined
        rw [joinBy_singleton] at hjoined
        exact absurd (hjoined ▸ h.inTree) hkey
      | cons next path =>
        obtain ⟨subtree, htree, hsub⟩ := h.inTree
        have hall : "" ∉ key :: next :: path := h.nonempty.resolve_left (by simp)
        cases levels with
        | zero => exact absurd h.withinLimit (by simp)
        | succ levels =>
          have hsuffix : suffix = key.toList ++ '_' :: (joinBy '_' (next :: path)).toList := by
            rw [← toList_joinBy_cons (List.cons_ne_nil _ _), h.joined, String.toList_ofList]
          have hrest : joinBy '_' (next :: path) ≠ "" := by
            intro hnil
            have hhead : next.toList <+: (joinBy '_' (next :: path)).toList := by
              cases path with
              | nil =>
                exact ⟨[], by rw [joinBy_singleton, List.append_nil]⟩
              | cons third path =>
                rw [toList_joinBy_cons (List.cons_ne_nil _ _)]
                exact List.prefix_append _ _
            rw [hnil] at hhead
            have hnext : next = "" := String.toList_injective (List.prefix_nil.mp hhead)
            exact hall (by simp [hnext])
          have hsplit : (key.toList, (joinBy '_' (next :: path)).toList) ∈ splitsFrom [] suffix := by
            refine mem_splitsFrom.mpr ⟨?_, ?_, hsuffix, Nat.zero_le _⟩
            · intro hnil
              have hkey' : key = "" := String.toList_injective hnil
              exact hall (by simp [hkey'])
            · intro hnil
              exact hrest (String.toList_injective hnil)
          have hreads : ReadsAs subtree (levels + 1)
              (String.ofList (joinBy '_' (next :: path)).toList) (next :: path) :=
            { inTree := hsub
              withinLimit := Nat.le_of_succ_le_succ h.withinLimit
              joined := String.ofList_toList.symm
              nonempty := .inr fun hmem => hall (List.mem_cons_of_mem _ hmem) }
          have hfound := ih hreads
          rw [matchSuffixWithin, if_neg hkey, List.findSome?_isSome_iff]
          refine ⟨_, hsplit, ?_⟩
          simp only [String.ofList_toList, htree, Option.isSome_map]
          exact hfound

/-- The search finds a path exactly when there is one that reads as the suffix, and then such a
path. -/
theorem matchSuffixToTree_iff {suffix : String} {tree : List (String × Json)} {maxDepth : Nat} :
    ((matchSuffixToTree suffix tree 0 maxDepth).isSome = true ↔
        ∃ path, ReadsAs tree (max maxDepth 1) suffix path) ∧
      ∀ result, matchSuffixToTree suffix tree 0 maxDepth = some result →
        ∃ path, ReadsAs tree (max maxDepth 1) suffix path ∧ result = joinBy '.' path := by
  have hlimit : maxDepth - 1 - 0 + 1 = max maxDepth 1 := by omega
  have hsound : ∀ result, matchSuffixToTree suffix tree 0 maxDepth = some result →
      ∃ path, ReadsAs tree (max maxDepth 1) suffix path ∧ result = joinBy '.' path := by
    intro result hresult
    obtain ⟨chars, hchars, rfl⟩ := Option.map_eq_some_iff.mp hresult
    obtain ⟨path, hpath, hjoined⟩ := matchSuffixWithin_sound hchars
    rw [hlimit, String.ofList_toList] at hpath
    exact ⟨path, hpath, hjoined⟩
  refine ⟨⟨fun hsome => ?_, fun ⟨path, hpath⟩ => ?_⟩, hsound⟩
  · obtain ⟨result, hresult⟩ := Option.isSome_iff_exists.mp hsome
    obtain ⟨path, hpath, -⟩ := hsound result hresult
    exact ⟨path, hpath⟩
  · rw [matchSuffixToTree, Option.isSome_map]
    have hreads : ReadsAs tree (maxDepth - 1 - 0 + 1) (String.ofList suffix.toList) path := by
      rw [hlimit, String.ofList_toList]
      exact hpath
    exact matchSuffixWithin_complete hreads

/-! ## Both ways -/

/-- A key that a variable can name: its segments are not empty, neither begin nor end with an
underscore and are within the depth, and upper-casing the name is undone by lower-casing it. -/
structure Nameable (lower upper : String → String) (key : String) (maxDepth : Nat) : Prop where
  nonempty : ∀ segment ∈ segments key, segment ≠ ""
  noLead : ∀ segment ∈ segments key, segment.toList.head? ≠ some '_'
  noTrail : ∀ segment ∈ segments key, segment.toList.getLast? ≠ some '_'
  withinDepth : (segments key).length ≤ maxDepth
  caseless : lower (envName upper key) = String.ofList (underscored key.toList)

theorem envKeyToDotPath_envName {lower upper : String → String} {key : String} {maxDepth : Nat}
    (h : Nameable lower upper key maxDepth) :
    envKeyToDotPathWithDepth lower (envName upper key) maxDepth = key := by
  have hkey := @List.intercalate_splitOn Char key.toList _ _ '.'
  have hparts : ∀ part ∈ key.toList.splitOn '.',
      part ≠ [] ∧ '.' ∉ part ∧ part.head? ≠ some '_' := by
    intro part hpart
    have hmem : String.ofList part ∈ segments key := List.mem_map_of_mem hpart
    refine ⟨?_, not_mem_of_mem_splitOn hpart, ?_⟩
    · rintro rfl
      exact h.nonempty _ hmem rfl
    · have hlead := h.noLead _ hmem
      rwa [String.toList_ofList] at hlead
  have hdepth : 0 + (key.toList.splitOn '.').length ≤ maxDepth := by
    have hlength := h.withinDepth
    rw [segments, List.length_map] at hlength
    omega
  have hscan := scanUnderscores_path hparts hdepth
  rw [hkey] at hscan
  rw [envKeyToDotPathWithDepth, h.caseless, String.toList_ofList, hscan, String.ofList_toList]

/-- The decoder gives back every key from its name, never has more segments than the depth allows
and the name's own dots add, and the search of the tree is sound and complete. -/
theorem envKeys_decoded (lower upper : String → String) :
    (∀ key maxDepth, Nameable lower upper key maxDepth →
        envKeyToDotPathWithDepth lower (envName upper key) maxDepth = key) ∧
      (∀ raw maxDepth, (segments (envKeyToDotPathWithDepth lower raw maxDepth)).length ≤
        max maxDepth 1 + (lower raw).toList.count '.') ∧
      ∀ suffix tree maxDepth,
        ((matchSuffixToTree suffix tree 0 maxDepth).isSome = true ↔
            ∃ path, ReadsAs tree (max maxDepth 1) suffix path) ∧
          ∀ result, matchSuffixToTree suffix tree 0 maxDepth = some result →
            ∃ path, ReadsAs tree (max maxDepth 1) suffix path ∧ result = joinBy '.' path := by
  refine ⟨fun key maxDepth h => envKeyToDotPath_envName h, fun raw maxDepth => ?_,
    fun suffix tree maxDepth => matchSuffixToTree_iff⟩
  rw [length_segments, envKeyToDotPathWithDepth, String.toList_ofList]
  have hcount := count_scanUnderscores maxDepth 0 (lower raw).toList
  omega

/-- Cases of the first 128 characters, one by one. -/
theorem toUpper_cases : ∀ n < 128,
    (Char.ofNat n).isLower = true → (Char.ofNat n).toUpper.toLower = Char.ofNat n := by
  decide +kernel

theorem toLower_toUpper {c : Char} (h : c.isUpper = false) : c.toUpper.toLower = c := by
  by_cases hlower : c.isLower = true
  · have hcase := toUpper_cases c.toNat (lt_128_of_isLower hlower)
    rw [Char.ofNat_toNat] at hcase
    exact hcase hlower
  · have hself : c.toUpper = c := by
      refine dif_neg fun hrange => hlower ?_
      exact Bool.and_eq_true_iff.mpr ⟨decide_eq_true hrange.1, decide_eq_true hrange.2⟩
    have hupper : ¬ c.isUpper = true := by simp [h]
    rw [hself]
    exact dif_neg fun hrange => hupper (decide_eq_true hrange)

/-- On ASCII, upper-casing the name of a key without upper-case letters is undone. -/
theorem caseless_ascii {key : String} (h : ∀ c ∈ key.toList, c.isUpper = false) :
    toLowercase (envName (·.map Char.toUpper) key) = String.ofList (underscored key.toList) := by
  have hname : ∀ c ∈ underscored key.toList, c.isUpper = false := by
    intro c hc
    obtain ⟨d, hd, hmem⟩ := List.mem_flatMap.mp hc
    split_ifs at hmem
    · rw [List.mem_singleton.mp hmem]
      rfl
    · have hu : c = '_' := by simpa using hmem
      rw [hu]
      rfl
    · rw [List.mem_singleton.mp hmem]
      exact h d hd
  rw [toLowercase, envName, String.toList_map, String.toList_ofList, List.map_map]
  refine congrArg String.ofList ((List.map_congr_left fun c hc => ?_).trans (List.map_id _))
  exact toLower_toUpper (hname c hc)

/-- On ASCII, with a field name that has underscores of its own. -/
theorem envKeys_decoded_callDepth : envKeyToDotPathWithDepth toLowercase
    (envName (·.map Char.toUpper) "executor.max_call_depth") 5 = "executor.max_call_depth" :=
  (envKeys_decoded toLowercase (·.map Char.toUpper)).1 "executor.max_call_depth" 5
    { nonempty := by decide +kernel
      noLead := by decide +kernel
      noTrail := by decide +kernel
      withinDepth := by decide +kernel
      caseless := caseless_ascii fun c hc => by
        have hall : "executor.max_call_depth".toList.all (!·.isUpper) = true := by decide +kernel
        simpa using List.all_eq_true.mp hall c hc }

/-- An empty key of the tree is reached by no split. -/
theorem emptyKey_notFound :
    ¬ ∀ (suffix : String) (tree : List (String × Json)) (maxDepth : Nat),
      (matchSuffixToTree suffix tree 0 maxDepth).isSome = true ↔
        ∃ path, HasPath tree path ∧ path.length ≤ maxDepth ∧ joinBy '_' path = suffix := by
  intro h
  have hfound := (h "a_" [("a", .object [("", .null)])] 2).mpr
    ⟨["a", ""], ⟨[("", .null)], rfl, rfl⟩, Nat.le_refl 2, by decide +kernel⟩
  exact absurd hfound (by decide +kernel)

end Config

end Apcore
