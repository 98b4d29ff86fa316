import Apcore.Config.Views

/-! # `Config.Reload` — reading the file again

`reload` reads the file the configuration came from, puts what it gives in place of the
configuration, lays the mounted payloads over it again, and validates last. -/

open Nested

namespace Apcore.Config

/-! ## Mounts -/

/-- A payload that `mount` recorded, under the name of its namespace. -/
structure Mount where
  ns : String
  data : Value
  isObject : data.1.isObject = true := by rfl

/-- `apply_mount`, on the document. The loop over the payload is that of `deep_merge_value`; a
namespace that is a plain value is left as it is. -/
def applyMountTo (document : Value) (mount : Mount) : Value :=
  let entry := (document.child mount.ns).getD .empty
  .put mount.ns (if entry.1.isObject then .merge entry mount.data else entry) document

/-- `apply_mount`. -/
def applyMount (c : Config) (mount : Mount) : Config :=
  { c with userNamespaces := applyMountTo c.userNamespaces mount, isObject := by rfl }

/-- The payloads in the order they were mounted. -/
def replay (c : Config) (mounts : List Mount) : Config := mounts.foldl applyMount c

/-- The payloads on their own. -/
def mountedDocument (mounts : List Mount) : Value := mounts.foldl applyMountTo .empty

end Config

open Config in
/-- `Config`, with the file it came from and what was mounted. -/
structure FileConfig extends Config where
  yamlPath : Option String := none
  mounts : List Mount := []

namespace Config

inductive MountSource where
  | dict (data : Value)
  | file (path : String)

inductive MountError where
  | reserved
  | unreadable (reason : String)
  | notObject

/-- The message of `config_mount_error`. -/
def MountError.message : MountError → String
  | reserved => "cannot mount to reserved namespace '_config'"
  | unreadable reason => reason
  | notObject => "mount source must be a JSON object"

/-- `mount`; `readFile` reads and parses a file. -/
def mount (readFile : String → Except String Value) (c : FileConfig) (ns : String)
    (source : MountSource) : Except MountError Unit × FileConfig :=
  let c := { c with generation := c.generation + 1 }
  if ns = "_config" then (.error .reserved, c)
  else
    let data : Except String Value := match source with
      | .dict data => .ok data
      | .file path => readFile path
    match data with
    | .error reason => (.error (.unreadable reason), c)
    | .ok data =>
      if h : data.1.isObject then
        let payload : Mount := ⟨ns, data, h⟩
        (.ok (), { c with
          toConfig := applyMount c.toConfig payload, mounts := c.mounts ++ [payload] })
      else (.error .notObject, c)

/-! ## Reading the file again -/

inductive LoadError where
  | notFound (reason : String)
  | unparsable (reason : String)
  | invalid (faults : List Fault)

def LoadError.code : LoadError → ErrorCode
  | notFound _ => .configNotFound
  | unparsable _ | invalid _ => .configInvalid

/-- `load`; `read` opens and parses a file and applies the environment. -/
def load (s : Surroundings) (read : String → Except LoadError Config) (path : String) :
    Except LoadError FileConfig :=
  match read path with
  | .error e => .error e
  | .ok c => match c.validate s with
    | .error faults => .error (.invalid faults)
    | .ok () => .ok { toConfig := c, yamlPath := some path }

inductive ReloadError where
  | noPath
  | notLoaded (e : LoadError)
  | modified
  | invalid (faults : List Fault)

def ReloadError.code : ReloadError → ErrorCode
  | noPath => .reloadFailed
  | notLoaded e => e.code
  | modified => .moduleReloadConflict
  | invalid _ => .configInvalid

/-- `reload`. -/
def reload (s : Surroundings) (read : String → Except LoadError Config) (c : FileConfig) :
    Except ReloadError Unit × FileConfig :=
  let startGen := c.generation
  match c.yamlPath with
  | none => (.error .noPath, c)
  | some path => match load s read path with
    | .error e => (.error (.notLoaded e), c)
    | .ok reloaded =>
      if c.generation ≠ startGen then (.error .modified, c)
      else
        let reloaded : Config := { reloaded.toConfig with generation := c.generation + 1 }
        let c' : FileConfig :=
          { toConfig := replay reloaded c.mounts, yamlPath := c.yamlPath, mounts := c.mounts }
        match c'.validate s with
        | .error faults => (.error (.invalid faults), c')
        | .ok () => (.ok (), c')

/-! ## What a reload keeps -/

/-- The place of the document that `get` reads for a key. -/
def place (registry : NamespaceRegistry) (key : String) : List String :=
  match stripNamespace key "observability", stripNamespace key "executor" with
  | some rest, _ => "observability" :: viewParts rest
  | none, some rest => "executor" :: viewParts rest
  | none, none => writtenPath registry key

/-- The path goes through objects of the document, and leaves them. -/
def Missing : List String → Json → Prop
  | [], _ => False
  | key :: path, v =>
    v.isObject = true ∧ (Fields.get? (v.asObject?.getD []) key).elim True (Missing path)

/-- The file declares a key: as it is written, or as `data` lists it with the typed fields of its
sections, it has a value at the place of the key or a plain value on the way to it. -/
def Declares (registry : NamespaceRegistry) (loaded : Config) (key : String) : Prop :=
  ¬ (Missing (place registry key) loaded.userNamespaces.1 ∧
    Missing (place registry key) loaded.data)

/-- The payloads have the value for the key. -/
def Mounted (registry : NamespaceRegistry) (mounts : List Mount) (key : String) (v : Value) : Prop :=
  Value.nested.read (place registry key) (mountedDocument mounts) = some v

/-- What is seen of a configuration. -/
structure SameObservables (registry : NamespaceRegistry) (c c' : FileConfig) : Prop where
  get : ∀ key, c'.get registry key = c.get registry key
  data : c'.data = c.data
  mounts : c'.mounts = c.mounts
  yamlPath : c'.yamlPath = c.yamlPath
  generation : c'.generation = c.generation

/-- A reload succeeds with a valid configuration that has what was mounted and the file does not
declare, or fails and changes nothing. -/
inductive AtomicReload (s : Surroundings) (read : String → Except LoadError Config) (c : FileConfig) : Prop
  | reloaded (h : (reload s read c).1 = .ok ()) (hvalid : (reload s read c).2.validate s = .ok ())
      (hmounted : ∀ path loaded, c.yamlPath = some path → load s read path = .ok loaded →
        ∀ key v, Mounted s.registry c.mounts key v → ¬ Declares s.registry loaded.toConfig key →
          (reload s read c).2.get s.registry key = some v)
  | refused (e : ReloadError) (h : (reload s read c).1 = .error e)
      (hsame : SameObservables s.registry c (reload s read c).2)

/-! ## The document after the mounts -/

section Document

variable {document document' : Value} {m : Mount} {mounts : List Mount} {name : String}
  {path below : List String}

/-- The entry is an object, or there is none. -/
def Open (name : String) (document : Value) : Prop :=
  ∀ v, document.child name = some v → v.1.isObject = true

theorem isObject_merge {base overlay : Value} (h : overlay.1.isObject = true) :
    (Value.merge base overlay).1.isObject = true := by
  obtain ⟨overlay, hoverlay⟩ := overlay
  cases overlay with
  | object fields =>
    have hmerge := deepMergeValue_object base (ordered_object.mp hoverlay).1
    show (deepMergeValue base.1 (.object fields)).isObject = true
    rw [hmerge]
    rfl
  | _ => cases h

theorem child_applyMountTo : (applyMountTo document m).child name =
    if name = m.ns then
      some (if ((document.child m.ns).getD .empty).1.isObject then
        .merge ((document.child m.ns).getD .empty) m.data else (document.child m.ns).getD .empty)
    else document.child name :=
  child_put _ _ _ _

theorem Open.getD (h : Open name document) :
    ((document.child name).getD .empty).1.isObject = true := by
  cases hchild : document.child name with
  | none => rfl
  | some v => exact h v hchild

theorem Open.laid (h : Open name document) : Open name (applyMountTo document m) := by
  intro v hv
  rw [child_applyMountTo] at hv
  split_ifs at hv with hname hobject
  · obtain rfl := Option.some.inj hv
    exact isObject_merge m.isObject
  · subst hname
    exact absurd h.getD hobject
  · exact h v hv

/-- What a mount leaves at a path depends on what was there. -/
theorem read_applyMountTo_congr (h : Open name document) (h' : Open name document')
    (hread : Value.nested.read (name :: below) document =
      Value.nested.read (name :: below) document') :
    Value.nested.read (name :: below) (applyMountTo document m) =
      Value.nested.read (name :: below) (applyMountTo document' m) := by
  rw [read_cons, read_cons] at hread ⊢
  show ((applyMountTo document m).child name).bind _ = ((applyMountTo document' m).child name).bind _
  rw [child_applyMountTo, child_applyMountTo]
  by_cases hname : name = m.ns
  · subst hname
    rw [if_pos rfl, if_pos rfl, if_pos h.getD, if_pos h'.getD, Option.bind_some, Option.bind_some]
    exact Value.read_merge_congr (Value.read_getD_congr hread)
  · rw [if_neg hname, if_neg hname]
    exact hread

theorem open_empty : Open name .empty := by
  intro v hv
  cases hv

theorem Open.foldl (h : Open name document) : Open name (mounts.foldl applyMountTo document) := by
  induction mounts generalizing document with
  | nil => exact h
  | cons m mounts ih => exact ih h.laid

/-- **Where the document has nothing, the mounts leave what they leave on their own.** -/
theorem read_replay (h : Open name document)
    (hread : Value.nested.read (name :: below) document = none) :
    Value.nested.read (name :: below) (mounts.foldl applyMountTo document) =
      Value.nested.read (name :: below) (mountedDocument mounts) := by
  have hrun : ∀ {document' : Value}, Open name document → Open name document' →
      Value.nested.read (name :: below) document = Value.nested.read (name :: below) document' →
      Value.nested.read (name :: below) (mounts.foldl applyMountTo document) =
        Value.nested.read (name :: below) (mounts.foldl applyMountTo document') := by
    clear h hread
    induction mounts generalizing document with
    | nil => exact fun _ _ hread => hread
    | cons m mounts ih =>
      exact fun h h' hread =>
        ih h.laid h'.laid (read_applyMountTo_congr h h' hread)
  exact hrun h open_empty (hread.trans (read_blank (List.cons_ne_nil _ _)).symm)

theorem replay_eq (c : Config) (mounts : List Mount) :
    (replay c mounts).toTypedFields = c.toTypedFields ∧
      (replay c mounts).userNamespaces = mounts.foldl applyMountTo c.userNamespaces := by
  unfold replay
  induction mounts generalizing c with
  | nil => exact ⟨rfl, rfl⟩
  | cons m mounts ih => exact ih (applyMount c m)

end Document

/-! ## What `get` answers for a mounted key -/

theorem missing_value (path : List String) (v : Value) : Missing path v.1 ↔ Value.Leaves path v := by
  induction path generalizing v with
  | nil => rfl
  | cons key path ih =>
    show _ ∧ _ ↔ _ ∧ _
    cases hchild : v.child key with
    | none =>
      have hfields : Fields.get? (v.1.asObject?.getD []) key = none :=
        Value.child_eq_none_iff.mp hchild
      rw [hfields]
      rfl
    | some child =>
      have hfields : Fields.get? (v.1.asObject?.getD []) key = some child.1 :=
        Value.child_eq_some_iff.mp hchild
      rw [hfields]
      exact and_congr_right fun _ => ih child

theorem writtenPath_of_not_mem {registry : NamespaceRegistry} {key : String}
    (h : '.' ∉ key.toList) : writtenPath registry key = [key] := by
  unfold writtenPath
  split
  · next name rest hmatched =>
    rcases matched_cases hmatched with ⟨rfl, rfl⟩ | hkey
    · rfl
    · refine absurd ?_ h
      rw [hkey, String.toList_append, String.toList_append]
      simp
  · exact segments_of_not_mem h

section Mounted

variable {registry : NamespaceRegistry} {loaded c : Config} {mounts : List Mount}
  {key name rest : String} {v : Value} {below : List String}
variable (htyped : c.toTypedFields = loaded.toTypedFields)
variable (hdocument : c.userNamespaces = mounts.foldl applyMountTo loaded.userNamespaces)

theorem open_of_leaves (h : Value.Leaves (name :: below) loaded.userNamespaces) :
    Open name loaded.userNamespaces := by
  intro v hv
  have hbelow := h.2
  rw [hv, Option.elim_some] at hbelow
  cases below with
  | nil => exact absurd hbelow id
  | cons key path => exact hbelow.1

include hdocument in
/-- The mounted value is in the document. -/
theorem read_mounted (h : Value.Leaves (name :: below) loaded.userNamespaces)
    (hmounted : Value.nested.read (name :: below) (mountedDocument mounts) = some v) :
    Value.nested.read (name :: below) c.userNamespaces = some v := by
  rw [hdocument, read_replay (open_of_leaves h) (Value.read_of_leaves h)]
  exact hmounted

/-- The typed field of a key is what `data` lists at its place. -/
theorem typed_eq_none_of_missing (hname : name = "executor" ∨ name = "observability")
    (hstrip : stripNamespace key name = some rest)
    (hleaves : Value.Leaves (viewParts rest) (typedSection loaded.toTypedFields name)) :
    getTypedField loaded.toTypedFields key = none := by
  have hdot : '.' ∉ name.toList := by
    rcases hname with rfl | rfl
    · decide
    · decide
  refine Option.eq_none_iff_forall_ne_some.mpr fun w hw => ?_
  obtain ⟨f, hfield, hread⟩ := Option.bind_eq_some_iff.mp hw
  obtain rfl := TypedField.ofKey?_eq_some.mp hfield
  have hparts : viewParts rest = f.below := by
    rw [viewParts_of_stripNamespace hdot hstrip, TypedField.segments_key]
    cases f <;> decide +kernel
  have hsection : f.sectionName = name := by
    have hhead := (stripNamespace_isSome_iff hdot).mp (Option.isSome_iff_exists.mpr ⟨rest, hstrip⟩)
    rw [TypedField.segments_key] at hhead
    exact Option.some.inj hhead
  have hnone := Value.read_of_leaves hleaves
  rw [hparts, read_typedSection hname hsection, hread] at hnone
  cases hnone

/-- What is written in a section with a view, off its typed fields, is in the view. -/
theorem read_sectionView
    (hleaves : Value.Leaves below (typedSection c.toTypedFields name))
    (hread : Value.nested.read (name :: below) c.userNamespaces = some v)
    (hopen : Open name c.userNamespaces) :
    Value.nested.read below (c.sectionView name) = some v := by
  obtain ⟨entry, hentry, hbelow⟩ := Option.bind_eq_some_iff.mp hread
  have hchild : c.userNamespaces.child name = some entry := hentry
  have hview : c.sectionView name = .merge entry (typedSection c.toTypedFields name) := by
    unfold sectionView typedNamespaceView
    rw [hchild, Option.filter_some, if_pos (hopen entry hchild), Option.getD_some]
  rw [hview, Value.read_merge_of_leaves hleaves]
  exact hbelow

theorem leaves_of_missing (hname : name = "executor" ∨ name = "observability")
    (h : Missing (name :: below) loaded.data) :
    Value.Leaves below (typedSection loaded.toTypedFields name) := by
  have hbelow := h.2
  rw [get?_data_section hname, Option.elim_some, missing_value] at hbelow
  refine hbelow.of_merge ?_
  rcases hname with rfl | rfl
  · rfl
  · rfl

/-- `modules_path` is listed by `data` where it is set. -/
theorem modulesPath_eq_none (hwritten : Value.Leaves ["modules_path"] loaded.userNamespaces)
    (h : Missing ["modules_path"] loaded.data) : loaded.modulesPath = none := by
  have hchild : loaded.userNamespaces.child "modules_path" = none := by
    have hread := Value.read_of_leaves hwritten
    rw [read_cons] at hread
    cases hchild : loaded.userNamespaces.child "modules_path" with
    | none => rfl
    | some v =>
      have hnested : Value.nested.child loaded.userNamespaces "modules_path" = some v := hchild
      rw [hnested] at hread
      cases hread
  cases hpath : loaded.modulesPath with
  | none => rfl
  | some path =>
    have hlisted := h.2
    have hget : Fields.get? (loaded.data.asObject?.getD []) "modules_path" = some (.string path) := by
      have hsorted := loaded.userNamespaces.ordered_entries.1
      have hexecutor : "modules_path" ≠ "executor" := by decide
      have hobservability : "modules_path" ≠ "observability" := by decide
      unfold data Fields.ofList
      rw [Json.asObject?, Option.getD_some, List.foldl_append,
        Fields.get?_foldl_insert (Fields.nodup_of_pairwise (hsorted.filter _)),
        Fields.get?_filter (by simp), Value.child_eq_none_iff.mp hchild, hpath]
      exact (Fields.get?_insert_ne hobservability ..).trans
        ((Fields.get?_insert_ne hexecutor ..).trans (Fields.get?_insert_self ..))
    rw [hget] at hlisted
    exact absurd hlisted id

include htyped hdocument in
/-- **A mounted key that the file does not declare is answered its mounted value.** -/
theorem get_mounted (hmounted : Mounted registry mounts key v)
    (hdeclares : ¬ Declares registry loaded key) : c.get registry key = some v := by
  obtain ⟨hwritten, hlisted⟩ := not_not.mp hdeclares
  rw [missing_value] at hwritten
  unfold Mounted at hmounted
  apply get_of_direct
  unfold place at hwritten hlisted hmounted
  cases hobservability : stripNamespace key "observability" with
  | some rest =>
    rw [hobservability] at hwritten hlisted hmounted
    dsimp only at hwritten hlisted hmounted
    have hread := read_mounted hdocument hwritten hmounted
    have hleaves := leaves_of_missing (.inr rfl) hlisted
    have hopen : Open "observability" c.userNamespaces := by
      rw [hdocument]
      exact (open_of_leaves hwritten).foldl
    obtain ⟨block, hblock, -⟩ := Option.bind_eq_some_iff.mp hread
    have hchild : c.userNamespaces.child "observability" = some block := hblock
    unfold getDirect
    rw [htyped, typed_eq_none_of_missing (.inr rfl) hobservability hleaves, hobservability,
      Option.none_or]
    dsimp only
    rw [hchild, Option.bind_some]
    rw [← htyped] at hleaves
    exact read_sectionView hleaves hread hopen
  | none =>
    cases hexecutor : stripNamespace key "executor" with
    | some rest =>
      rw [hobservability, hexecutor] at hwritten hlisted hmounted
      dsimp only at hwritten hlisted hmounted
      have hread := read_mounted hdocument hwritten hmounted
      have hleaves := leaves_of_missing (.inl rfl) hlisted
      have hopen : Open "executor" c.userNamespaces := by
        rw [hdocument]
        exact (open_of_leaves hwritten).foldl
      unfold getDirect
      rw [htyped, typed_eq_none_of_missing (.inl rfl) hexecutor hleaves, hobservability, hexecutor,
        Option.none_or]
      rw [← htyped] at hleaves
      exact read_sectionView hleaves hread hopen
    | none =>
      rw [hobservability, hexecutor] at hwritten hlisted hmounted
      dsimp only at hwritten hlisted hmounted
      have hnone : getTypedField loaded.toTypedFields key = none := by
        refine Option.eq_none_iff_forall_ne_some.mpr fun w hw => ?_
        obtain ⟨f, hfield, hread⟩ := Option.bind_eq_some_iff.mp hw
        obtain rfl := TypedField.ofKey?_eq_some.mp hfield
        by_cases hf : f = .modulesPath
        · subst hf
          have hpath : writtenPath registry TypedField.modulesPath.key = ["modules_path"] :=
            writtenPath_of_not_mem (by decide)
          rw [hpath] at hwritten hlisted
          have hunset := modulesPath_eq_none hwritten hlisted
          have hset : loaded.modulesPath.map Value.string = some w := hread
          rw [hunset] at hset
          cases hset
        · have hhead : (segments f.key).head? = some f.sectionName := by
            rw [TypedField.segments_key]
            rfl
          rcases section_of_below (f.below_ne_nil hf) with hname | hname
          · have hsome := (stripNamespace_isSome_iff (by decide)).mpr (hname ▸ hhead)
            rw [hexecutor] at hsome
            cases hsome
          · have hsome := (stripNamespace_isSome_iff (by decide)).mpr (hname ▸ hhead)
            rw [hobservability] at hsome
            cases hsome
      rw [getDirect_of_strip_none hobservability hexecutor, htyped, hnone, Option.none_or,
        getAsWritten]
      cases hpath : writtenPath registry key with
      | nil => exact absurd hpath writtenPath_ne_nil
      | cons name below =>
        rw [hpath] at hwritten hmounted
        exact read_mounted hdocument hwritten hmounted

end Mounted

/-! ## The reload -/

section Reload

variable {s : Surroundings} {read : String → Except LoadError Config} {c : FileConfig}
  {path : String} {loaded : FileConfig}

/-- What takes the place of the configuration. -/
def reloadedConfig (c loaded : FileConfig) : FileConfig where
  toConfig := replay { loaded.toConfig with generation := c.generation + 1 } c.mounts
  yamlPath := c.yamlPath
  mounts := c.mounts

theorem reload_of_none (hpath : c.yamlPath = none) : reload s read c = (.error .noPath, c) := by
  unfold reload
  rw [hpath]

theorem reload_of_error {e : LoadError} (hpath : c.yamlPath = some path)
    (h : load s read path = .error e) : reload s read c = (.error (.notLoaded e), c) := by
  unfold reload
  rw [hpath]
  dsimp only
  rw [h]

/-- The generation cannot have changed while the file was read, so the state is replaced. -/
theorem reload_of_ok (hpath : c.yamlPath = some path) (h : load s read path = .ok loaded) :
    reload s read c = (match (reloadedConfig c loaded).validate s with
      | .error faults => .error (.invalid faults)
      | .ok () => .ok (), reloadedConfig c loaded) := by
  unfold reload reloadedConfig
  rw [hpath]
  dsimp only
  rw [h]
  dsimp only
  rw [if_neg (not_not.mpr rfl)]
  split
  · rfl
  · rfl

theorem replay_generation (d : Config) (generation : Nat) (mounts : List Mount) :
    replay { d with generation := generation } mounts =
      { replay d mounts with generation := generation } := by
  unfold replay
  induction mounts generalizing d with
  | nil => rfl
  | cons m mounts ih => exact ih (applyMount d m)

/-- The generation of a configuration is not validated. -/
theorem validate_reloadedConfig : (reloadedConfig c loaded).validate s =
    (replay loaded.toConfig c.mounts).validate s := by
  show (replay { loaded.toConfig with generation := c.generation + 1 } c.mounts).validate s = _
  rw [replay_generation]
  rfl

theorem atomicReload_of_invalid (hpath : c.yamlPath = some path) (h : load s read path = .ok loaded)
    (hinvalid : (replay loaded.toConfig c.mounts).validate s ≠ .ok ()) : ¬ AtomicReload s read c := by
  intro hatomic
  have hreload := reload_of_ok hpath h
  rw [← validate_reloadedConfig] at hinvalid
  cases hatomic with
  | reloaded hok hvalid _ =>
    rw [hreload] at hvalid
    exact hinvalid hvalid
  | refused e _ hsame =>
    -- the state was replaced, and counts as one more
    have hgeneration : (reloadedConfig c loaded).generation = c.generation := by
      rw [← hsame.generation, hreload]
    have hnext : (reloadedConfig c loaded).generation = c.generation + 1 := by
      show (replay { loaded.toConfig with generation := c.generation + 1 } c.mounts).generation = _
      rw [replay_generation]
    rw [hnext] at hgeneration
    exact absurd hgeneration (Nat.succ_ne_self _)

theorem atomicReload_of_valid (hpath : c.yamlPath = some path) (h : load s read path = .ok loaded)
    (hvalid : (replay loaded.toConfig c.mounts).validate s = .ok ()) : AtomicReload s read c := by
  have hreload := reload_of_ok hpath h
  rw [← validate_reloadedConfig] at hvalid
  rw [hvalid] at hreload
  refine .reloaded (by rw [hreload]) (by rw [hreload]; exact hvalid) ?_
  intro path' loaded' hpath' h' key v hmounted hdeclares
  obtain rfl := Option.some.inj (hpath.symm.trans hpath')
  obtain rfl := Except.ok.inj (h.symm.trans h')
  rw [hreload]
  obtain ⟨htyped, hdocument⟩ :=
    replay_eq { loaded.toConfig with generation := c.generation + 1 } c.mounts
  exact get_mounted htyped hdocument hmounted hdeclares

theorem SameObservables.refl (registry : NamespaceRegistry) (c : FileConfig) :
    SameObservables registry c c :=
  ⟨fun _ => rfl, rfl, rfl, rfl, rfl⟩

/-- **A reload is atomic, and keeps the mounts, where the file cannot be loaded, or gives with the
mounts on it a configuration that validates; elsewhere it fails with the state replaced.** -/
theorem atomicReload_iff (s : Surroundings) (read : String → Except LoadError Config) (c : FileConfig) :
    AtomicReload s read c ↔ ∀ path loaded, c.yamlPath = some path → load s read path = .ok loaded →
      (replay loaded.toConfig c.mounts).validate s = .ok () := by
  constructor
  · intro hatomic path loaded hpath hload
    by_contra hinvalid
    exact atomicReload_of_invalid hpath hload hinvalid hatomic
  · intro hvalid
    cases hpath : c.yamlPath with
    | none =>
      have hreload : reload s read c = (.error .noPath, c) := reload_of_none hpath
      refine .refused .noPath (by rw [hreload]) ?_
      rw [hreload]
      exact .refl _ _
    | some path =>
      cases hload : load s read path with
      | error e =>
        have hreload := reload_of_error hpath hload
        refine .refused (.notLoaded e) (by rw [hreload]) ?_
        rw [hreload]
        exact .refl _ _
      | ok loaded => exact atomicReload_of_valid hpath hload (hvalid path loaded hpath hload)

/-- A namespace-mode file that declares nothing. -/
def bareFile : Config where
  userNamespaces := .ofEntries [("apcore", .empty)]
  mode := .namespaced

/-- A payload with an effect that is not one is mounted, and the same file is read again. -/
theorem not_atomicReload : ¬ ∀ (s : Surroundings) (read : String → Except LoadError Config)
    (c : FileConfig), AtomicReload s read c := by
  intro h
  have hvalid : (bareFile.validate {}).toOption.isSome = true := by decide +kernel
  let c := (mount (fun _ => .error "") { toConfig := bareFile, yamlPath := some "apcore.yaml" }
    "acl" (.dict (.ofEntries [("default_effect", .string "sometimes")]))).2
  have hload : load {} (fun _ => .ok bareFile) "apcore.yaml" =
      .ok { toConfig := bareFile, yamlPath := some "apcore.yaml" } := by
    unfold load
    dsimp only
    cases hresult : bareFile.validate {} with
    | ok done => rfl
    | error faults =>
      rw [hresult] at hvalid
      cases hvalid
  have hfaulty : ((replay bareFile c.mounts).validate {}).toOption.isSome = false := by
    decide +kernel
  refine atomicReload_of_invalid rfl hload (fun hok => ?_) (h {} (fun _ => .ok bareFile) c)
  rw [hok] at hfaulty
  cases hfaulty

end Reload

end Apcore.Config
