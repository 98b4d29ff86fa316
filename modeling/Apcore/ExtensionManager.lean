import Apcore.Errors
import Apcore.Lib.Transition
import Apcore.Schema.Keys
import Mathlib.Data.List.InsertIdx

/-! # `ExtensionManager` — extension points, what is registered at them, and the handles

A manager keeps the extensions of a point and the handles issued for them in two maps of vectors. A
history keeps the registrations themselves: what was registered, under which handle, and what of it is
still there. After every sequence of calls the two vectors of a point are the two columns of the
registrations that stand there. -/

namespace Apcore

/-- `ExtensionPoint`. -/
structure ExtensionPoint where
  name : String
  description : String
  multiple : Bool
  deriving DecidableEq, Repr

/-- `ExtensionKind`; the object behind the `Arc` is its address. -/
inductive ExtensionKind where
  | discoverer (object : Nat)
  | middleware (object : Nat)
  | acl (object : Nat)
  | spanExporter (object : Nat)
  | moduleValidator (object : Nat)
  | approvalHandler (object : Nat)
  deriving DecidableEq, Repr

namespace ExtensionKind

/-- `object_address`. -/
def objectAddress : ExtensionKind → Nat
  | discoverer object | middleware object | acl object | spanExporter object | moduleValidator object
  | approvalHandler object => object

/-- `point_name`. -/
def pointName : ExtensionKind → String
  | discoverer _ => "discoverer"
  | middleware _ => "middleware"
  | acl _ => "acl"
  | spanExporter _ => "span_exporter"
  | moduleValidator _ => "module_validator"
  | approvalHandler _ => "approval_handler"

end ExtensionKind

/-- `built_in_points`. -/
def builtInPoints : List ExtensionPoint :=
  [⟨"discoverer", "Custom module discovery strategy", false⟩, ⟨"middleware", "Execution middleware", true⟩,
    ⟨"acl", "Access control provider", false⟩, ⟨"span_exporter", "Tracing span exporter", true⟩,
    ⟨"module_validator", "Custom module validation", false⟩,
    ⟨"approval_handler", "Approval handler for Step 4.5 gate", false⟩]

/-- `ExtensionHandle`. -/
structure ExtensionHandle where
  id : Nat
  deriving DecidableEq, Repr

/-- `ExtensionManager`; each map in the order it is iterated in. -/
structure ExtensionManager where
  points : List ExtensionPoint
  extensions : List (String × List ExtensionKind)
  handles : List (String × List ExtensionHandle)
  nextHandle : Nat

namespace ExtensionManager

/-- The orders in which the three maps of a new manager are iterated. No call adds a key or removes one. -/
structure MapOrders where
  points : List ExtensionPoint
  extensions : List String
  handles : List String
  points_perm : points.Perm builtInPoints
  extensions_perm : extensions.Perm (builtInPoints.map (·.name))
  handles_perm : handles.Perm (builtInPoints.map (·.name))

/-- `ExtensionManager::new`. -/
def new (orders : MapOrders) : ExtensionManager where
  points := orders.points
  extensions := orders.extensions.map fun name => (name, [])
  handles := orders.handles.map fun name => (name, [])
  nextHandle := 0

/-- `variant_name_for_point`. -/
def variantNameForPoint (pointName : String) : String :=
  if pointName = "discoverer" then "Discoverer" else if pointName = "middleware" then "Middleware"
  else if pointName = "acl" then "Acl" else if pointName = "span_exporter" then "SpanExporter"
  else if pointName = "module_validator" then "ModuleValidator"
  else if pointName = "approval_handler" then "ApprovalHandler" else "Unknown"

/-- The error for an unknown point that names those there are. -/
def unknownPoint (m : ExtensionManager) (pointName : String) : ModuleError :=
  .new .generalInvalidInput ("Unknown extension point: '" ++ pointName ++ "'. Available: " ++
    ", ".intercalate ((m.points.map (·.name)).mergeSort (· ≤ ·)))

/-- The error for an extension of another kind. -/
def wrongKind (pointName : String) (extension : ExtensionKind) : ModuleError :=
  .new .generalInvalidInput ("Extension for '" ++ pointName ++ "' must be an ExtensionKind::" ++
    variantNameForPoint pointName ++ " variant, got \"" ++ extension.pointName ++ "\"")

/-- `register`; `none` is the panic of an `unwrap`. -/
def register (m : ExtensionManager) (pointName : String) (extension : ExtensionKind) :
    Option (Except ModuleError ExtensionHandle × ExtensionManager) :=
  match m.points.find? (·.name = pointName) with
  | none => some (.error (m.unknownPoint pointName), m)
  | some point =>
    if extension.pointName ≠ pointName then some (.error (wrongKind pointName extension), m)
    else
      let handle : ExtensionHandle := ⟨m.nextHandle⟩
      if point.multiple then
        (Fields.get? m.extensions pointName).map fun _ => (.ok handle, { m with
          extensions := Fields.adjust pointName (· ++ [extension]) m.extensions
          handles := Fields.upsert pointName (fun old => old.getD [] ++ [handle]) m.handles
          nextHandle := m.nextHandle + 1 })
      else some (.ok handle, { m with
        extensions := Fields.upsert pointName (fun _ => [extension]) m.extensions
        handles := Fields.upsert pointName (fun _ => [handle]) m.handles
        nextHandle := m.nextHandle + 1 })

/-- Taking out one position of a point, in both maps; one that is not there is left. -/
def removeAt (m : ExtensionManager) (pointName : String) (index : Nat) : ExtensionManager :=
  { m with
    extensions := Fields.adjust pointName (·.eraseIdx index) m.extensions
    handles := Fields.adjust pointName (·.eraseIdx index) m.handles }

/-- `unregister`. -/
def unregister (m : ExtensionManager) (pointName : String) (extension : ExtensionKind) :
    Except ModuleError Bool × ExtensionManager :=
  match Fields.get? m.extensions pointName with
  | none => (.error (m.unknownPoint pointName), m)
  | some exts => match exts.findIdx? (·.objectAddress = extension.objectAddress) with
    | none => (.ok false, m)
    | some index => (.ok true, m.removeAt pointName index)

/-- `unregister_handle`. -/
def unregisterHandle (m : ExtensionManager) (handle : ExtensionHandle) : Bool × ExtensionManager :=
  match m.handles.findSome? fun entry => (entry.2.findIdx? (· = handle)).map (entry.1, ·) with
  | none => (false, m)
  | some (pointName, index) => (true, m.removeAt pointName index)

/-- `clear`. -/
def clear (m : ExtensionManager) (pointName : String) : Except ModuleError Unit × ExtensionManager :=
  match Fields.get? m.extensions pointName with
  | some _ => (.ok (), { m with
      extensions := Fields.adjust pointName (fun _ => []) m.extensions
      handles := Fields.adjust pointName (fun _ => []) m.handles })
  | none =>
    (.error (.new .generalInvalidInput ("Unknown extension point: '" ++ pointName ++ "'")), m)

/-- `clear_all`. -/
def clearAll (m : ExtensionManager) : ExtensionManager :=
  { m with
    extensions := Fields.mapValues (fun _ _ => []) m.extensions
    handles := Fields.mapValues (fun _ _ => []) m.handles }

/-! ## Calls -/

inductive Call where
  | register (pointName : String) (extension : ExtensionKind)
  | unregister (pointName : String) (extension : ExtensionKind)
  | unregisterHandle (handle : ExtensionHandle)
  | clear (pointName : String)
  | clearAll

inductive Answer where
  | registered (result : Except ModuleError ExtensionHandle)
  | unregistered (result : Except ModuleError Bool)
  | handleRemoved (result : Bool)
  | cleared (result : Except ModuleError Unit)
  | allCleared

/-- A call; `none` is a panic. -/
def call (m : ExtensionManager) : Call → Option (Answer × ExtensionManager)
  | .register pointName extension =>
    (m.register pointName extension).map fun (result, m') => (.registered result, m')
  | .unregister pointName extension =>
    some (.unregistered (m.unregister pointName extension).1, (m.unregister pointName extension).2)
  | .unregisterHandle handle => some (.handleRemoved (m.unregisterHandle handle).1, (m.unregisterHandle handle).2)
  | .clear pointName => some (.cleared (m.clear pointName).1, (m.clear pointName).2)
  | .clearAll => some (.allCleared, m.clearAll)

/-! ## Registrations -/

/-- One registration: the handle it was answered with, its point and its extension. -/
structure Registration where
  handle : ExtensionHandle
  pointName : String
  extension : ExtensionKind
  deriving DecidableEq, Repr

/-- What was registered so far, and what of it is still there. -/
structure History where
  issued : List Registration := []
  live : List Registration := []

namespace History

/-- What stands at a point, in the order of registration. -/
def standing (history : History) (pointName : String) : List Registration :=
  history.live.filter (·.pointName = pointName)

/-- Without one registration. -/
def without (history : History) (r : Registration) : History :=
  { history with live := history.live.filter (· ≠ r) }

/-- Whether a point holds more than one extension. -/
def holdsMany (pointName : String) : Bool :=
  (builtInPoints.find? (·.name = pointName)).any (·.multiple)

/-- What a call that was answered means for the registrations: a point that holds one extension replaces
it, an extension is taken back from the earliest registration of its object. -/
def after (history : History) : Call → Answer → History
  | .register pointName extension, .registered (.ok handle) =>
    { issued := history.issued ++ [⟨handle, pointName, extension⟩]
      live := (if holdsMany pointName then history.live
        else history.live.filter (·.pointName ≠ pointName)) ++ [⟨handle, pointName, extension⟩] }
  | .unregister pointName extension, .unregistered (.ok true) =>
    ((history.standing pointName).find? (·.extension.objectAddress = extension.objectAddress)).elim history
      history.without
  | .unregisterHandle handle, .handleRemoved true =>
    (history.live.find? (·.handle = handle)).elim history history.without
  | .clear pointName, .cleared (.ok ()) =>
    { history with live := history.live.filter (·.pointName ≠ pointName) }
  | .clearAll, _ => { history with live := [] }
  | _, _ => history

end History

/-- A manager with the history of the calls it has had. -/
structure State where
  manager : ExtensionManager
  history : History

/-- One call. -/
def step (s : State) (c : Call) : Option State :=
  (s.manager.call c).map fun (answer, m) => ⟨m, s.history.after c answer⟩

/-- A new manager. -/
def start (orders : MapOrders) : State := ⟨new orders, {}⟩

/-! ## What handles are to be -/

/-- At every point the two vectors are equally long, and at each position they have the handle and the
extension of one registration that stands there. -/
def Aligned (m : ExtensionManager) (history : History) : Prop :=
  ∀ point ∈ builtInPoints, ∃ exts handles, Fields.get? m.extensions point.name = some exts ∧
    Fields.get? m.handles point.name = some handles ∧ exts.length = handles.length ∧
      handles.zip exts = (history.standing point.name).map fun r => (r.handle, r.extension)

/-- The handles of a manager are exact. -/
structure HandlesExact (m : ExtensionManager) (history : History) : Prop where
  aligned : Aligned m history
  single : ∀ point ∈ builtInPoints, point.multiple = false → ∀ exts,
    Fields.get? m.extensions point.name = some exts → exts.length ≤ 1
  distinct : (m.handles.flatMap (·.2)).Nodup
  issuedOnce : (history.issued.map (·.handle)).Nodup
  live : history.live.Sublist history.issued
  removed : ∀ handle, (m.unregisterHandle handle).1 = true ↔ ∃ r ∈ history.live, r.handle = handle
  removesIt : ∀ r ∈ history.live, Aligned (m.unregisterHandle r.handle).2 (history.without r)
  missed : ∀ handle, (m.unregisterHandle handle).1 = false → (m.unregisterHandle handle).2 = m

/-! ## The invariant -/

def pointNames : List String := builtInPoints.map (·.name)

/-- The maps of a manager are the columns of its registrations. -/
structure Represents (m : ExtensionManager) (history : History) : Prop where
  points : m.points.Perm builtInPoints
  extensionKeys : (m.extensions.map (·.1)).Perm pointNames
  handleKeys : (m.handles.map (·.1)).Perm pointNames
  extensions : ∀ name ∈ pointNames,
    Fields.get? m.extensions name = some ((history.standing name).map (·.extension))
  handles : ∀ name ∈ pointNames,
    Fields.get? m.handles name = some ((history.standing name).map (·.handle))
  known : ∀ r ∈ history.live, r.pointName ∈ pointNames
  single : ∀ name, History.holdsMany name = false → (history.standing name).length ≤ 1
  live : history.live.Sublist history.issued
  issuedOnce : (history.issued.map (·.handle)).Nodup
  fresh : ∀ r ∈ history.issued, r.handle.id < m.nextHandle

section Maps

variable {α : Type} {key : String} {map : List (String × α)}

theorem get?_map_nil {names : List String} {name : String} (h : name ∈ names) :
    Fields.get? (names.map fun name => (name, ([] : List α))) name = some [] := by
  induction names with
  | nil => cases h
  | cons first rest ih =>
    rw [List.map_cons, Fields.get?_cons]
    by_cases heq : first = name
    · rw [if_pos heq]
    · rw [if_neg heq, ih ((List.mem_cons.mp h).resolve_left (Ne.symm heq))]

end Maps

theorem nodup_pointNames : pointNames.Nodup := by decide

/-- A point is found whatever the order of the points. -/
theorem find?_points {points : List ExtensionPoint} (h : points.Perm builtInPoints) (name : String) :
    points.find? (·.name = name) = builtInPoints.find? (·.name = name) := by
  have hunique : ∀ p ∈ builtInPoints, ∀ q ∈ builtInPoints, p.name = q.name → p = q := by decide
  cases hfind : builtInPoints.find? (·.name = name) with
  | none => exact List.find?_eq_none.mpr fun p hp => List.find?_eq_none.mp hfind p (h.mem_iff.mp hp)
  | some point =>
    have hname : point.name = name := by simpa using List.find?_some hfind
    have hmem := List.mem_of_find?_eq_some hfind
    obtain ⟨found, hfound⟩ : ∃ found, points.find? (·.name = name) = some found :=
      Option.isSome_iff_exists.mp (List.find?_isSome.mpr ⟨point, h.mem_iff.mpr hmem, by simpa using hname⟩)
    have hfoundName : found.name = name := by simpa using List.find?_some hfound
    rw [hfound, hunique found (h.mem_iff.mp (List.mem_of_find?_eq_some hfound)) point hmem
      (hfoundName.trans hname.symm)]

theorem mem_pointNames {name : String} {point : ExtensionPoint}
    (h : builtInPoints.find? (·.name = name) = some point) : name ∈ pointNames :=
  List.mem_map.mpr ⟨point, List.mem_of_find?_eq_some h, by simpa using List.find?_some h⟩

theorem represents_new (orders : MapOrders) : Represents (new orders) {} where
  points := orders.points_perm
  extensionKeys := by
    show ((orders.extensions.map fun name => (name, ([] : List ExtensionKind))).map (·.1)).Perm _
    rw [List.map_map]
    exact (List.map_id orders.extensions).symm ▸ orders.extensions_perm
  handleKeys := by
    show ((orders.handles.map fun name => (name, ([] : List ExtensionHandle))).map (·.1)).Perm _
    rw [List.map_map]
    exact (List.map_id orders.handles).symm ▸ orders.handles_perm
  extensions name hname := get?_map_nil (orders.extensions_perm.mem_iff.mpr hname)
  handles name hname := get?_map_nil (orders.handles_perm.mem_iff.mpr hname)
  known _ h := absurd h List.not_mem_nil
  single _ _ := Nat.zero_le 1
  live := .slnil
  issuedOnce := .nil
  fresh _ h := absurd h List.not_mem_nil

section Represents

variable {m : ExtensionManager} {history : History} {name : String}

theorem Represents.get?_extensions (h : Represents m history) : Fields.get? m.extensions name =
    if name ∈ pointNames then some ((history.standing name).map (·.extension)) else none := by
  split_ifs with hname
  · exact h.extensions name hname
  · exact Fields.get?_eq_none fun hmem => hname (h.extensionKeys.mem_iff.mp hmem)

/-- Standing registrations have handles of their own. -/
theorem Represents.nodup_live (h : Represents m history) : (history.live.map (·.handle)).Nodup :=
  h.issuedOnce.sublist (h.live.map _)

theorem Represents.eq_of_handle (h : Represents m history) {r r' : Registration} (hr : r ∈ history.live)
    (hr' : r' ∈ history.live) (heq : r.handle = r'.handle) : r = r' :=
  List.inj_on_of_nodup_map h.nodup_live hr hr' heq

theorem mem_standing {r : Registration} : r ∈ history.standing name ↔ r ∈ history.live ∧ r.pointName = name := by
  rw [History.standing, List.mem_filter, decide_eq_true_iff]

/-- Taking out a position takes out what is there. -/
theorem eraseIdx_eq_filter {items : List Registration} (hnodup : items.Nodup) {i : Nat} {r : Registration}
    (h : items[i]? = some r) : items.eraseIdx i = items.filter (· ≠ r) := by
  induction items generalizing i with
  | nil => cases h
  | cons first rest ih =>
    obtain ⟨hfirst, hrest⟩ := List.nodup_cons.mp hnodup
    cases i with
    | zero =>
      obtain rfl := Option.some.inj h
      rw [List.eraseIdx_cons_zero, List.filter_cons_of_neg (by simp), List.filter_eq_self.mpr]
      exact fun other hother => decide_eq_true fun heq => hfirst (heq ▸ hother)
    | succ i =>
      have hr : r ∈ rest := List.mem_of_getElem? h
      have hne : first ≠ r := fun heq => hfirst (heq ▸ hr)
      rw [List.eraseIdx_cons_succ, ih hrest h, List.filter_cons_of_pos (by simpa using hne)]

theorem standing_without (history : History) (r : Registration) (name : String) :
    (history.without r).standing name = (history.standing name).filter (· ≠ r) := by
  unfold History.standing History.without
  rw [List.filter_filter, List.filter_filter]
  exact List.filter_congr fun other _ => Bool.and_comm _ _

/-- **Taking out a position of a point** takes out the registration that stands there. -/
theorem Represents.removeAt (h : Represents m history) {i : Nat} {r : Registration}
    (hi : (history.standing name)[i]? = some r) : Represents (m.removeAt name i) (history.without r) := by
  obtain ⟨hr, hname⟩ := mem_standing.mp (List.mem_of_getElem? hi)
  have hnodup : (history.standing name).Nodup :=
    (List.Nodup.of_map _ h.nodup_live).sublist List.filter_sublist
  have hself : (history.standing name).eraseIdx i = (history.without r).standing name := by
    rw [eraseIdx_eq_filter hnodup hi, standing_without]
  have hother : ∀ other, other ≠ name → (history.without r).standing other = history.standing other := by
    intro other hne
    rw [standing_without, List.filter_eq_self]
    refine fun r' hr' => decide_eq_true ?_
    rintro rfl
    exact hne ((mem_standing.mp hr').2.symm.trans hname)
  have hsublist : (history.without r).live.Sublist history.live := List.filter_sublist
  refine ⟨h.points, ?_, ?_, fun other hother' => ?_, fun other hother' => ?_,
    fun r' hr' => h.known r' (hsublist.subset hr'), fun other hsingle => ?_, hsublist.trans h.live,
    h.issuedOnce, h.fresh⟩
  · exact (Fields.keys_adjust _).symm ▸ h.extensionKeys
  · exact (Fields.keys_adjust _).symm ▸ h.handleKeys
  · show Fields.get? (Fields.adjust name _ m.extensions) other = _
    rw [Fields.get?_adjust, h.extensions other hother']
    split_ifs with heq
    · rw [heq, Option.map_some, List.eraseIdx_map, hself]
    · rw [hother other heq]
  · show Fields.get? (Fields.adjust name _ m.handles) other = _
    rw [Fields.get?_adjust, h.handles other hother']
    split_ifs with heq
    · rw [heq, Option.map_some, List.eraseIdx_map, hself]
    · rw [hother other heq]
  · rw [standing_without]
    exact (List.length_filter_le _ _).trans (h.single other hsingle)

/-! ## The calls -/

/-- A handle is found exactly where its registration stands. -/
theorem Represents.unregisterHandle_cases (h : Represents m history) (handle : ExtensionHandle) :
    (∃ r ∈ history.live, r.handle = handle ∧ (m.unregisterHandle handle).1 = true ∧
      Represents (m.unregisterHandle handle).2 (history.without r)) ∨
    (∀ r ∈ history.live, r.handle ≠ handle) ∧ m.unregisterHandle handle = (false, m) := by
  have hnodup : (m.handles.map (·.1)).Nodup := h.handleKeys.nodup_iff.mpr nodup_pointNames
  unfold unregisterHandle
  cases hfound : m.handles.findSome? fun entry => (entry.2.findIdx? (· = handle)).map (entry.1, ·) with
  | none =>
    refine .inr ⟨fun r hr heq => ?_, rfl⟩
    have hentry := Fields.mem_of_get? (h.handles r.pointName (h.known r hr))
    have hnone := Option.map_eq_none_iff.mp (List.findSome?_eq_none_iff.mp hfound _ hentry)
    have hmem : handle ∈ (history.standing r.pointName).map (·.handle) :=
      List.mem_map.mpr ⟨r, mem_standing.mpr ⟨hr, rfl⟩, heq⟩
    simpa using List.findIdx?_eq_none_iff.mp hnone handle hmem
  | some found =>
    obtain ⟨pointName, index⟩ := found
    obtain ⟨entry, hentry, hindex⟩ := List.exists_of_findSome?_eq_some hfound
    obtain ⟨i, hi, hpair⟩ := Option.map_eq_some_iff.mp hindex
    obtain ⟨rfl, rfl⟩ := Prod.mk.inj hpair
    have hname : entry.1 ∈ pointNames := h.handleKeys.mem_iff.mp (List.mem_map_of_mem hentry)
    have hhandles : entry.2 = (history.standing entry.1).map (·.handle) :=
      Option.some.inj ((Fields.get?_of_mem hnodup hentry).symm.trans (h.handles entry.1 hname))
    rw [hhandles] at hi
    obtain ⟨hlt, hhandle, -⟩ := List.findIdx?_eq_some_iff_getElem.mp hi
    rw [List.length_map] at hlt
    rw [List.getElem_map, decide_eq_true_iff] at hhandle
    exact .inl ⟨(history.standing entry.1)[i], (mem_standing.mp (List.getElem_mem hlt)).1, hhandle, rfl,
      h.removeAt (List.getElem?_eq_getElem hlt)⟩

theorem Represents.unregister (h : Represents m history) (extension : ExtensionKind) :
    Represents (m.unregister name extension).2 (history.after (.unregister name extension)
      (.unregistered (m.unregister name extension).1)) := by
  unfold ExtensionManager.unregister
  rw [h.get?_extensions]
  split_ifs with hname
  · dsimp only
    rw [List.findIdx?_map]
    cases hfound : (history.standing name).findIdx?
        ((fun e : ExtensionKind => decide (e.objectAddress = extension.objectAddress)) ∘ (·.extension)) with
    | none => exact h
    | some i =>
      obtain ⟨hlt, hsame, hbefore⟩ := List.findIdx?_eq_some_iff_getElem.mp hfound
      have hfirst : (history.standing name).find? (·.extension.objectAddress = extension.objectAddress) =
          some (history.standing name)[i] :=
        List.find?_eq_some_iff_getElem.mpr ⟨hsame, i, hlt, rfl, fun j hj => by simpa using hbefore j hj⟩
      show Represents _ (Option.elim _ history history.without)
      rw [hfirst]
      exact h.removeAt (List.getElem?_eq_getElem hlt)
  · exact h

theorem Represents.unregisterHandle (h : Represents m history) (handle : ExtensionHandle) :
    Represents (m.unregisterHandle handle).2 (history.after (.unregisterHandle handle)
      (.handleRemoved (m.unregisterHandle handle).1)) := by
  rcases h.unregisterHandle_cases handle with ⟨r, hr, rfl, htrue, hremoved⟩ | ⟨-, hmissed⟩
  · rw [htrue]
    have hfind : history.live.find? (·.handle = r.handle) = some r := by
      obtain ⟨found, hfound⟩ := Option.isSome_iff_exists.mp
        (List.find?_isSome.mpr ⟨r, hr, by simp⟩ : (history.live.find? (·.handle = r.handle)).isSome)
      have hsame : found.handle = r.handle := by simpa using List.find?_some hfound
      rw [hfound, h.eq_of_handle (List.mem_of_find?_eq_some hfound) hr hsame]
    show Represents _ (Option.elim _ history history.without)
    rw [hfind]
    exact hremoved
  · rw [hmissed]
    exact h

/-- What stands once the registrations of a point are dropped. -/
theorem standing_drop (history : History) (dropped name : String) :
    (history.live.filter (·.pointName ≠ dropped)).filter (·.pointName = name) =
      if name = dropped then [] else history.standing name := by
  rw [List.filter_filter]
  split_ifs with heq
  · subst heq
    refine List.filter_eq_nil_iff.mpr fun r _ => ?_
    simp
  · refine List.filter_congr fun r _ => ?_
    by_cases hname : r.pointName = name
    · simp [hname, heq]
    · simp [hname]

theorem Represents.clear (h : Represents m history) : Represents (m.clear name).2
    (history.after (.clear name) (.cleared (m.clear name).1)) := by
  unfold ExtensionManager.clear
  rw [h.get?_extensions]
  split_ifs with hname
  · have hstanding : ∀ other, History.standing { history with
        live := history.live.filter (·.pointName ≠ name) } other =
          if other = name then [] else history.standing other := standing_drop history name
    have hsublist : (history.live.filter (·.pointName ≠ name)).Sublist history.live := List.filter_sublist
    show Represents _ { history with live := history.live.filter (·.pointName ≠ name) }
    refine ⟨h.points, ?_, ?_, fun other hother => ?_, fun other hother => ?_,
      fun r hr => h.known r (hsublist.subset hr), fun other hsingle => ?_, hsublist.trans h.live,
      h.issuedOnce, h.fresh⟩
    · exact (Fields.keys_adjust _).symm ▸ h.extensionKeys
    · exact (Fields.keys_adjust _).symm ▸ h.handleKeys
    · show Fields.get? (Fields.adjust name _ m.extensions) other = _
      rw [Fields.get?_adjust, h.extensions other hother]
      rw [hstanding]
      split_ifs <;> rfl
    · show Fields.get? (Fields.adjust name _ m.handles) other = _
      rw [Fields.get?_adjust, h.handles other hother]
      rw [hstanding]
      split_ifs <;> rfl
    · rw [hstanding]
      split_ifs
      · exact Nat.zero_le 1
      · exact h.single other hsingle
  · exact h

theorem Represents.clearAll (h : Represents m history) :
    Represents m.clearAll (history.after .clearAll .allCleared) := by
  have hkeys : ∀ {α : Type} (map : List (String × List α)),
      (Fields.mapValues (fun _ _ => []) map).map (·.1) = map.map (·.1) := fun map => List.map_map
  refine ⟨h.points, ?_, ?_, fun other hother => ?_, fun other hother => ?_,
    fun r hr => absurd hr List.not_mem_nil, fun other hsingle => Nat.zero_le 1, List.nil_sublist _,
    h.issuedOnce, h.fresh⟩
  · exact (hkeys m.extensions).symm ▸ h.extensionKeys
  · exact (hkeys m.handles).symm ▸ h.handleKeys
  · exact (Fields.get?_mapValues (fun _ _ => []) m.extensions other).trans
      (congrArg (Option.map _) (h.extensions other hother))
  · exact (Fields.get?_mapValues (fun _ _ => []) m.handles other).trans
      (congrArg (Option.map _) (h.handles other hother))

/-- What stands once a registration is added. -/
theorem filter_append_registration (live : List Registration) (r : Registration) (name : String) :
    (live ++ [r]).filter (·.pointName = name) =
      live.filter (·.pointName = name) ++ if name = r.pointName then [r] else [] := by
  rw [List.filter_append]
  split_ifs with heq
  · rw [List.filter_cons_of_pos (by simp [heq]), List.filter_nil]
  · rw [List.filter_cons_of_neg (by simpa using Ne.symm heq), List.filter_nil]

/-- A registration under a handle that was not issued yet. -/
theorem Represents.add (h : Represents m history) (hname : name ∈ pointNames) {extension : ExtensionKind}
    {kept : List Registration} (hkept : kept.Sublist history.live)
    (hstanding : ∀ other, other ≠ name → kept.filter (·.pointName = other) = history.standing other)
    (hsingle : History.holdsMany name = false → kept.filter (·.pointName = name) = [])
    {exts : List (String × List ExtensionKind)} {handles : List (String × List ExtensionHandle)}
    (hextKeys : exts.map (·.1) = m.extensions.map (·.1)) (hhandleKeys : handles.map (·.1) = m.handles.map (·.1))
    (hexts : ∀ other ∈ pointNames, Fields.get? exts other = if other = name then
      some ((kept.filter (·.pointName = name)).map (·.extension) ++ [extension])
        else Fields.get? m.extensions other)
    (hhandles : ∀ other ∈ pointNames, Fields.get? handles other = if other = name then
      some ((kept.filter (·.pointName = name)).map (·.handle) ++ [⟨m.nextHandle⟩])
        else Fields.get? m.handles other) :
    Represents { m with extensions := exts, handles := handles, nextHandle := m.nextHandle + 1 }
      { issued := history.issued ++ [⟨⟨m.nextHandle⟩, name, extension⟩]
        live := kept ++ [⟨⟨m.nextHandle⟩, name, extension⟩] } := by
  have hnew : ∀ other, History.standing
      { issued := history.issued ++ [⟨⟨m.nextHandle⟩, name, extension⟩]
        live := kept ++ [⟨⟨m.nextHandle⟩, name, extension⟩] } other =
      kept.filter (·.pointName = other) ++ if other = name then [⟨⟨m.nextHandle⟩, name, extension⟩] else [] :=
    fun other => filter_append_registration kept _ other
  refine ⟨h.points, hextKeys ▸ h.extensionKeys, hhandleKeys ▸ h.handleKeys, fun other hother => ?_,
    fun other hother => ?_, fun r hr => ?_, fun other hone => ?_, (hkept.trans h.live).append (.refl _), ?_,
    fun r hr => ?_⟩
  · show Fields.get? exts other = _
    rw [hexts other hother, hnew]
    split_ifs with heq
    · rw [heq, List.map_append]
      rfl
    · rw [h.extensions other hother, List.append_nil, hstanding other heq]
  · show Fields.get? handles other = _
    rw [hhandles other hother, hnew]
    split_ifs with heq
    · rw [heq, List.map_append]
      rfl
    · rw [h.handles other hother, List.append_nil, hstanding other heq]
  · rcases List.mem_append.mp hr with hr | hr
    · exact h.known r (hkept.subset hr)
    · obtain rfl := List.mem_singleton.mp hr
      exact hname
  · rw [hnew]
    split_ifs with heq
    · subst heq
      rw [hsingle hone]
      exact le_refl 1
    · rw [List.append_nil, hstanding other heq]
      exact h.single other hone
  · rw [List.map_append, List.map_singleton]
    refine List.nodup_append.mpr ⟨h.issuedOnce, List.nodup_singleton _, fun handle hhandle handle' hnext => ?_⟩
    obtain ⟨r, hr, rfl⟩ := List.mem_map.mp hhandle
    obtain rfl := List.mem_singleton.mp hnext
    exact fun heq => absurd (congrArg ExtensionHandle.id heq) (ne_of_lt (h.fresh r hr))
  · rcases List.mem_append.mp hr with hr | hr
    · exact Nat.lt_succ_of_lt (h.fresh r hr)
    · obtain rfl := List.mem_singleton.mp hr
      exact Nat.lt_succ_self _

theorem History.after_registered (history : History) (name : String) (extension : ExtensionKind)
    (handle : ExtensionHandle) : history.after (.register name extension) (.registered (.ok handle)) =
      { issued := history.issued ++ [⟨handle, name, extension⟩]
        live := (if holdsMany name then history.live
          else history.live.filter (·.pointName ≠ name)) ++ [⟨handle, name, extension⟩] } := rfl

theorem Represents.register (h : Represents m history) (extension : ExtensionKind) :
    ∃ result m', m.register name extension = some (result, m') ∧
      Represents m' (history.after (.register name extension) (.registered result)) := by
  unfold ExtensionManager.register
  rw [find?_points h.points]
  cases hfind : builtInPoints.find? (·.name = name) with
  | none => exact ⟨_, _, rfl, h⟩
  | some point =>
    have hname := mem_pointNames hfind
    have hmany : History.holdsMany name = point.multiple := by
      unfold History.holdsMany
      rw [hfind]
      rfl
    have hextKey : name ∈ m.extensions.map (·.1) := h.extensionKeys.mem_iff.mpr hname
    have hhandleKey : name ∈ m.handles.map (·.1) := h.handleKeys.mem_iff.mpr hname
    dsimp only
    split_ifs with hkind hmultiple
    · exact ⟨_, _, rfl, h⟩
    · rw [h.extensions name hname]
      refine ⟨_, _, rfl, ?_⟩
      rw [History.after_registered, hmany, if_pos hmultiple]
      refine h.add hname (.refl _) (fun _ _ => rfl) (fun hone => ?_) (Fields.keys_adjust _) (Fields.keys_upsert hhandleKey)
        (fun other hother => ?_) (fun other hother => ?_)
      · exact absurd (hmultiple.symm.trans (hmany.symm.trans hone)) (by simp)
      · rw [Fields.get?_adjust]
        split_ifs with heq
        · rw [heq, h.extensions name hname]
          rfl
        · rfl
      · rw [Fields.get?_upsert, h.handles name hname]
        split_ifs with heq heq' heq'
        · rfl
        · exact absurd heq.symm heq'
        · exact absurd heq'.symm heq
        · rfl
    · refine ⟨_, _, rfl, ?_⟩
      rw [History.after_registered, hmany, if_neg hmultiple]
      have hnone : (history.live.filter (·.pointName ≠ name)).filter (·.pointName = name) = [] := by
        rw [standing_drop, if_pos rfl]
      refine h.add hname List.filter_sublist (fun other hne => ?_) (fun _ => hnone) (Fields.keys_upsert hextKey)
        (Fields.keys_upsert hhandleKey) (fun other hother => ?_) (fun other hother => ?_)
      · rw [standing_drop, if_neg hne]
      · rw [Fields.get?_upsert, hnone]
        split_ifs with heq heq' heq'
        · rfl
        · exact absurd heq.symm heq'
        · exact absurd heq'.symm heq
        · rfl
      · rw [Fields.get?_upsert, hnone]
        split_ifs with heq heq' heq'
        · rfl
        · exact absurd heq.symm heq'
        · exact absurd heq'.symm heq
        · rfl

end Represents

/-- **Every call keeps the invariant**, and none panics. -/
theorem step_represents {s : State} (h : Represents s.manager s.history) (c : Call) :
    ∃ s', step s c = some s' ∧ Represents s'.manager s'.history := by
  unfold step
  cases c with
  | register pointName extension =>
    obtain ⟨result, m', hregister, hrepresents⟩ := @Represents.register _ _ pointName h extension
    refine ⟨⟨m', s.history.after (.register pointName extension) (.registered result)⟩, ?_, hrepresents⟩
    rw [call, hregister]
    rfl
  | unregister pointName extension => exact ⟨_, rfl, h.unregister extension⟩
  | unregisterHandle handle => exact ⟨_, rfl, h.unregisterHandle handle⟩
  | clear pointName => exact ⟨_, rfl, h.clear⟩
  | clearAll => exact ⟨_, rfl, h.clearAll⟩

theorem exec_represents {s : State} (h : Represents s.manager s.history) (calls : List Call) :
    ∃ s', Transition.exec step s calls = some s' ∧ Represents s'.manager s'.history := by
  induction calls generalizing s with
  | nil => exact ⟨s, rfl, h⟩
  | cons c calls ih =>
    obtain ⟨s₁, hstep, h₁⟩ := step_represents h c
    obtain ⟨s', hexec, h'⟩ := ih h₁
    exact ⟨s', Transition.exec_cons.mpr ⟨s₁, hstep, hexec⟩, h'⟩

/-! ## The handles -/

section HandlesExact

variable {m : ExtensionManager} {history : History}

theorem Represents.aligned (h : Represents m history) : Aligned m history := by
  intro point hpoint
  have hname : point.name ∈ pointNames := List.mem_map_of_mem hpoint
  refine ⟨_, _, h.extensions _ hname, h.handles _ hname, ?_, List.zip_map' ..⟩
  rw [List.length_map, List.length_map]

theorem Represents.distinct (h : Represents m history) : (m.handles.flatMap (·.2)).Nodup := by
  have hkeys : (m.handles.map (·.1)).Nodup := h.handleKeys.nodup_iff.mpr nodup_pointNames
  have hcolumn : ∀ entry ∈ m.handles, entry.2 = (history.standing entry.1).map (·.handle) := fun entry hentry =>
    Option.some.inj ((Fields.get?_of_mem hkeys hentry).symm.trans
      (h.handles _ (h.handleKeys.mem_iff.mp (List.mem_map_of_mem hentry))))
  rw [List.nodup_flatMap]
  refine ⟨fun entry hentry => ?_, (List.pairwise_map.mp hkeys).imp_of_mem fun hentry hentry' hne => ?_⟩
  · rw [hcolumn entry hentry]
    exact h.nodup_live.sublist (List.filter_sublist.map _)
  · intro handle hhandle hhandle'
    dsimp only at hhandle hhandle'
    rw [hcolumn _ hentry] at hhandle
    rw [hcolumn _ hentry'] at hhandle'
    obtain ⟨r, hr, rfl⟩ := List.mem_map.mp hhandle
    obtain ⟨r', hr', heq⟩ := List.mem_map.mp hhandle'
    obtain ⟨hlive, hpoint⟩ := mem_standing.mp hr
    obtain ⟨hlive', hpoint'⟩ := mem_standing.mp hr'
    obtain rfl := h.eq_of_handle hlive' hlive heq
    exact hne (hpoint.symm.trans hpoint')

theorem Represents.handlesExact (h : Represents m history) : HandlesExact m history where
  aligned := h.aligned
  single point hpoint hsingle exts hexts := by
    have hname : point.name ∈ pointNames := List.mem_map_of_mem hpoint
    have hone : History.holdsMany point.name = false := by
      have hall : ∀ point ∈ builtInPoints, History.holdsMany point.name = point.multiple := by decide
      rw [hall point hpoint, hsingle]
    obtain rfl := Option.some.inj ((h.extensions _ hname).symm.trans hexts)
    rw [List.length_map]
    exact h.single _ hone
  distinct := h.distinct
  issuedOnce := h.issuedOnce
  live := h.live
  removed handle := by
    rcases h.unregisterHandle_cases handle with ⟨r, hr, hhandle, htrue, -⟩ | ⟨hnone, hmissed⟩
    · exact iff_of_true htrue ⟨r, hr, hhandle⟩
    · rw [hmissed]
      exact iff_of_false Bool.false_ne_true fun ⟨r, hr, hhandle⟩ => hnone r hr hhandle
  removesIt r hr := by
    rcases h.unregisterHandle_cases r.handle with ⟨r', hr', hhandle, -, hremoved⟩ | ⟨hnone, -⟩
    · obtain rfl := h.eq_of_handle hr' hr hhandle
      exact hremoved.aligned
    · exact absurd rfl (hnone r hr)
  missed handle hfalse := by
    rcases h.unregisterHandle_cases handle with ⟨r, -, -, htrue, -⟩ | ⟨-, hmissed⟩
    · exact absurd (htrue.symm.trans hfalse) (by simp)
    · rw [hmissed]

end HandlesExact

/-- **Handles are exact** after every sequence of calls: every call is answered, and in the state it leaves
the handles of each point are those of the registrations that stand there, each issued once, so that
removing by a handle removes its registration where it still stands, and no other. -/
theorem handles_exact (orders : MapOrders) (calls : List Call) :
    ∃ s, Transition.exec step (start orders) calls = some s ∧ HandlesExact s.manager s.history := by
  obtain ⟨s, hexec, hrepresents⟩ := exec_represents (s := start orders) (represents_new orders) calls
  exact ⟨s, hexec, hrepresents.handlesExact⟩

end ExtensionManager

end Apcore
