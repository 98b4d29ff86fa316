import Apcore.Config.EnvRouting
import Apcore.Errors
import Apcore.Lib.Transition

/-! # `Config.EnvOwners` — who has claimed an environment variable

`register_namespace` keeps the registry locked from its first look at it to its last write; `env_map`
does not touch the registry. Both look at the claims under one lock and make theirs under another
one, taken later. Any number of calls are under way. -/

namespace Apcore

namespace EnvOwners

open Config

/-- `RESERVED_NAMESPACES`. -/
def reservedNamespaces : List String := ["apcore", "_config"]

def configNamespaceReserved (name : String) : ModuleError :=
  { ModuleError.new .configNamespaceReserved ("Namespace '" ++ name ++ "' is reserved") with
    details := [("name", .string name)] }

def configNamespaceDuplicate (name : String) : ModuleError :=
  { ModuleError.new .configNamespaceDuplicate
      ("Namespace '" ++ name ++ "' is already registered") with
    details := [("name", .string name)] }

def configEnvPrefixConflict (envPrefix : String) : ModuleError :=
  { ModuleError.new .configEnvPrefixConflict
      ("env_prefix '" ++ envPrefix ++ "' conflicts with reserved pattern") with
    details := [("env_prefix", .string envPrefix)] }

def configEnvMapConflict (envVar owner : String) : ModuleError :=
  { ModuleError.new .configEnvMapConflict
      ("Environment variable '" ++ envVar ++ "' is already mapped by '" ++ owner ++ "'") with
    details := [("env_var", .string envVar), ("owner", .string owner)] }

/-- Where a thread stands. -/
inductive Pc where
  | idle
  | checkingGlobal (mapping : List (String × String))
  /-- No variable of the mapping was claimed when `env_map` looked. -/
  | writingGlobal (mapping : List (String × String))
  | registering (reg : EnvRegistration)
  /-- `register_namespace` has the registry. -/
  | checking (reg : EnvRegistration)
  | claiming (reg : EnvRegistration)
  | inserting (reg : EnvRegistration)

/-- The three tables and the threads, by number. The last fields are not in the program: the
registration that is about to go into the registry, the threads whose call has written to a table,
the variables of each call that made claims, and the errors that were returned, with whether the call
had written to a table. -/
structure State where
  claimed : String → Option String
  globalEnvMap : String → Option String
  registry : EnvRegistry
  registrar : Option Nat
  pc : Nat → Pc
  arriving : Option EnvRegistration
  touched : Nat → Bool
  grants : List (List String)
  failures : List (ModuleError × Bool)

def init : State where
  claimed := fun _ => none
  globalEnvMap := fun _ => none
  registry := []
  registrar := none
  pc := fun _ => .idle
  arriving := none
  touched := fun _ => false
  grants := []
  failures := []

/-- `em.keys()`. -/
def mappedVars (mapping : List (String × String)) : List String := mapping.map (·.1)

/-- The variables of a registration's own map. -/
def EnvRegistration.mapped (reg : EnvRegistration) : List String :=
  mappedVars (reg.envMap.getD [])

/-- The owner of the first of these variables that has one. -/
def State.conflict (s : State) (vars : List String) : Option ModuleError :=
  vars.findSome? fun var => (s.claimed var).map (configEnvMapConflict var)

/-- Claims for these variables. -/
def State.claim (s : State) (vars : List String) (owner : String) : State :=
  { s with
    claimed := fun var => if var ∈ vars then some owner else s.claimed var
    grants := s.grants ++ [vars] }

def State.goTo (s : State) (t : Nat) (pc : Pc) : State :=
  { s with pc := Function.update s.pc t pc }

/-- A call returns an error. -/
def State.fail (s : State) (t : Nat) (error : ModuleError) : State :=
  { s.goTo t .idle with failures := s.failures ++ [(error, s.touched t)] }

/-- The thread's call has written to a table. -/
def State.touch (s : State) (t : Nat) : State :=
  { s with touched := Function.update s.touched t true }

/-- The prefix of a registration, derived from its name where there is none. -/
def withPrefix (upper : String → String) (reg : EnvRegistration) : EnvRegistration :=
  match reg.envPrefix with
  | some _ => reg
  | none =>
    { reg with envPrefix := some ((upper reg.name).map fun c => if c = '-' then '_' else c) }

inductive Label where
  | envMap (t : Nat) (mapping : List (String × String))
  | checkGlobal (t : Nat)
  | writeGlobal (t : Nat)
  | registerNamespace (t : Nat) (reg : EnvRegistration)
  | lock (t : Nat)
  | check (t : Nat)
  | claim (t : Nat)
  | insert (t : Nat)

/-- One step, with the upper case of `str::to_uppercase`. -/
def step (upper : String → String) (s : State) : Label → Option State
  | .envMap t mapping =>
    match s.pc t with
    | .idle =>
      some { s.goTo t (.checkingGlobal mapping) with touched := Function.update s.touched t false }
    | _ => none
  | .checkGlobal t =>
    match s.pc t with
    | .checkingGlobal mapping =>
      match s.conflict (mappedVars mapping) with
      | some error => some (s.fail t error)
      | none => some (s.goTo t (.writingGlobal mapping))
    | _ => none
  | .writeGlobal t =>
    match s.pc t with
    | .writingGlobal mapping =>
      some
        { ((s.claim (mappedVars mapping) "__global__").touch t).goTo t .idle with
          globalEnvMap := fun var => (Fields.get? mapping var).or (s.globalEnvMap var) }
    | _ => none
  | .registerNamespace t reg =>
    match s.pc t with
    | .idle =>
      let s := { s with touched := Function.update s.touched t false }
      if reg.name ∈ reservedNamespaces then some (s.fail t (configNamespaceReserved reg.name))
      else
        let reg := withPrefix upper reg
        if reg.envPrefix = some "APCORE" ∧ reg.name ≠ "apcore" then
          some (s.fail t (configNamespaceReserved reg.name))
        else some (s.goTo t (.registering reg))
    | _ => none
  | .lock t =>
    match s.pc t, s.registrar with
    | .registering reg, none =>
      if reg.name ∈ s.registry.map (·.name) then
        some (s.fail t (configNamespaceDuplicate reg.name))
      else if reg.envPrefix ∈ s.registry.map (·.envPrefix) then
        some (s.fail t (configEnvPrefixConflict (reg.envPrefix.getD "")))
      else some { s.goTo t (.checking reg) with registrar := some t }
    | _, _ => none
  | .check t =>
    match s.pc t with
    | .checking reg =>
      match reg.envMap with
      | none => some { s.goTo t (.inserting reg) with arriving := some reg }
      | some mapping =>
        match s.conflict (mappedVars mapping) with
        | some error => some { s.fail t error with registrar := none }
        | none => some (s.goTo t (.claiming reg))
    | _ => none
  | .claim t =>
    match s.pc t with
    | .claiming reg =>
      some { ((s.claim (EnvRegistration.mapped reg) reg.name).touch t).goTo t (.inserting reg) with
        arriving := some reg }
    | _ => none
  | .insert t =>
    match s.pc t with
    | .inserting reg =>
      some { (s.touch t).goTo t .idle with
        registry := s.registry ++ [reg]
        registrar := none
        arriving := none }
    | _ => none

/-- The registry as it is when its lock is free again. -/
def State.registrations (s : State) : EnvRegistry := s.registry ++ s.arriving.toList

/-- The owner is the global map or the namespace whose map has the variable. -/
def State.Owns (s : State) (owner var : String) : Prop :=
  owner = "__global__" ∧ (s.globalEnvMap var).isSome ∨
    ∃ reg ∈ s.registrations, reg.name = owner ∧ var ∈ EnvRegistration.mapped reg

/-- One owner for each variable: no two calls that succeed claim it, the claims are those of the
global map and of the namespaces, which have no variable in common; names and prefixes are distinct;
and a call that returned an error had written to no table. -/
structure OneOwner (s : State) : Prop where
  oneClaim : s.grants.Pairwise List.Disjoint
  agree : ∀ var owner, s.claimed var = some owner ↔ s.Owns owner var
  apart : ∀ reg ∈ s.registrations, ∀ var ∈ EnvRegistration.mapped reg, s.globalEnvMap var = none ∧
    ∀ other ∈ s.registrations, var ∈ EnvRegistration.mapped other → other = reg
  names : (s.registrations.map (·.name)).Nodup
  prefixes : (s.registrations.map (·.envPrefix)).Nodup
  unchanged : ∀ failure ∈ s.failures, failure.2 = false

/-- A call makes a claim for a variable that has been claimed since the call looked. -/
def Overtaken (s : State) : Label → Prop
  | .writeGlobal t => ∃ mapping, s.pc t = .writingGlobal mapping ∧
    ∃ var ∈ mappedVars mapping, s.claimed var ≠ none
  | .claim t => ∃ reg, s.pc t = .claiming reg ∧
    ∃ var ∈ EnvRegistration.mapped reg, s.claimed var ≠ none
  | _ => False

end EnvOwners

end Apcore

/-! ## One owner, unless a call is overtaken

Names and prefixes are checked and written under one lock, so they stay distinct in every run. The
claims are not: what a call found free may be claimed when it makes its own claim. -/

namespace Apcore

namespace EnvOwners

open Config Transition

variable {upper : String → String} {s s' : State} {t : Nat} {pc : Pc} {reg : EnvRegistration}

/-! ## The threads -/

/-- The registration of a call that has the registry. -/
def Pc.holder : Pc → Option EnvRegistration
  | .checking reg => some reg
  | .claiming reg => some reg
  | .inserting reg => some reg
  | _ => none

/-- A call that may still fail, or that has not written yet. -/
def Pc.isUnwritten : Pc → Bool
  | .idle => false
  | .inserting _ => false
  | _ => true

/-- What holds of a thread by where it stands: who has the registry, that the names checked under
the lock are still new, and that nothing was written. -/
structure Stands (s : State) (t : Nat) (pc : Pc) : Prop where
  holds : ∀ reg, pc.holder = some reg → s.registrar = some t
  fresh : ∀ reg, pc = .checking reg ∨ pc = .claiming reg → s.arriving = none ∧
    reg.name ∉ s.registry.map (·.name) ∧ reg.envPrefix ∉ s.registry.map (·.envPrefix)
  arriving : ∀ reg, pc = .inserting reg → s.arriving = some reg
  untouched : pc.isUnwritten = true → s.touched t = false

/-- The invariant of all runs. -/
structure Inv (s : State) : Prop where
  claims : ∀ var, s.claimed var ≠ none ↔ ∃ vars ∈ s.grants, var ∈ vars
  stands : ∀ t, Stands s t (s.pc t)
  free : s.registrar = none → s.arriving = none
  names : (s.registrations.map (·.name)).Nodup
  prefixes : (s.registrations.map (·.envPrefix)).Nodup
  unchanged : ∀ failure ∈ s.failures, failure.2 = false

/-- A thread without the registry stands as before where nothing of its own has changed. -/
theorem Stands.of_holder (h : Stands s t pc) (hholder : pc.holder = none)
    (htouched : s'.touched t = s.touched t) : Stands s' t pc where
  holds := fun reg hreg => by
    rw [hholder] at hreg
    cases hreg
  fresh := fun reg hreg => by
    rcases hreg with rfl | rfl
    · cases hholder
    · cases hholder
  arriving := fun reg hreg => by
    subst hreg
    cases hholder
  untouched := fun hpc => htouched.trans (h.untouched hpc)

theorem Stands.of_same (h : Stands s t pc) (hregistrar : s'.registrar = s.registrar)
    (harriving : s'.arriving = s.arriving) (hregistry : s'.registry = s.registry)
    (htouched : s'.touched t = s.touched t) : Stands s' t pc where
  holds := fun reg hreg => hregistrar.trans (h.holds reg hreg)
  fresh := fun reg hreg => by
    rw [harriving, hregistry]
    exact h.fresh reg hreg
  arriving := fun reg hreg => harriving.trans (h.arriving reg hreg)
  untouched := fun hpc => htouched.trans (h.untouched hpc)

/-- A thread moves while the registry is as it was. -/
theorem Inv.stands_of_same (h : Inv s) (hpc : s'.pc = Function.update s.pc t pc)
    (hregistrar : s'.registrar = s.registrar) (harriving : s'.arriving = s.arriving)
    (hregistry : s'.registry = s.registry)
    (htouched : ∀ other, other ≠ t → s'.touched other = s.touched other) (hthis : Stands s' t pc) :
    ∀ other, Stands s' other (s'.pc other) := by
  intro other
  rw [hpc]
  by_cases hother : other = t
  · subst hother
    rwa [Function.update_self]
  · rw [Function.update_of_ne hother]
    exact (h.stands other).of_same hregistrar harriving hregistry (htouched other hother)

/-- The thread that has the registry, or takes it, moves. -/
theorem Inv.stands_of_registrar (h : Inv s) (hpc : s'.pc = Function.update s.pc t pc)
    (hregistrar : s.registrar = none ∨ s.registrar = some t)
    (htouched : ∀ other, other ≠ t → s'.touched other = s.touched other) (hthis : Stands s' t pc) :
    ∀ other, Stands s' other (s'.pc other) := by
  intro other
  rw [hpc]
  by_cases hother : other = t
  · subst hother
    rwa [Function.update_self]
  · rw [Function.update_of_ne hother]
    have hholder : (s.pc other).holder = none := by
      rw [Option.eq_none_iff_forall_not_mem]
      intro reg hreg
      have hholds := (h.stands other).holds reg hreg
      rcases hregistrar with hnone | hsome
      · rw [hnone] at hholds
        cases hholds
      · rw [hsome] at hholds
        exact hother (Option.some.inj hholds).symm
    exact (h.stands other).of_holder hholder (htouched other hother)

/-- A thread that has no call under way, or whose call has yet to take the registry. -/
theorem Stands.of_outside (hholder : pc.holder = none)
    (huntouched : pc.isUnwritten = true → s.touched t = false) : Stands s t pc where
  holds := fun reg hreg => by
    rw [hholder] at hreg
    cases hreg
  fresh := fun reg hreg => by
    rcases hreg with rfl | rfl
    · cases hholder
    · cases hholder
  arriving := fun reg hreg => by
    subst hreg
    cases hholder
  untouched := huntouched

/-! ## The invariant -/

/-- A call fails that has written nothing. -/
theorem Inv.unchanged_fail (h : Inv s) (huntouched : s.touched t = false) (error : ModuleError) :
    ∀ failure ∈ (s.fail t error).failures, failure.2 = false := by
  intro failure hfailure
  rcases List.mem_append.mp hfailure with hfailure | hfailure
  · exact h.unchanged failure hfailure
  · rw [List.mem_singleton.mp hfailure]
    exact huntouched

/-- A call fails before it has the registry. -/
theorem Inv.fail (h : Inv s) (huntouched : s.touched t = false) (error : ModuleError) :
    Inv (s.fail t error) where
  claims := h.claims
  stands := h.stands_of_same rfl rfl rfl rfl (fun _ _ => rfl)
    (.of_outside rfl fun hidle => by cases hidle)
  free := h.free
  names := h.names
  prefixes := h.prefixes
  unchanged := h.unchanged_fail huntouched error

/-- A thread moves on outside of the registry. -/
theorem Inv.goTo (h : Inv s) (huntouched : s.touched t = false) (hholder : pc.holder = none) :
    Inv (s.goTo t pc) where
  claims := h.claims
  stands := h.stands_of_same rfl rfl rfl rfl (fun _ _ => rfl)
    (.of_outside hholder fun _ => huntouched)
  free := h.free
  names := h.names
  prefixes := h.prefixes
  unchanged := h.unchanged

/-- A thread begins a call, which has written nothing. -/
theorem Inv.begin (h : Inv s) (t : Nat) :
    Inv { s with touched := Function.update s.touched t false } where
  claims := h.claims
  stands := fun other => by
    by_cases hother : other = t
    · subst hother
      have hstands := h.stands other
      exact
        { holds := hstands.holds
          fresh := hstands.fresh
          arriving := hstands.arriving
          untouched := fun _ => Function.update_self other false s.touched }
    · exact (h.stands other).of_same rfl rfl rfl (Function.update_of_ne hother _ _)
  free := h.free
  names := h.names
  prefixes := h.prefixes
  unchanged := h.unchanged

/-- The claims and the grants grow together. -/
theorem claims_claim (h : ∀ var, s.claimed var ≠ none ↔ ∃ vars ∈ s.grants, var ∈ vars)
    (vars : List String) (owner var : String) :
    (s.claim vars owner).claimed var ≠ none ↔ ∃ vars' ∈ (s.claim vars owner).grants, var ∈ vars' := by
  show (if var ∈ vars then some owner else s.claimed var) ≠ none ↔ ∃ vars' ∈ s.grants ++ [vars], _
  by_cases hvar : var ∈ vars
  · rw [if_pos hvar]
    exact iff_of_true (Option.some_ne_none _)
      ⟨vars, List.mem_append_right _ List.mem_cons_self, hvar⟩
  · rw [if_neg hvar, h var]
    constructor
    · rintro ⟨vars', hvars', hmem⟩
      exact ⟨vars', List.mem_append_left _ hvars', hmem⟩
    · rintro ⟨vars', hvars', hmem⟩
      rcases List.mem_append.mp hvars' with hvars' | hvars'
      · exact ⟨vars', hvars', hmem⟩
      · rw [List.mem_singleton.mp hvars'] at hmem
        exact absurd hmem hvar

theorem Inv.arriving_eq_none (h : Inv s) (hpc : s.pc t = .checking reg ∨ s.pc t = .claiming reg) :
    s.arriving = none :=
  ((h.stands t).fresh reg hpc).1

/-- The registration that was checked can go in. -/
theorem Inv.nodup_arriving (h : Inv s) (hpc : s.pc t = .checking reg ∨ s.pc t = .claiming reg) :
    ((s.registry ++ [reg]).map (·.name)).Nodup ∧
      ((s.registry ++ [reg]).map (·.envPrefix)).Nodup := by
  obtain ⟨hnone, hname, hprefix⟩ := (h.stands t).fresh reg hpc
  have hnames := h.names
  have hprefixes := h.prefixes
  rw [State.registrations, hnone, Option.toList_none, List.append_nil] at hnames hprefixes
  rw [List.map_append, List.map_append]
  constructor
  · exact List.nodup_append.mpr ⟨hnames, List.nodup_singleton _, fun a ha b hb hab => by
      rw [List.mem_singleton.mp hb] at hab
      rw [hab] at ha
      exact hname ha⟩
  · exact List.nodup_append.mpr ⟨hprefixes, List.nodup_singleton _, fun a ha b hb hab => by
      rw [List.mem_singleton.mp hb] at hab
      rw [hab] at ha
      exact hprefix ha⟩

/-- The thread that has the registry goes on to write its registration. -/
theorem Stands.of_inserting (hregistrar : s.registrar = some t) (harriving : s.arriving = some reg) :
    Stands s t (.inserting reg) where
  holds := fun _ _ => hregistrar
  fresh := fun reg' hreg' => by
    rcases hreg' with hreg' | hreg'
    · cases hreg'
    · cases hreg'
  arriving := fun reg' hreg' => by rw [harriving, Pc.inserting.inj hreg']
  untouched := fun hpc => by cases hpc

/-- A registration that was checked is on its way into the registry. -/
theorem Inv.arrive (h : Inv s) (hpc : s.pc t = .checking reg ∨ s.pc t = .claiming reg)
    {claimed : String → Option String} {grants : List (List String)}
    (hclaims : ∀ var, claimed var ≠ none ↔ ∃ vars ∈ grants, var ∈ vars) {touched : Nat → Bool}
    (htouched : ∀ other, other ≠ t → touched other = s.touched other) :
    Inv { s.goTo t (.inserting reg) with arriving := some reg, claimed, grants, touched } := by
  have hregistrar : s.registrar = some t := by
    rcases hpc with hpc | hpc
    · exact (h.stands t).holds reg (by rw [hpc]; rfl)
    · exact (h.stands t).holds reg (by rw [hpc]; rfl)
  obtain ⟨hnames, hprefixes⟩ := h.nodup_arriving hpc
  exact
    { claims := hclaims
      stands := h.stands_of_registrar rfl (.inr hregistrar) htouched
        (.of_inserting hregistrar rfl)
      free := fun hnone => by
        have hnone' : s.registrar = none := hnone
        rw [hregistrar] at hnone'
        cases hnone'
      names := hnames
      prefixes := hprefixes
      unchanged := h.unchanged }

theorem Inv.step {l : Label} (h : Inv s) (hstep : step upper s l = some s') : Inv s' := by
  cases l with
  | envMap t mapping =>
    simp only [EnvOwners.step] at hstep
    split at hstep
    · obtain rfl := Option.some.inj hstep
      exact (h.begin t).goTo (Function.update_self t false s.touched) rfl
    · cases hstep
  | checkGlobal t =>
    simp only [EnvOwners.step] at hstep
    split at hstep
    · next mapping hpc =>
      have huntouched : s.touched t = false := (h.stands t).untouched (by rw [hpc]; rfl)
      split at hstep
      · obtain rfl := Option.some.inj hstep
        exact h.fail huntouched _
      · obtain rfl := Option.some.inj hstep
        exact h.goTo huntouched rfl
    · cases hstep
  | writeGlobal t =>
    simp only [EnvOwners.step] at hstep
    split at hstep
    · next mapping hpc =>
      obtain rfl := Option.some.inj hstep
      exact
        { claims := claims_claim h.claims _ _
          stands := h.stands_of_same rfl rfl rfl rfl
            (fun _ hother => Function.update_of_ne hother _ _)
            (.of_outside rfl fun hidle => by cases hidle)
          free := h.free
          names := h.names
          prefixes := h.prefixes
          unchanged := h.unchanged }
    · cases hstep
  | registerNamespace t reg =>
    simp only [EnvOwners.step] at hstep
    split at hstep
    · have hbegun := h.begin t
      have huntouched : Function.update s.touched t false t = false := Function.update_self ..
      split_ifs at hstep
      · obtain rfl := Option.some.inj hstep
        exact hbegun.fail huntouched _
      · obtain rfl := Option.some.inj hstep
        exact hbegun.fail huntouched _
      · obtain rfl := Option.some.inj hstep
        exact hbegun.goTo huntouched rfl
    · cases hstep
  | lock t =>
    simp only [EnvOwners.step] at hstep
    split at hstep
    · next reg hpc hregistrar =>
      have huntouched : s.touched t = false := (h.stands t).untouched (by rw [hpc]; rfl)
      split_ifs at hstep with hname hprefix
      · obtain rfl := Option.some.inj hstep
        exact h.fail huntouched _
      · obtain rfl := Option.some.inj hstep
        exact h.fail huntouched _
      · obtain rfl := Option.some.inj hstep
        refine
          { claims := h.claims
            stands := h.stands_of_registrar rfl (.inl hregistrar) (fun _ _ => rfl) ?_
            free := fun hnone => by cases hnone
            names := h.names
            prefixes := h.prefixes
            unchanged := h.unchanged }
        exact
          { holds := fun _ _ => rfl
            fresh := fun reg' hreg' => by
              have hsame : reg = reg' := by
                rcases hreg' with hreg' | hreg'
                · exact Pc.checking.inj hreg'
                · cases hreg'
              subst hsame
              exact ⟨h.free hregistrar, hname, hprefix⟩
            arriving := fun _ hreg' => by cases hreg'
            untouched := fun _ => huntouched }
    · cases hstep
  | check t =>
    simp only [EnvOwners.step] at hstep
    split at hstep
    · next reg hpc =>
      have huntouched : s.touched t = false := (h.stands t).untouched (by rw [hpc]; rfl)
      have hregistrar : s.registrar = some t := (h.stands t).holds reg (by rw [hpc]; rfl)
      split at hstep
      · obtain rfl := Option.some.inj hstep
        exact h.arrive (.inl hpc) h.claims fun _ _ => rfl
      · split at hstep
        · obtain rfl := Option.some.inj hstep
          exact
            { claims := h.claims
              stands := h.stands_of_registrar rfl (.inr hregistrar) (fun _ _ => rfl)
                (.of_outside rfl fun hidle => by cases hidle)
              free := fun _ => h.arriving_eq_none (.inl hpc)
              names := h.names
              prefixes := h.prefixes
              unchanged := h.unchanged_fail huntouched _ }
        · obtain rfl := Option.some.inj hstep
          refine
            { claims := h.claims
              stands := h.stands_of_registrar rfl (.inr hregistrar) (fun _ _ => rfl) ?_
              free := h.free
              names := h.names
              prefixes := h.prefixes
              unchanged := h.unchanged }
          exact
            { holds := fun _ _ => hregistrar
              fresh := fun reg' hreg' => by
                have hsame : reg = reg' := by
                  rcases hreg' with hreg' | hreg'
                  · cases hreg'
                  · exact Pc.claiming.inj hreg'
                subst hsame
                exact (h.stands t).fresh reg (.inl hpc)
              arriving := fun _ hreg' => by cases hreg'
              untouched := fun _ => huntouched }
    · cases hstep
  | claim t =>
    simp only [EnvOwners.step] at hstep
    split at hstep
    · next reg hpc =>
      obtain rfl := Option.some.inj hstep
      exact h.arrive (.inr hpc) (claims_claim h.claims _ _)
        fun _ hother => Function.update_of_ne hother _ _
    · cases hstep
  | insert t =>
    simp only [EnvOwners.step] at hstep
    split at hstep
    · next reg hpc =>
      obtain rfl := Option.some.inj hstep
      have hregistrar : s.registrar = some t := (h.stands t).holds reg (by rw [hpc]; rfl)
      have hsame : (s.registry ++ [reg]) ++ (none : Option EnvRegistration).toList =
          s.registrations := by
        rw [State.registrations, (h.stands t).arriving reg hpc]
        exact List.append_nil _
      exact
        { claims := h.claims
          stands := h.stands_of_registrar rfl (.inr hregistrar)
            (fun _ hother => Function.update_of_ne hother _ _)
            (.of_outside rfl fun hidle => by cases hidle)
          free := fun _ => rfl
          names := by
            rw [State.registrations]
            exact hsame ▸ h.names
          prefixes := by
            rw [State.registrations]
            exact hsame ▸ h.prefixes
          unchanged := h.unchanged }
    · cases hstep

theorem Inv.init : Inv init where
  claims := fun _ => ⟨fun h => absurd rfl h, fun ⟨_, hvars, _⟩ => by cases hvars⟩
  stands := fun _ => .of_outside rfl fun hidle => by cases hidle
  free := fun _ => rfl
  names := List.nodup_nil
  prefixes := List.nodup_nil
  unchanged := fun _ hfailure => by cases hfailure

/-! ## The claims -/

/-- The part of the law that a call that is overtaken breaks. -/
structure Claims (s : State) : Prop where
  oneClaim : s.grants.Pairwise List.Disjoint
  agree : ∀ var owner, s.claimed var = some owner ↔ s.Owns owner var
  apart : ∀ reg ∈ s.registrations, ∀ var ∈ EnvRegistration.mapped reg, s.globalEnvMap var = none ∧
    ∀ other ∈ s.registrations, var ∈ EnvRegistration.mapped other → other = reg

theorem oneOwner_iff (h : Inv s) : OneOwner s ↔ Claims s :=
  ⟨fun hs => { oneClaim := hs.oneClaim, agree := hs.agree, apart := hs.apart },
    fun hs =>
      { oneClaim := hs.oneClaim, agree := hs.agree, apart := hs.apart, names := h.names,
        prefixes := h.prefixes, unchanged := h.unchanged }⟩

theorem Claims.claimed_of_mapped (h : Claims s) (hreg : reg ∈ s.registrations) {var : String}
    (hvar : var ∈ EnvRegistration.mapped reg) : s.claimed var = some reg.name :=
  (h.agree var reg.name).mpr (.inr ⟨reg, hreg, rfl, hvar⟩)

theorem Claims.global_eq_none (h : Claims s) {var : String} (hvar : s.claimed var = none) :
    s.globalEnvMap var = none := by
  by_contra hsome
  have hclaimed := (h.agree var "__global__").mpr (.inl ⟨rfl, Option.isSome_iff_ne_none.mpr hsome⟩)
  rw [hvar] at hclaimed
  cases hclaimed

/-- The tables are as they were. -/
theorem Claims.of_same (h : Claims s) (hclaimed : s'.claimed = s.claimed)
    (hglobal : s'.globalEnvMap = s.globalEnvMap) (hgrants : s'.grants = s.grants)
    (hregistrations : s'.registrations = s.registrations) : Claims s' where
  oneClaim := hgrants ▸ h.oneClaim
  agree := fun var owner => by
    rw [State.Owns, hclaimed, hglobal, hregistrations]
    exact h.agree var owner
  apart := by
    rw [hregistrations, hglobal]
    exact h.apart

/-- A registration without a map of its own. -/
theorem Claims.arrive (h : Claims s) (hclaimed : s'.claimed = s.claimed)
    (hglobal : s'.globalEnvMap = s.globalEnvMap) (hgrants : s'.grants = s.grants)
    (hregistrations : s'.registrations = s.registrations ++ [reg])
    (hnone : EnvRegistration.mapped reg = []) : Claims s' := by
  have hmem : ∀ {other : EnvRegistration} {var : String}, other ∈ s'.registrations →
      var ∈ EnvRegistration.mapped other → other ∈ s.registrations := by
    intro other var hother hvar
    rw [hregistrations] at hother
    rcases List.mem_append.mp hother with hother | hother
    · exact hother
    · rw [List.mem_singleton.mp hother, hnone] at hvar
      cases hvar
  refine { oneClaim := hgrants ▸ h.oneClaim, agree := fun var owner => ?_, apart := ?_ }
  · rw [State.Owns, hclaimed, hglobal, h.agree var owner]
    refine or_congr_right ⟨fun ⟨other, hother, hname, hvar⟩ => ?_, fun ⟨other, hother, hname, hvar⟩ => ?_⟩
    · refine ⟨other, ?_, hname, hvar⟩
      rw [hregistrations]
      exact List.mem_append_left _ hother
    · exact ⟨other, hmem hother hvar, hname, hvar⟩
  · intro other hother var hvar
    rw [hglobal]
    obtain ⟨hnone', honly⟩ := h.apart other (hmem hother hvar) var hvar
    exact ⟨hnone', fun third hthird hvar' => honly third (hmem hthird hvar') hvar'⟩

/-- The variables of a call that makes claims were free exactly when no earlier call has one of
them. -/
theorem oneClaim_iff (h : Inv s) (honce : s.grants.Pairwise List.Disjoint) (vars : List String) :
    (s.grants ++ [vars]).Pairwise List.Disjoint ↔ ∀ var ∈ vars, s.claimed var = none := by
  rw [List.pairwise_append]
  constructor
  · rintro ⟨-, -, hdisjoint⟩ var hvar
    by_contra hclaimed
    obtain ⟨vars', hvars', hmem⟩ := (h.claims var).mp hclaimed
    exact hdisjoint vars' hvars' vars List.mem_cons_self hmem hvar
  · intro hfree
    refine ⟨honce, List.pairwise_singleton _ _, fun vars' hvars' other hother var hvar hvar' => ?_⟩
    rw [List.mem_singleton.mp hother] at hvar'
    exact (h.claims var).mpr ⟨vars', hvars', hvar⟩ (hfree var hvar')

theorem get?_isSome_iff {mapping : List (String × String)} {var : String} :
    (Fields.get? mapping var).isSome ↔ var ∈ mappedVars mapping := by
  rw [Fields.get?, Option.isSome_map, List.find?_isSome, mappedVars, List.mem_map]
  exact exists_congr fun entry => and_congr_right fun _ => beq_iff_eq

/-- `env_map` makes its claims. -/
theorem Claims.writeGlobal_iff (hinv : Inv s) (h : Claims s) {mapping : List (String × String)}
    (hclaimed : s'.claimed =
      fun var => if var ∈ mappedVars mapping then some "__global__" else s.claimed var)
    (hglobal : s'.globalEnvMap = fun var => (Fields.get? mapping var).or (s.globalEnvMap var))
    (hgrants : s'.grants = s.grants ++ [mappedVars mapping])
    (hregistrations : s'.registrations = s.registrations) :
    Claims s' ↔ ∀ var ∈ mappedVars mapping, s.claimed var = none := by
  constructor
  · intro hs'
    have honce := hs'.oneClaim
    rw [hgrants] at honce
    exact (oneClaim_iff hinv h.oneClaim _).mp honce
  · intro hfree
    have hother : ∀ var, var ∉ mappedVars mapping → s'.globalEnvMap var = s.globalEnvMap var := by
      intro var hvar
      rw [hglobal]
      have hnone : Fields.get? mapping var = none := by
        rw [← Option.not_isSome_iff_eq_none, get?_isSome_iff]
        exact hvar
      simp only [hnone, Option.none_or]
    refine { oneClaim := ?_, agree := fun var owner => ?_, apart := fun reg hreg var hvar => ?_ }
    · rw [hgrants]
      exact (oneClaim_iff hinv h.oneClaim _).mpr hfree
    · by_cases hvar : var ∈ mappedVars mapping
      · have hnow : s'.claimed var = some "__global__" := by
          rw [hclaimed]
          exact if_pos hvar
        rw [hnow, State.Owns, hregistrations]
        constructor
        · intro howner
          refine .inl ⟨(Option.some.inj howner).symm, ?_⟩
          rw [hglobal]
          obtain ⟨key, hkey⟩ := Option.isSome_iff_exists.mp (get?_isSome_iff.mpr hvar)
          simp only [hkey, Option.some_or, Option.isSome_some]
        · rintro (⟨rfl, -⟩ | ⟨reg, hreg, -, hmapped⟩)
          · rfl
          · have hold := h.claimed_of_mapped hreg hmapped
            rw [hfree var hvar] at hold
            cases hold
      · have hsame : s'.claimed var = s.claimed var := by
          rw [hclaimed]
          exact if_neg hvar
        rw [hsame, State.Owns, hregistrations, hother var hvar]
        exact h.agree var owner
    · rw [hregistrations] at hreg
      have hold := h.claimed_of_mapped hreg hvar
      have hnot : var ∉ mappedVars mapping := by
        intro hmem
        rw [hfree var hmem] at hold
        cases hold
      rw [hother var hnot, hregistrations]
      exact h.apart reg hreg var hvar

/-- `register_namespace` makes its claims. -/
theorem Claims.claim_iff (hinv : Inv s) (h : Claims s)
    (hclaimed : s'.claimed =
      fun var => if var ∈ EnvRegistration.mapped reg then some reg.name else s.claimed var)
    (hglobal : s'.globalEnvMap = s.globalEnvMap)
    (hgrants : s'.grants = s.grants ++ [EnvRegistration.mapped reg])
    (hregistrations : s'.registrations = s.registrations ++ [reg]) :
    Claims s' ↔ ∀ var ∈ EnvRegistration.mapped reg, s.claimed var = none := by
  constructor
  · intro hs'
    have honce := hs'.oneClaim
    rw [hgrants] at honce
    exact (oneClaim_iff hinv h.oneClaim _).mp honce
  · intro hfree
    have hnobody : ∀ other ∈ s.registrations, ∀ var ∈ EnvRegistration.mapped reg,
        var ∉ EnvRegistration.mapped other := by
      intro other hother var hvar hmapped
      have hold := h.claimed_of_mapped hother hmapped
      rw [hfree var hvar] at hold
      cases hold
    have hmem : ∀ other, other ∈ s'.registrations ↔ other ∈ s.registrations ∨ other = reg := by
      intro other
      rw [hregistrations, List.mem_append, List.mem_singleton]
    refine { oneClaim := ?_, agree := fun var owner => ?_, apart := fun other hother var hvar => ?_ }
    · rw [hgrants]
      exact (oneClaim_iff hinv h.oneClaim _).mpr hfree
    · by_cases hvar : var ∈ EnvRegistration.mapped reg
      · have hnow : s'.claimed var = some reg.name := by
          rw [hclaimed]
          exact if_pos hvar
        rw [hnow, State.Owns, hglobal]
        constructor
        · intro howner
          exact .inr ⟨reg, (hmem reg).mpr (.inr rfl), Option.some.inj howner, hvar⟩
        · rintro (⟨-, hsome⟩ | ⟨other, hother, hname, hmapped⟩)
          · rw [h.global_eq_none (hfree var hvar)] at hsome
            cases hsome
          · rcases (hmem other).mp hother with hother | rfl
            · exact absurd hmapped (hnobody other hother var hvar)
            · rw [hname]
      · have hsame : s'.claimed var = s.claimed var := by
          rw [hclaimed]
          exact if_neg hvar
        rw [hsame, State.Owns, hglobal, h.agree var owner]
        refine or_congr_right
          ⟨fun ⟨other, hother, hname, hmapped⟩ => ?_, fun ⟨other, hother, hname, hmapped⟩ => ?_⟩
        · exact ⟨other, (hmem other).mpr (.inl hother), hname, hmapped⟩
        · rcases (hmem other).mp hother with hother | rfl
          · exact ⟨other, hother, hname, hmapped⟩
          · exact absurd hmapped hvar
    · rw [hglobal]
      rcases (hmem other).mp hother with hother | rfl
      · obtain ⟨hnone, honly⟩ := h.apart other hother var hvar
        refine ⟨hnone, fun third hthird hmapped => ?_⟩
        rcases (hmem third).mp hthird with hthird | rfl
        · exact honly third hthird hmapped
        · exact absurd hvar (hnobody other hother var hmapped)
      · refine ⟨h.global_eq_none (hfree var hvar), fun third hthird hmapped => ?_⟩
        rcases (hmem third).mp hthird with hthird | rfl
        · exact absurd hmapped (hnobody third hthird var hvar)
        · rfl

theorem Inv.registrations_arriving (h : Inv s)
    (hpc : s.pc t = .checking reg ∨ s.pc t = .claiming reg) :
    s.registry ++ (some reg).toList = s.registrations ++ [reg] := by
  rw [State.registrations, h.arriving_eq_none hpc]
  exact congrArg (· ++ [reg]) (List.append_nil s.registry).symm

/-- A step keeps one owner exactly when its call has not been overtaken. -/
theorem claims_step_iff {l : Label} (hinv : Inv s) (h : Claims s)
    (hstep : EnvOwners.step upper s l = some s') : ¬ Overtaken s l ↔ Claims s' := by
  cases l with
  | envMap t mapping =>
    simp only [EnvOwners.step] at hstep
    split at hstep
    · obtain rfl := Option.some.inj hstep
      exact iff_of_true id (h.of_same rfl rfl rfl rfl)
    · cases hstep
  | checkGlobal t =>
    simp only [EnvOwners.step] at hstep
    split at hstep
    · split at hstep
      · obtain rfl := Option.some.inj hstep
        exact iff_of_true id (h.of_same rfl rfl rfl rfl)
      · obtain rfl := Option.some.inj hstep
        exact iff_of_true id (h.of_same rfl rfl rfl rfl)
    · cases hstep
  | writeGlobal t =>
    simp only [EnvOwners.step] at hstep
    split at hstep
    · next mapping hpc =>
      obtain rfl := Option.some.inj hstep
      suffices hfree : ¬ Overtaken s (.writeGlobal t) ↔
          ∀ var ∈ mappedVars mapping, s.claimed var = none by
        refine hfree.trans (Iff.symm ?_)
        exact h.writeGlobal_iff hinv rfl rfl rfl rfl
      rw [Overtaken, hpc]
      constructor
      · intro hnot var hvar
        by_contra hclaimed
        exact hnot ⟨mapping, rfl, var, hvar, hclaimed⟩
      · rintro hfree ⟨mapping', hsame, var, hvar, hclaimed⟩
        obtain rfl := Pc.writingGlobal.inj hsame
        exact hclaimed (hfree var hvar)
    · cases hstep
  | registerNamespace t reg =>
    simp only [EnvOwners.step] at hstep
    split at hstep
    · split_ifs at hstep
      · obtain rfl := Option.some.inj hstep
        exact iff_of_true id (h.of_same rfl rfl rfl rfl)
      · obtain rfl := Option.some.inj hstep
        exact iff_of_true id (h.of_same rfl rfl rfl rfl)
      · obtain rfl := Option.some.inj hstep
        exact iff_of_true id (h.of_same rfl rfl rfl rfl)
    · cases hstep
  | lock t =>
    simp only [EnvOwners.step] at hstep
    split at hstep
    · split_ifs at hstep
      · obtain rfl := Option.some.inj hstep
        exact iff_of_true id (h.of_same rfl rfl rfl rfl)
      · obtain rfl := Option.some.inj hstep
        exact iff_of_true id (h.of_same rfl rfl rfl rfl)
      · obtain rfl := Option.some.inj hstep
        exact iff_of_true id (h.of_same rfl rfl rfl rfl)
    · cases hstep
  | check t =>
    simp only [EnvOwners.step] at hstep
    split at hstep
    · next reg hpc =>
      split at hstep
      · next hmap =>
        obtain rfl := Option.some.inj hstep
        refine iff_of_true id (Claims.arrive h rfl rfl rfl (?_ : _ = _ ++ [reg]) ?_)
        · exact hinv.registrations_arriving (.inl hpc)
        · rw [EnvRegistration.mapped, hmap]
          rfl
      · split at hstep
        · obtain rfl := Option.some.inj hstep
          exact iff_of_true id (h.of_same rfl rfl rfl rfl)
        · obtain rfl := Option.some.inj hstep
          exact iff_of_true id (h.of_same rfl rfl rfl rfl)
    · cases hstep
  | claim t =>
    simp only [EnvOwners.step] at hstep
    split at hstep
    · next reg hpc =>
      obtain rfl := Option.some.inj hstep
      suffices hfree : ¬ Overtaken s (.claim t) ↔
          ∀ var ∈ EnvRegistration.mapped reg, s.claimed var = none by
        refine hfree.trans (Iff.symm ?_)
        exact h.claim_iff hinv rfl rfl rfl (hinv.registrations_arriving (.inr hpc))
      rw [Overtaken, hpc]
      constructor
      · intro hnot var hvar
        by_contra hclaimed
        exact hnot ⟨reg, rfl, var, hvar, hclaimed⟩
      · rintro hfree ⟨reg', hsame, var, hvar, hclaimed⟩
        obtain rfl := Pc.claiming.inj hsame
        exact hclaimed (hfree var hvar)
    · cases hstep
  | insert t =>
    simp only [EnvOwners.step] at hstep
    split at hstep
    · next reg hpc =>
      obtain rfl := Option.some.inj hstep
      refine iff_of_true id (h.of_same rfl rfl rfl ?_)
      show (s.registry ++ [reg]) ++ (none : Option EnvRegistration).toList = s.registrations
      rw [State.registrations, (hinv.stands t).arriving reg hpc]
      exact List.append_nil _
    · cases hstep

/-- **Every variable has one owner in all the states of a run exactly when no call of the run is
overtaken** between its look at the claims and its own claim. -/
theorem oneOwner_iff_of_run {ls : List Label} (hrun : exec (EnvOwners.step upper) init ls = some s) :
    Along (EnvOwners.step upper) (fun s l => ¬ Overtaken s l) init ls ↔
      ∀ ls' m, ls' <+: ls → exec (EnvOwners.step upper) init ls' = some m → OneOwner m := by
  have hinit : OneOwner init :=
    { oneClaim := List.Pairwise.nil
      agree := fun var owner => by
        refine iff_of_false (fun h => by cases h) ?_
        rintro (⟨-, hsome⟩ | ⟨reg, hreg, -⟩)
        · cases hsome
        · cases hreg
      apart := fun reg hreg => by cases hreg
      names := List.nodup_nil
      prefixes := List.nodup_nil
      unchanged := fun failure hfailure => by cases hfailure }
  refine along_iff_forall_prefix (I := Inv) (fun s l s' hinv h hstep => ?_) Inv.init hinit hrun
  refine ⟨hinv.step hstep, ?_⟩
  rw [oneOwner_iff (hinv.step hstep)]
  exact claims_step_iff hinv ((oneOwner_iff hinv).mp h) hstep

/-! ## Two calls for one variable -/

/-- Two threads map the same variable. -/
def twoMaps : List Label :=
  [.envMap 0 [("REDIS_URL", "cache_url")], .envMap 1 [("REDIS_URL", "queue_url")],
    .checkGlobal 0, .checkGlobal 1, .writeGlobal 0, .writeGlobal 1]

/-- Both succeed. -/
theorem twoMaps_bothClaim : ¬ ∀ (upper : String → String) (ls : List Label) (s : State),
    exec (EnvOwners.step upper) init ls = some s → OneOwner s := by
  intro h
  obtain ⟨s, hs, hgrants⟩ : ∃ s, exec (EnvOwners.step id) init twoMaps = some s ∧
      s.grants = [["REDIS_URL"], ["REDIS_URL"]] := ⟨_, rfl, rfl⟩
  have honce := (h id twoMaps s hs).oneClaim
  rw [hgrants] at honce
  exact (List.pairwise_cons.mp honce).1 _ List.mem_cons_self List.mem_cons_self List.mem_cons_self

theorem oneOwner_iff_twoMaps : ∃ s, exec (EnvOwners.step id) init twoMaps = some s ∧
    (Along (EnvOwners.step id) (fun s l => ¬ Overtaken s l) init twoMaps ↔
      ∀ ls' m, ls' <+: twoMaps → exec (EnvOwners.step id) init ls' = some m → OneOwner m) := by
  obtain ⟨s, hs⟩ : ∃ s, exec (EnvOwners.step id) init twoMaps = some s := ⟨_, rfl⟩
  exact ⟨s, hs, oneOwner_iff_of_run hs⟩

end EnvOwners

end Apcore
