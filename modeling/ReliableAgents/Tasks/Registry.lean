import ReliableAgents.Common.Protocol
import ReliableAgents.Machine.Imports
import Mathlib.Data.List.AList

/-!
# The task registry

`common/registry.py` and the package `tasks/`: what the decorators of a module do when it
is imported, what `discover` imports, and the dictionary that `tasks/registry.py` exports.
-/

namespace ReliableAgents

/-- A task with the name that `Registry.add` compares. -/
structure NamedTaskDef extends TaskDef where
  name : String
deriving DecidableEq, Repr

abbrev Registry := AList fun _ : Int => NamedTaskDef

/-- `Registry.add`, which raises on another name under a registered id. -/
def Registry.add (registry : Registry) (td : NamedTaskDef) : Option Registry :=
  match registry.lookup td.id with
  | none => some (registry.insert td.id td)
  | some existing => if existing.name = td.name then some (registry.insert td.id td) else none

def Registry.merge (registry other : Registry) : Option Registry :=
  other.entries.foldlM (fun r e => Registry.add r e.2) registry

/-- `registry.get`, as `run_task` asks for it. -/
def Registry.resolve (registry : Registry) (taskDefId : Int) : Option TaskDef :=
  (registry.lookup taskDefId).map NamedTaskDef.toTaskDef

/-- What the body of a module under `tasks/` does besides importing. -/
inductive TaskStatement where
  /-- `@task(id, name, side_effecting=…)`. -/
  | task (td : NamedTaskDef)
  /-- `TASK_DEFS = registry.as_dict()`. -/
  | exportTaskDefs
deriving DecidableEq, Repr

/-- The singleton `registry` of a process, and the `TASK_DEFS` of its modules. -/
structure TaskState where
  registry : Registry := ∅
  taskDefs : AList fun _ : String => Registry := ∅

def runStatement (here : String) : TaskStatement → TaskState → Option TaskState
  | .task td, state => (state.registry.add td).map fun registry => { state with registry }
  | .exportTaskDefs, state =>
      some { state with taskDefs := state.taskDefs.insert here state.registry }

abbrev TaskModule := Imports.Module TaskStatement
abbrev TaskProcess := Imports.Interpreter TaskState

/-! ## The package -/

/-- The tasks of `tasks/registry.py`. -/
def libraryDefs : List NamedTaskDef :=
  [⟨⟨1, false⟩, "parse-request"⟩, ⟨⟨2, false⟩, "classify-severity"⟩,
    ⟨⟨3, false⟩, "extract-entities"⟩, ⟨⟨10, false⟩, "search-logs"⟩,
    ⟨⟨11, false⟩, "query-metrics"⟩, ⟨⟨12, false⟩, "check-deploys"⟩,
    ⟨⟨13, false⟩, "scan-codebase"⟩, ⟨⟨14, false⟩, "run-diagnostics"⟩,
    ⟨⟨15, false⟩, "fetch-status-page"⟩, ⟨⟨16, false⟩, "read-jira"⟩,
    ⟨⟨20, false⟩, "correlate-signals"⟩, ⟨⟨21, false⟩, "root-cause-analysis"⟩,
    ⟨⟨22, false⟩, "assess-blast-radius"⟩, ⟨⟨23, false⟩, "rank-hypotheses"⟩,
    ⟨⟨30, false⟩, "draft-summary"⟩, ⟨⟨31, false⟩, "recommend-remediation"⟩,
    ⟨⟨32, false⟩, "estimate-risk"⟩, ⟨⟨40, true⟩, "create-jira-ticket"⟩,
    ⟨⟨41, true⟩, "notify-slack"⟩, ⟨⟨42, true⟩, "page-oncall"⟩,
    ⟨⟨43, true⟩, "post-status-update"⟩, ⟨⟨50, false⟩, "verify-resolution"⟩,
    ⟨⟨51, false⟩, "write-postmortem"⟩]

def registryModule : TaskModule where
  name := "registry"
  body :=
    .importModule "tools" ::
      (libraryDefs.map fun td => .run (.task td)) ++ [.run .exportTaskDefs]

def toolsModule : TaskModule where
  name := "tools"
  body := []

/-- A package `tasks/`: its modules in the order of the directory, with the two of the
repository among them. Every import finds its file, and no id is registered under two names. -/
structure TasksDir where
  modules : List TaskModule
  named : (modules.map Imports.Module.name).Nodup
  library : registryModule ∈ modules
  tools : toolsModule ∈ modules
  importable : Imports.Resolves modules
  compatible : ∀ n n' td td', .run (.task td) ∈ Imports.bodyOf modules n →
    .run (.task td') ∈ Imports.bodyOf modules n' → td.id = td'.id → td.name = td'.name

namespace TasksDir

/-- `import tasks.<name>`. -/
def importModule (dir : TasksDir) (name : String) (s : TaskProcess) : TaskProcess × Bool :=
  Imports.importModule dir.modules runStatement (dir.modules.length + 1) name s

/-- The modules that `discover` imports, which are not those named with an underscore. -/
def discovered (dir : TasksDir) : List String :=
  (dir.modules.map Imports.Module.name).filter fun name => name.toList.head? ≠ some '_'

def fresh : TaskProcess := { state := {} }

/-- `discover`. A submodule of that name is the package's attribute `TASK_DEFS`, and has no
`values()` to merge. -/
def discover (dir : TasksDir) : Option Registry :=
  let s := Imports.importEach dir.importModule dir.discovered fresh
  if "TASK_DEFS" ∈ s.loaded then none
  else
    match dir.importModule "registry" s with
    | (_, false) => none
    | (s', true) =>
        match s'.state.taskDefs.lookup "registry" with
        | none => some s'.state.registry
        | some legacy => s'.state.registry.merge legacy

/-- `tasks.registry.TASK_DEFS` in a process that imports these modules at its start. -/
def taskDefs (dir : TasksDir) (imports : List String) : Option Registry :=
  (imports.foldlM (fun s name =>
    match dir.importModule name s with
    | (s', true) => some s'
    | (_, false) => none) fresh).bind fun s => s.state.taskDefs.lookup "registry"

/-- `TASK_DEFS` of `api/main.py`. -/
def apiTaskDefs (dir : TasksDir) : Option Registry := dir.taskDefs ["registry", "tools"]

/-- `TASK_DEFS` of `chaos/harness.py`. -/
def cliTaskDefs (dir : TasksDir) : Option Registry := dir.taskDefs ["tools", "registry"]

end TasksDir

/-! ## Adding and merging -/

namespace Registry

variable {registry registry' : Registry} {td : NamedTaskDef}

theorem add_eq (h : registry.add td = some registry') : registry' = registry.insert td.id td := by
  unfold add at h
  split at h
  · exact (Option.some.inj h).symm
  · split at h
    · exact (Option.some.inj h).symm
    · cases h

theorem add_of_compatible
    (h : ∀ existing, registry.lookup td.id = some existing → existing.name = td.name) :
    registry.add td = some (registry.insert td.id td) := by
  unfold add
  cases hlookup : registry.lookup td.id with
  | none => rfl
  | some existing => exact if_pos (h existing hlookup)

theorem mem_insert {id : Int} : id ∈ registry.insert td.id td ↔ id = td.id ∨ id ∈ registry :=
  AList.mem_insert registry

/-- Every entry is under its own id and satisfies `P`. -/
def All (P : NamedTaskDef → Prop) (registry : Registry) : Prop :=
  ∀ id td, registry.lookup id = some td → td.id = id ∧ P td

variable {P : NamedTaskDef → Prop}

theorem All.empty : All P ∅ := by
  intro id td h
  rw [AList.lookup_empty] at h
  cases h

theorem All.insert (h : registry.All P) (htd : P td) : All P (registry.insert td.id td) := by
  intro id found hfound
  by_cases hid : id = td.id
  · rw [hid, AList.lookup_insert, Option.some.injEq] at hfound
    rw [← hfound, hid]
    exact ⟨rfl, htd⟩
  · rw [AList.lookup_insert_ne hid] at hfound
    exact h id found hfound

/-- Merging entries that agree with what is registered changes no id. -/
theorem merge_known {other : Registry} (hall : registry.All P) (hother : other.All P)
    (hcompatible : ∀ td td', P td → P td' → td.id = td'.id → td.name = td'.name)
    (hknown : ∀ id ∈ other, id ∈ registry) :
    ∃ merged, registry.merge other = some merged ∧ ∀ id, id ∈ merged ↔ id ∈ registry := by
  have hentries : ∀ e ∈ other.entries, P e.2 ∧ e.2.id ∈ registry := by
    intro e he
    have hlookup := AList.mem_lookup_iff.2 he
    obtain ⟨hid, hP⟩ := hother e.1 e.2 hlookup
    refine ⟨hP, ?_⟩
    rw [hid]
    exact hknown e.1 (AList.lookup_isSome.1 (Option.isSome_of_mem hlookup))
  unfold merge
  generalize other.entries = entries at hentries
  induction entries generalizing registry with
  | nil => exact ⟨registry, rfl, fun _ => .rfl⟩
  | cons e rest ih =>
      obtain ⟨hP, hmem⟩ := hentries e List.mem_cons_self
      have hadd : registry.add e.2 = some (registry.insert e.2.id e.2) := by
        refine add_of_compatible fun existing hexisting => ?_
        obtain ⟨hid, hPexisting⟩ := hall e.2.id existing hexisting
        exact hcompatible existing e.2 hPexisting hP hid
      have hsame : ∀ id, id ∈ registry.insert e.2.id e.2 ↔ id ∈ registry := by
        intro id
        rw [mem_insert]
        constructor
        · rintro (rfl | hid)
          · exact hmem
          · exact hid
        · exact .inr
      have hknown' : ∀ id ∈ other, id ∈ registry.insert e.2.id e.2 :=
        fun id hid => (hsame id).2 (hknown id hid)
      have hrest : ∀ e' ∈ rest, P e'.2 ∧ e'.2.id ∈ registry.insert e.2.id e.2 := by
        intro e' he'
        obtain ⟨hP', hmem'⟩ := hentries e' (List.mem_cons_of_mem _ he')
        exact ⟨hP', (hsame e'.2.id).2 hmem'⟩
      obtain ⟨merged, hmerged, hkeys⟩ := ih (hall.insert hP) hknown' hrest
      refine ⟨merged, ?_, fun id => (hkeys id).trans (hsame id)⟩
      rw [List.foldlM_cons, hadd]
      exact hmerged

end Registry

/-! ## The registry of a worker -/

namespace TasksDir

variable {dir : TasksDir}

def Registers (dir : TasksDir) (td : NamedTaskDef) : Prop :=
  ∃ n, .run (.task td) ∈ Imports.bodyOf dir.modules n

def Loads (dir : TasksDir) (n : String) : Prop := Imports.Reaches dir.modules dir.discovered n

/-- What holds of a process whatever it has imported. -/
structure Sound (dir : TasksDir) (state : TaskState) : Prop where
  registered : state.registry.All dir.Registers
  exported : ∀ n r, state.taskDefs.lookup n = some r →
    r.All dir.Registers ∧ ∀ id ∈ r, id ∈ state.registry

theorem sound_fresh (dir : TasksDir) : dir.Sound fresh.state where
  registered := .empty
  exported := by
    intro n r h
    rw [show fresh.state.taskDefs = ∅ from rfl, AList.lookup_empty] at h
    cases h

theorem compatible_registers (dir : TasksDir) (td td' : NamedTaskDef) (h : dir.Registers td)
    (h' : dir.Registers td') (hid : td.id = td'.id) : td.name = td'.name := by
  obtain ⟨n, hn⟩ := h
  obtain ⟨n', hn'⟩ := h'
  exact dir.compatible n n' td td' hn hn' hid

/-- No statement of the package raises. -/
theorem safe (dir : TasksDir) : Imports.Safe dir.modules runStatement dir.Sound := by
  intro n stmt state hstmt hsound
  cases stmt with
  | task td =>
      have htd : dir.Registers td := ⟨n, hstmt⟩
      have hadd : state.registry.add td = some (state.registry.insert td.id td) := by
        refine Registry.add_of_compatible fun existing hexisting => ?_
        obtain ⟨hid, hregisters⟩ := hsound.registered td.id existing hexisting
        exact dir.compatible_registers existing td hregisters htd hid
      refine ⟨{ state with registry := state.registry.insert td.id td }, ?_, ?_, ?_⟩
      · rw [runStatement, hadd]
        rfl
      · exact hsound.registered.insert htd
      · intro m r hr
        obtain ⟨hall, hkeys⟩ := hsound.exported m r hr
        exact ⟨hall, fun id hid => Registry.mem_insert.2 (.inr (hkeys id hid))⟩
  | exportTaskDefs =>
      refine ⟨_, rfl, hsound.registered, ?_⟩
      intro m r hr
      by_cases hm : m = n
      · rw [hm, AList.lookup_insert, Option.some.injEq] at hr
        rw [← hr]
        exact ⟨hsound.registered, fun _ hid => hid⟩
      · rw [AList.lookup_insert_ne hm] at hr
        exact hsound.exported m r hr

/-- The ids of a registry after a sequence of statements. -/
theorem registry_of_trace {trace : List (String × TaskStatement)} {state state' : TaskState}
    (h : trace.foldlM (fun state e => runStatement e.1 e.2 state) state = some state') (id : Int) :
    id ∈ state'.registry ↔
      id ∈ state.registry ∨ ∃ n td, (n, TaskStatement.task td) ∈ trace ∧ td.id = id := by
  induction trace generalizing state with
  | nil =>
      cases h
      simp
  | cons e rest ih =>
      rw [List.foldlM_cons, Option.bind_eq_bind, Option.bind_eq_some_iff] at h
      obtain ⟨mid, hmid, hrest⟩ := h
      rw [ih hrest]
      obtain ⟨n, stmt⟩ := e
      cases stmt with
      | task td =>
          rw [runStatement, Option.map_eq_some_iff] at hmid
          obtain ⟨registry, hadd, rfl⟩ := hmid
          rw [Registry.add_eq hadd, Registry.mem_insert]
          simp only [List.mem_cons, Prod.mk.injEq, TaskStatement.task.injEq]
          constructor
          · rintro ((rfl | hid) | ⟨m, td', hmem, hid⟩)
            · exact .inr ⟨n, td, .inl ⟨rfl, rfl⟩, rfl⟩
            · exact .inl hid
            · exact .inr ⟨m, td', .inr hmem, hid⟩
          · rintro (hid | ⟨m, td', ⟨rfl, rfl⟩ | hmem, hid⟩)
            · exact .inl (.inr hid)
            · exact .inl (.inl hid.symm)
            · exact .inr ⟨m, td', hmem, hid⟩
      | exportTaskDefs =>
          cases hmid
          simp

end TasksDir

end ReliableAgents
