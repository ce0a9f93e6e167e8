import ReliableAgents.Tasks.Registry
import ReliableAgents.Deployment

/-!
# Submission and execution

The API and the command line check a plan against the dictionary that `tasks/registry.py`
copied when they imported it. Workers resolve a task in the registry that `discover` fills
from every module of the package.
-/

namespace ReliableAgents

/-! ## The command line -/

/-- The table `pipelines`: a plan and a description under each name. -/
abbrev Pipelines := AList fun _ : String => List Int × String

inductive CliError where
  | unknownTaskIds (ids : List Int)
  | noPipeline (name : String)
deriving DecidableEq, Repr

def createPipeline (taskDefs : List Int) (name : String) (plan : List Int) (description : String)
    (pipelines : Pipelines) : Except CliError Pipelines :=
  let unknown := plan.filter fun tid => tid ∉ taskDefs
  if unknown ≠ [] then .error (.unknownTaskIds unknown)
  else .ok (pipelines.insert name (plan, description))

/-- `resolve_plan`, with the ids that an inline `plan` was parsed to. -/
def resolvePlan (taskDefs : List Int) (pipelines : Pipelines) (pipeline : Option String)
    (plan : Option (List Int)) : Except CliError (List Int × String) :=
  match plan with
  | some ids =>
      let unknown := ids.filter fun tid => tid ∉ taskDefs
      if unknown ≠ [] then .error (.unknownTaskIds unknown) else .ok (ids, "(inline)")
  | none =>
      let name := pipeline.getD "investigation"
      match pipelines.lookup name with
      | none => .error (.noPipeline name)
      | some stored => .ok (stored.1, name)

/-! ## What a worker knows -/

namespace TasksDir

variable {dir : TasksDir}

theorem mem_discovered {name : String} (hname : name ∈ dir.modules.map Imports.Module.name)
    (hplain : name.toList.head? ≠ some '_') : name ∈ dir.discovered :=
  List.mem_filter.2 ⟨hname, decide_eq_true hplain⟩

theorem discovers (dir : TasksDir) :
    ∃ s : TaskProcess, Imports.importEach dir.importModule dir.discovered fresh = s ∧
      dir.Sound s.state ∧ (∀ n, n ∈ s.loaded ↔ dir.Loads n) ∧ ∀ id, id ∈ s.state.registry ↔
        ∃ n td, dir.Loads n ∧ .run (.task td) ∈ Imports.bodyOf dir.modules n ∧ td.id = id := by
  have hfound : ∀ name ∈ dir.discovered,
      (Imports.find dir.modules name).isSome ∧ name ∈ dir.discovered :=
    fun name hname => ⟨Imports.find_isSome (List.mem_of_mem_filter hname), hname⟩
  obtain ⟨hsound, hnames, hextends⟩ := Imports.importEach_imported dir.importable dir.safe
    (Nat.lt_succ_self dir.modules.length) dir.discovered hfound fresh (sound_fresh dir)
  have hloaded := (hextends "").loaded_iff rfl hnames
  refine ⟨_, rfl, hsound, hloaded, fun id => ?_⟩
  obtain ⟨trace, hfold, hmem⟩ := (hextends "").ran
  have hempty : id ∉ fresh.state.registry := AList.notMem_empty id
  refine (registry_of_trace hfold id).trans ?_
  simp only [hempty, false_or, hmem, List.not_mem_nil, and_false, hloaded]
  simp [fresh, Loads, and_assoc]

theorem registry_loads (dir : TasksDir) : dir.Loads "registry" := by
  refine ⟨"registry", mem_discovered (List.mem_map.2 ⟨_, dir.library, rfl⟩) ?_, .refl⟩
  decide

theorem library_registers (dir : TasksDir) {td : NamedTaskDef} (htd : td ∈ libraryDefs) :
    .run (.task td) ∈ Imports.bodyOf dir.modules "registry" := by
  have hfind : Imports.find dir.modules "registry" = some registryModule :=
    Imports.find_of_mem dir.named dir.library
  rw [Imports.bodyOf_of_find hfind]
  refine List.mem_cons_of_mem _ (List.mem_append_left _ ?_)
  exact List.mem_map.2 ⟨td, htd, rfl⟩

/-- The ids of a worker are those registered by the modules it loads. -/
theorem discover_spec (dir : TasksDir) (hplain : ¬ dir.Loads "TASK_DEFS") :
    ∃ worker, dir.discover = some worker ∧ ∀ id, id ∈ worker ↔
      ∃ n td, dir.Loads n ∧ .run (.task td) ∈ Imports.bodyOf dir.modules n ∧ td.id = id := by
  obtain ⟨s, himports, hsound, hloaded, hkeys⟩ := dir.discovers
  have hregistry : dir.importModule "registry" s = (s, true) :=
    Imports.importModule_of_loaded ((hloaded "registry").2 dir.registry_loads)
  have hnot : "TASK_DEFS" ∉ s.loaded := fun h => hplain ((hloaded "TASK_DEFS").1 h)
  unfold discover
  rw [himports]
  dsimp only
  rw [if_neg hnot, hregistry]
  dsimp only
  cases hlegacy : s.state.taskDefs.lookup "registry" with
  | none => exact ⟨s.state.registry, rfl, hkeys⟩
  | some legacy =>
      obtain ⟨hall, hknown⟩ := hsound.exported "registry" legacy hlegacy
      obtain ⟨merged, hmerged, hsame⟩ := Registry.merge_known hsound.registered hall
        dir.compatible_registers hknown
      exact ⟨merged, hmerged, fun id => (hsame id).trans (hkeys id)⟩

/-- A module of this name stands in the place of the legacy dictionary. -/
theorem discover_eq_none (h : dir.Loads "TASK_DEFS") : dir.discover = none := by
  obtain ⟨s, himports, -, hloaded, -⟩ := dir.discovers
  unfold discover
  rw [himports]
  exact if_pos ((hloaded "TASK_DEFS").2 h)

/-! ## What submission knows -/

def registered (defs : List NamedTaskDef) (registry : Registry) : Registry :=
  defs.foldl (fun r td => r.insert td.id td) registry

/-- What `TASK_DEFS` of `tasks/registry.py` holds if nothing was registered before it. -/
def libraryRegistry : Registry := registered libraryDefs ∅

def libraryState : TaskState where
  registry := libraryRegistry
  taskDefs := (∅ : AList fun _ : String => Registry).insert "registry" libraryRegistry

theorem mem_registered {defs : List NamedTaskDef} {registry : Registry} {tid : Int} :
    tid ∈ registered defs registry ↔ (∃ td ∈ defs, td.id = tid) ∨ tid ∈ registry := by
  induction defs generalizing registry with
  | nil => simp [registered]
  | cons td rest ih =>
      refine ih.trans ?_
      rw [Registry.mem_insert, @eq_comm _ tid td.id]
      simp only [List.mem_cons, exists_eq_or_imp]
      rw [or_left_comm, ← or_assoc]

theorem mem_libraryRegistry {tid : Int} :
    tid ∈ libraryRegistry ↔ ∃ td ∈ libraryDefs, td.id = tid := by
  rw [libraryRegistry, mem_registered]
  exact or_iff_left (AList.notMem_empty tid)

theorem run_tasks (importing : String → TaskProcess → TaskProcess × Bool) (here : String)
    (defs : List NamedTaskDef) (rest : List (Imports.Statement TaskStatement)) (s : TaskProcess)
    (hids : (defs.map fun td => td.id).Nodup) (hnew : ∀ td ∈ defs, td.id ∉ s.state.registry) :
    Imports.runBody (Imports.execute runStatement importing here)
        ((defs.map fun td => .run (.task td)) ++ rest) s =
      Imports.runBody (Imports.execute runStatement importing here) rest
        { s with state := { s.state with registry := registered defs s.state.registry } } := by
  induction defs generalizing s with
  | nil => rfl
  | cons td defs ih =>
      rw [List.map_cons, List.nodup_cons] at hids
      have hlookup := AList.lookup_eq_none.2 (hnew td List.mem_cons_self)
      have hadd : s.state.registry.add td = some (s.state.registry.insert td.id td) :=
        Registry.add_of_compatible fun existing hexisting => by
          rw [hlookup] at hexisting
          cases hexisting
      have hnext : ∀ td' ∈ defs, td'.id ∉ s.state.registry.insert td.id td := by
        intro td' htd' hmem
        rcases Registry.mem_insert.1 hmem with hid | hold
        · exact hids.1 (List.mem_map.2 ⟨td', htd', hid⟩)
        · exact hnew td' (List.mem_cons_of_mem _ htd') hold
      rw [List.map_cons, List.cons_append, Imports.runBody, Imports.execute, runStatement, hadd]
      exact ih { s with state := { s.state with registry := s.state.registry.insert td.id td } }
        hids.2 hnext

theorem libraryDefs_nodup : (libraryDefs.map fun td => td.id).Nodup := by decide

theorem import_tools (dir : TasksDir) (depth : Nat) (s : TaskProcess)
    (hnew : "tools" ∉ s.loaded) :
    Imports.importModule dir.modules runStatement (depth + 1) "tools" s =
      ({ s with loaded := "tools" :: s.loaded }, true) := by
  have hfind : Imports.find dir.modules "tools" = some toolsModule :=
    Imports.find_of_mem dir.named dir.tools
  rw [Imports.importModule, if_neg hnew, hfind]
  rfl

/-- The first import of `tasks/registry.py` in a process that has registered nothing. -/
theorem import_registry (dir : TasksDir) (loaded : List String) (hnew : "registry" ∉ loaded) :
    ∃ loaded', dir.importModule "registry" { loaded, state := {} } =
        ({ loaded := loaded', state := libraryState }, true) ∧
      "tools" ∈ loaded' ∧ "registry" ∈ loaded' := by
  have hfind : Imports.find dir.modules "registry" = some registryModule :=
    Imports.find_of_mem dir.named dir.library
  obtain ⟨depth, hdepth⟩ : ∃ depth, dir.modules.length = depth + 1 :=
    Nat.exists_eq_succ_of_ne_zero (List.length_pos_of_mem dir.library).ne'
  have hbody : ∀ loaded', Imports.runBody
      (Imports.execute runStatement (Imports.importModule dir.modules runStatement (depth + 1))
        "registry")
      ((libraryDefs.map fun td => .run (.task td)) ++ [.run .exportTaskDefs])
      { loaded := loaded', state := {} } = ({ loaded := loaded', state := libraryState }, true) := by
    intro loaded'
    rw [run_tasks _ _ _ _ _ libraryDefs_nodup fun _ _ => AList.notMem_empty _]
    rfl
  unfold importModule
  rw [Imports.importModule, if_neg hnew, hfind, hdepth]
  dsimp only [registryModule]
  rw [List.cons_append, Imports.runBody, Imports.execute]
  by_cases htools : "tools" ∈ "registry" :: loaded
  · rw [Imports.importModule_of_loaded htools]
    dsimp only
    rw [hbody]
    exact ⟨_, rfl, htools, List.mem_cons_self⟩
  · rw [import_tools dir depth _ htools]
    dsimp only
    rw [hbody]
    exact ⟨_, rfl, List.mem_cons_self, List.mem_cons_of_mem _ List.mem_cons_self⟩

theorem apiTaskDefs_eq (dir : TasksDir) : dir.apiTaskDefs = some libraryRegistry := by
  obtain ⟨loaded, hregistry, htools, -⟩ := dir.import_registry [] List.not_mem_nil
  have hagain : dir.importModule "tools" { loaded, state := libraryState } =
      ({ loaded, state := libraryState }, true) := Imports.importModule_of_loaded htools
  simp only [apiTaskDefs, taskDefs, List.foldlM_cons, List.foldlM_nil, fresh, hregistry, hagain,
    Option.bind_eq_bind, Option.bind_some, Option.pure_def]
  exact AList.lookup_insert _

theorem cliTaskDefs_eq (dir : TasksDir) : dir.cliTaskDefs = some libraryRegistry := by
  have htools : dir.importModule "tools" fresh = ({ loaded := ["tools"], state := {} }, true) :=
    dir.import_tools _ fresh List.not_mem_nil
  obtain ⟨loaded, hregistry, -, -⟩ := dir.import_registry ["tools"] (by decide)
  simp only [cliTaskDefs, taskDefs, List.foldlM_cons, List.foldlM_nil, htools, hregistry,
    Option.bind_eq_bind, Option.bind_some, Option.pure_def]
  exact AList.lookup_insert _

end TasksDir

/-! ## What both know -/

/-- The ids that the three entry points accept are those a worker resolves, and a plan is
unknown at submission exactly if a worker poisons one of its tasks. -/
structure KnowSame (api cli worker : Registry) : Prop where
  submittable : ∀ tid, tid ∈ api ↔ tid ∈ worker
  seedable : ∀ tid, tid ∈ cli ↔ tid ∈ worker
  submitted : ∀ ladder maxActiveAgents forceTier plan agentIds ids now db
    (task : Handout) started (dbRun : Db) agent, dbRun.agent task.agentId = some agent →
      ((∃ unknown, submitAgents ladder api.keys maxActiveAgents forceTier plan agentIds ids now db =
          .error (.unknownTaskIds unknown)) ↔
        ∃ tid ∈ plan, startTask worker.resolve { task with taskDefId := tid } started dbRun =
          .failing { task with taskDefId := tid } started
            ⟨.poison, "task_def_id " ++ toString tid ++ " not in registry"⟩)
  created : ∀ name plan description pipelines,
    (∃ e, createPipeline cli.keys name plan description pipelines = .error e) ↔
      ∃ tid ∈ plan, tid ∉ worker
  resolved : ∀ pipelines pipeline plan,
    (∃ e, resolvePlan cli.keys pipelines pipeline (some plan) = .error e) ↔
      ∃ tid ∈ plan, tid ∉ worker

/-- Submission and execution know the same tasks. -/
def TasksDir.KnowsSame (dir : TasksDir) : Prop :=
  ∃ api cli worker, dir.apiTaskDefs = some api ∧ dir.cliTaskDefs = some cli ∧
    dir.discover = some worker ∧ KnowSame api cli worker

theorem filter_unknown {taskDefs plan : List Int} :
    plan.filter (fun tid => tid ∉ taskDefs) ≠ [] ↔ ∃ tid ∈ plan, tid ∉ taskDefs := by
  simp [List.filter_eq_nil_iff]

theorem startTask_unknown {worker : Registry} {task : Handout} {started : Time} {db : Db}
    {agent : Agent} (hagent : db.agent task.agentId = some agent) :
    startTask worker.resolve task started db =
        .failing task started
          ⟨.poison, "task_def_id " ++ toString task.taskDefId ++ " not in registry"⟩ ↔
      task.taskDefId ∉ worker := by
  unfold startTask Registry.resolve
  rw [hagent]
  cases hlookup : worker.lookup task.taskDefId with
  | none => simpa using AList.lookup_eq_none.1 hlookup
  | some td =>
      have hmem := AList.lookup_isSome.1 (Option.isSome_of_mem hlookup)
      refine ⟨fun h => ?_, fun h => absurd hmem h⟩
      simp only [Option.map_some] at h
      split at h <;> cases h

theorem submitAgents_unknown {ladder : Ladder} {taskDefs : List Int} {maxActiveAgents : Nat}
    {forceTier : Option TierName} {plan : List Int} {agentIds : List Uuid} {ids : Uuid → Nat → Uuid}
    {now : Time} {db : Db} :
    (∃ unknown, submitAgents ladder taskDefs maxActiveAgents forceTier plan agentIds ids now db =
        .error (.unknownTaskIds unknown)) ↔ ∃ tid ∈ plan, tid ∉ taskDefs := by
  rw [← filter_unknown]
  unfold submitAgents
  by_cases hunknown : plan.filter (fun tid => tid ∉ taskDefs) ≠ []
  · simp only [if_pos hunknown]
    exact ⟨fun _ => hunknown, fun _ => ⟨_, rfl⟩⟩
  · simp only [if_neg hunknown]
    refine ⟨fun h => ?_, fun h => absurd h hunknown⟩
    obtain ⟨unknown, h⟩ := h
    repeat' split at h
    all_goals cases h

theorem createPipeline_unknown {taskDefs plan : List Int} {name description : String}
    {pipelines : Pipelines} :
    (∃ e, createPipeline taskDefs name plan description pipelines = .error e) ↔
      ∃ tid ∈ plan, tid ∉ taskDefs := by
  rw [← filter_unknown]
  unfold createPipeline
  by_cases hunknown : plan.filter (fun tid => tid ∉ taskDefs) ≠ []
  · simp only [if_pos hunknown]
    exact ⟨fun _ => hunknown, fun _ => ⟨_, rfl⟩⟩
  · simp only [if_neg hunknown]
    refine ⟨fun h => ?_, fun h => absurd h hunknown⟩
    obtain ⟨e, h⟩ := h
    cases h

theorem resolvePlan_unknown {taskDefs plan : List Int} {pipelines : Pipelines}
    {pipeline : Option String} :
    (∃ e, resolvePlan taskDefs pipelines pipeline (some plan) = .error e) ↔
      ∃ tid ∈ plan, tid ∉ taskDefs := by
  rw [← filter_unknown]
  unfold resolvePlan
  by_cases hunknown : plan.filter (fun tid => tid ∉ taskDefs) ≠ []
  · simp only [if_pos hunknown]
    exact ⟨fun _ => hunknown, fun _ => ⟨_, rfl⟩⟩
  · simp only [if_neg hunknown]
    refine ⟨fun h => ?_, fun h => absurd h hunknown⟩
    obtain ⟨e, h⟩ := h
    cases h

theorem KnowSame.of_ids {api cli worker : Registry} (hapi : ∀ tid, tid ∈ api ↔ tid ∈ worker)
    (hcli : ∀ tid, tid ∈ cli ↔ tid ∈ worker) : KnowSame api cli worker where
  submittable := hapi
  seedable := hcli
  submitted := by
    intro ladder maxActiveAgents forceTier plan agentIds ids now db task started dbRun agent hagent
    rw [submitAgents_unknown]
    refine exists_congr fun tid => and_congr_right fun _ => ?_
    rw [← AList.mem_keys, hapi]
    exact (@startTask_unknown worker { task with taskDefId := tid } _ _ _ hagent).symm
  created := by
    intro name plan description pipelines
    rw [createPipeline_unknown]
    refine exists_congr fun tid => and_congr_right fun _ => ?_
    rw [← AList.mem_keys, hcli]
  resolved := by
    intro pipelines pipeline plan
    rw [resolvePlan_unknown]
    refine exists_congr fun tid => and_congr_right fun _ => ?_
    rw [← AList.mem_keys, hcli]

/-- Every id that a module loaded by a worker registers is one of `tasks/registry.py`, and no
such module takes the name of the legacy dictionary. -/
def TasksDir.Covered (dir : TasksDir) : Prop :=
  ¬ dir.Loads "TASK_DEFS" ∧ ∀ n td, dir.Loads n →
    .run (.task td) ∈ Imports.bodyOf dir.modules n → ∃ td' ∈ libraryDefs, td'.id = td.id

namespace TasksDir

variable {dir : TasksDir}

theorem KnowsSame.covered (h : dir.KnowsSame) : dir.Covered := by
  obtain ⟨api, cli, worker, hapi, -, hworker, hsame⟩ := h
  have hplain : ¬ dir.Loads "TASK_DEFS" := by
    intro hloads
    rw [dir.discover_eq_none hloads] at hworker
    cases hworker
  refine ⟨hplain, fun n td hn htd => ?_⟩
  obtain ⟨found, hfound, hkeys⟩ := dir.discover_spec hplain
  obtain rfl : found = worker := Option.some.inj (hfound.symm.trans hworker)
  obtain rfl : libraryRegistry = api := Option.some.inj (dir.apiTaskDefs_eq.symm.trans hapi)
  have hknown : td.id ∈ found := (hkeys td.id).2 ⟨n, td, hn, htd, rfl⟩
  exact mem_libraryRegistry.1 ((hsame.submittable td.id).2 hknown)

theorem Covered.knowsSame (h : dir.Covered) : dir.KnowsSame := by
  obtain ⟨worker, hworker, hkeys⟩ := dir.discover_spec h.1
  have hsame : ∀ tid, tid ∈ libraryRegistry ↔ tid ∈ worker := by
    intro tid
    rw [mem_libraryRegistry, hkeys]
    constructor
    · rintro ⟨td, htd, rfl⟩
      exact ⟨"registry", td, dir.registry_loads, dir.library_registers htd, rfl⟩
    · rintro ⟨n, td, hn, htd, rfl⟩
      exact h.2 n td hn htd
  exact ⟨_, _, worker, dir.apiTaskDefs_eq, dir.cliTaskDefs_eq, hworker, .of_ids hsame hsame⟩

end TasksDir

/-- Submission and execution know the same tasks exactly if no other module adds an id. -/
theorem known_tasks (dir : TasksDir) : dir.KnowsSame ↔ dir.Covered := by
  constructor
  · exact TasksDir.KnowsSame.covered
  · exact TasksDir.Covered.knowsSame

/-! ## A file dropped in -/

def searchIncidentsDef : NamedTaskDef := ⟨⟨8, false⟩, "search-incidents"⟩

/-- The module that the docstring of `common/registry.py` adds. -/
def searchIncidents : TaskModule where
  name := "search_incidents"
  body := [.run (.task searchIncidentsDef)]

theorem task_of_searchIncidents {n : String} {td : NamedTaskDef}
    (h : .run (.task td) ∈
      Imports.bodyOf [registryModule, searchIncidents, toolsModule] n) :
    td ∈ searchIncidentsDef :: libraryDefs := by
  obtain ⟨m, hm, hstmt⟩ := Imports.mem_bodyOf h
  simp only [List.mem_cons, List.not_mem_nil, or_false] at hm
  rcases hm with rfl | rfl | rfl
  · exact List.mem_cons_of_mem _ (by simpa [registryModule] using hstmt)
  · simp_all [searchIncidents]
  · simp [toolsModule] at hstmt

def withSearchIncidents : TasksDir where
  modules := [registryModule, searchIncidents, toolsModule]
  named := by decide
  library := List.mem_cons_self
  tools := by simp
  importable := by
    intro n n' h
    obtain ⟨m, hm, hstmt⟩ := Imports.mem_bodyOf h
    simp only [List.mem_cons, List.not_mem_nil, or_false] at hm
    rcases hm with rfl | rfl | rfl
    · obtain rfl : n' = "tools" := by simpa [registryModule] using hstmt
      decide
    · simp [searchIncidents] at hstmt
    · simp [toolsModule] at hstmt
  compatible := by
    intro n n' td td' h h' hid
    have hnodup : ((searchIncidentsDef :: libraryDefs).map fun td => td.id).Nodup := by decide
    rw [List.inj_on_of_nodup_map hnodup (task_of_searchIncidents h) (task_of_searchIncidents h') hid]

theorem known_tasks_searchIncidents : ¬ withSearchIncidents.KnowsSame := by
  intro hsame
  have hloads : withSearchIncidents.Loads "search_incidents" :=
    ⟨"search_incidents", TasksDir.mem_discovered (by decide) (by decide), .refl⟩
  obtain ⟨td, htd, hid⟩ :=
    hsame.covered.2 "search_incidents" searchIncidentsDef hloads List.mem_cons_self
  revert td
  decide

end ReliableAgents
