import ReliableAgents.System
import Mathlib

/-!
# The deployment of the repository

The ladder `db/schema.sql` seeds, the ids of `tasks/registry.py`, and the two worker
pools of `docker-compose.yml`. How processes are named is left open: the compose
file sets no `WORKER_ID`, so every name is `worker-` and a process id.
-/

namespace ReliableAgents

def seededLadder : Ladder where
  tiers :=
    [{ name := "junior", rank := 1, costUnits := 1, tokens := 1200 },
      { name := "senior", rank := 2, costUnits := 12, tokens := 3000 }]
  sorted := by decide
  named := by decide

/-- The ids `tasks/registry.py` registers. -/
def registeredIds : List Int :=
  [1, 2, 3, 10, 11, 12, 13, 14, 15, 16, 20, 21, 22, 23, 30, 31, 32, 40, 41, 42, 43, 50, 51]

/-- Those it registers with `side_effecting=True`. -/
def sideEffectingIds : List Int := [40, 41, 42, 43]

def discovered (taskDefId : Int) : Option TaskDef :=
  if taskDefId ∈ registeredIds then
    some { id := taskDefId, sideEffecting := taskDefId ∈ sideEffectingIds }
  else none

/-- Even processes drain the junior pool and odd ones the senior pool. The identity
stands for the digest. -/
def deployment (workerId : Nat → WorkerId) : Config where
  ladder := seededLadder
  workerId := workerId
  poolTier := fun p => if p % 2 = 0 then "junior" else "senior"
  registry := discovered
  taskDefs := registeredIds
  leaseTtlSeconds := 30
  maxActiveAgents := 100
  sha256 := id

/-- Process ids name processes apart as long as they differ. -/
theorem defaultWorkerId_injective : Function.Injective (defaultWorkerId none) := by
  intro p q h
  have hdigits : toString p = toString q := by
    simpa [defaultWorkerId] using h
  exact Nat.repr_injective hdigits

/-- The processes of one host, each under its own process id. -/
def oneHost : Config := deployment (defaultWorkerId none)

/-- Containers: the worker is process 1 in each of them. -/
def containers : Config := deployment fun _ => defaultWorkerId none 1

/-! ## An escalation -/

def firstAgent : Uuid := ⟨1⟩

/-- Drawn row ids, one for each agent and plan position. -/
def rowId (agentId : Uuid) (seq : Nat) : Uuid := ⟨agentId.bits * 1024 + BitVec.ofNat 128 seq⟩

def unlocked {κ : Type} : κ → Bool := fun _ => false

def submitPlan (plan : List Int) : Action := .submit none plan [firstAgent] rowId 0

def tooHard : TaskFailure where
  failureClass := some .capability
  detail := some "correlating signals across sources"

def handout (p : Nat) (now : Time) (outcome : RunOutcome) : List Action :=
  [.claim p now now unlocked, .load p, .run p outcome]

/-- A failure that is reported and routed in the same second. -/
def reported (p : Nat) (now : Time) : List Action :=
  [.report p now, .classify 50 (fun _ => {}) now unlocked]

def solved : RunOutcome :=
  .returned (.dict (.json (.cons "correlated" (.bool true) .nil)))

def ticketCreated : RunOutcome :=
  .returned (.dict (.json (.cons "ticket" (.str "PAY-1") .nil)))

/-- Task 20 is too hard for the junior pool twice, and is solved by the senior pool;
task 1 is queued behind it. -/
def escalation : List Action :=
  submitPlan [20, 1] ::
    (handout 0 0 (.raised tooHard) ++ reported 0 (seconds 1) ++
      handout 0 (seconds 10) (.raised tooHard) ++ reported 0 (seconds 11) ++
      handout 1 (seconds 20) solved ++ [.confirm 1, .checkpoint 1 (seconds 21)])

def jiraDown : TaskFailure where
  failureClass := some .infra
  detail := some "jira unavailable (injected)"

/-- The tool refuses the call under a reservation, and the retry finds that in flight. -/
def refusedRetry : List Action :=
  [submitPlan [40], .claim 0 0 0 unlocked, .load 0, .begin 0 0, .run 0 (.raised jiraDown)] ++
    reported 0 (seconds 1) ++
      [.claim 0 (seconds 3) (seconds 3) unlocked, .load 0, .begin 0 (seconds 3)]

def ran (cfg : Config) (actions : List Action) : List SysTransition × Sys :=
  Machine.performed (step cfg) .init actions

theorem run_ran (cfg : Config) (actions : List Action) :
    SysRun cfg (ran cfg actions).1 (ran cfg actions).2 :=
  Machine.run_performed (step cfg) .init actions

example : ((ran oneHost escalation).2.db.task (rowId firstAgent 0)).map TaskInstance.tier =
    some "senior" := by
  decide +kernel

end ReliableAgents
