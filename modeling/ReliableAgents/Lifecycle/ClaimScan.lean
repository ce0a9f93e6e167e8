import ReliableAgents.Lifecycle.Waiting
import ReliableAgents.Lifecycle.PriorContext

/-!
# `CLAIM_SQL`, row by row

At READ COMMITTED the subquery of a claim walks the rows of its snapshot. A row it can
lock is checked once more at its current version, but the agent it was joined to is still
the one of the snapshot: only `task_instances` is locked. Meanwhile every other process
goes on. No handout comes of a stale agent, so a claim may be taken for one step.
-/

namespace ReliableAgents

open Relational

/-- A `CLAIM_SQL` under way, with the rows it has yet to visit. -/
structure ClaimScan where
  now : Time
  started : Time
  snapshot : Db
  found : List TaskInstance

structure Scanning where
  sys : Sys
  /-- The scan each process has open. -/
  scans : Nat → Option ClaimScan

inductive ScanAction where
  | act (a : Action)
  /-- The snapshot of a claim. -/
  | look (p : Nat) (now started : Time)
  /-- The next row; `contended` when some other statement has it locked. -/
  | visit (p : Nat) (contended : Bool)

/-- The processes whose connection an action ends. -/
def Action.stops : Action → Option Nat
  | .abandon p => some p
  | .crash p => some p
  | _ => none

/-- The row `u` is handed to process `p`. -/
def handOut (cfg : Config) (s : Sys) (p : Nat) (now started : Time) (u : TaskInstance) : Sys :=
  (s.setDb
    { s.db with
      taskInstances :=
        s.db.taskInstances.update (fun r => r.id = u.id)
          (TaskInstance.claimed (cfg.workerId p) cfg.leaseTtlSeconds now) }).setWorker p
    { phase := .claimed (u.claimed (cfg.workerId p) cfg.leaseTtlSeconds now).handout started
      lost := false
      heartbeats := u.id :: (s.workers p).heartbeats }

namespace Scanning

def init : Scanning where
  sys := .init
  scans := fun _ => none

def setScan (s : Scanning) (p : Nat) (scan : Option ClaimScan) : Scanning :=
  { s with scans := Function.update s.scans p scan }

def step (cfg : Config) (s : Scanning) : ScanAction → Option Scanning
  | .act a =>
      if a.claimer?.isSome then none
      else
        (ReliableAgents.step cfg s.sys a).map fun sys =>
          { sys := sys
            scans := fun p => if a.stops = some p then none else s.scans p }
  | .look p now started =>
      match (s.sys.workers p).phase, s.scans p with
      | .idle, none =>
          some
            (s.setScan p
              (some
                { now := now
                  started := started
                  snapshot := s.sys.db
                  found :=
                    (s.sys.db.taskInstances.select
                      (claimable s.sys.db (cfg.poolTier p) now)).insertionSort
                        fun t u => t.nextRunAt ≤ u.nextRunAt }))
      | _, _ => none
  | .visit p contended =>
      match s.scans p with
      | none => none
      | some scan =>
          match scan.found with
          | [] => some (s.setScan p none)
          | t :: rest =>
              match s.sys.db.task t.id with
              | none => some (s.setScan p (some { scan with found := rest }))
              | some u =>
                  if claimable scan.snapshot (cfg.poolTier p) scan.now u && !contended then
                    some
                      { s.setScan p none with
                        sys := handOut cfg s.sys p scan.now scan.started u }
                  else some (s.setScan p (some { scan with found := rest }))

end Scanning

abbrev ScanTransition := Machine.Transition Scanning ScanAction

/-- A run in which every claim walks the rows of its snapshot. -/
abbrev ScanRun (cfg : Config) (ts : List ScanTransition) (s : Scanning) : Prop :=
  Machine.Run (Scanning.step cfg) .init ts s

/-- What a transition is to the database: an action, a whole claim, or nothing. -/
def atomic (c : ScanTransition) : List SysTransition :=
  match c.action with
  | .act a => [⟨c.before.sys, a, c.after.sys⟩]
  | .look _ _ _ => []
  | .visit p _ =>
      match c.before.scans p, (c.after.sys.workers p).phase with
      | some scan, .claimed task _ =>
          [⟨c.before.sys, .claim p scan.now scan.started fun k => k ≠ task.id, c.after.sys⟩]
      | _, _ => []

/-! ## The agent of the snapshot -/

section Stale

variable {ladder : Ladder} {rules : Rules} {v v' : AgentView}

theorem AgentPath.cursor_le (h : AgentPath ladder rules v v') :
    v.agent.cursor ≤ v'.agent.cursor :=
  Machine.closure_invariant (I := fun w => v.agent.cursor ≤ w.agent.cursor)
    (fun _ _ hle hs => le_trans hle hs.cursor_le) (le_refl _) h

/-- A row queued where the cursor once was is still at the cursor of a running agent. -/
theorem AgentPath.still_at_cursor (h : AgentPath ladder rules v v')
    (hcommitted : CommittedPrefix v') {t : TaskView} (ht : v'.rows v.agent.cursor = some t)
    (hpending : t.row.status = .pending) :
    v'.agent.cursor = v.agent.cursor ∧ v'.agent.status = .running := by
  have hcursor : v'.agent.cursor = v.agent.cursor := by
    refine le_antisymm (not_lt.1 fun hbehind => ?_) h.cursor_le
    obtain ⟨hdone, -⟩ := hcommitted.behind _ t ht hbehind
    rw [hpending] at hdone
    cases hdone
  refine ⟨hcursor, ?_⟩
  rw [← hcursor] at ht
  cases hstatus : v'.agent.status with
  | running => rfl
  | pending => exact absurd hstatus hcommitted.status
  | completed =>
      have hlt := hcommitted.cursor_lt ht
      rw [hcommitted.completed.1 hstatus] at hlt
      exact absurd hlt (lt_irrefl _)
  | failed =>
      obtain ⟨u, hu, hdead⟩ := hcommitted.failed hstatus
      rw [ht] at hu
      rw [← Option.some.inj hu, hpending] at hdead
      cases hdead

theorem claimable_of_snapshot {cfg : Config} {us vs : List SysTransition} {s₀ s : Sys}
    {poolTier : TierName} {now : Time} {u : TaskInstance} (hpast : SysRun cfg us s₀)
    (hsince : Machine.Run (step cfg) s₀ vs s) (hu : s.db.task u.id = some u)
    (hclaimable : claimable s₀.db poolTier now u = true) :
    claimable s.db poolTier now u = true := by
  obtain ⟨a, ha, hpending, hdue, htier, -, hat⟩ := claimable_spec hclaimable
  obtain ⟨v, hv, rfl⟩ := Db.view_of_agent ha
  obtain ⟨-, hmoves⟩ := run_moves hsince hpast.sound (Rules.free_holdAlong cfg vs)
  obtain ⟨v', hv', hpath⟩ := hmoves _ v hv
  obtain ⟨w, hw, hcommitted⟩ := SysRun.committedPrefix (hpast.append hsince) hu
  rw [hv', Option.some.injEq] at hw
  subst hw
  have hrow : v'.rows v.agent.cursor = some (s.db.taskView u) := by
    rw [← hat]
    exact Db.view_row_of_task hu hv'
  obtain ⟨hcursor, hrunning⟩ := hpath.still_at_cursor hcommitted hrow hpending
  have hagent := (Db.view_eq_some.1 hv').1
  simp [claimable, hagent, hpending, hdue, htier, hrunning, hcursor, hat]

end Stale

/-! ## Every claim is one step -/

/-- An open scan looked at a state of the past, and its process is idle. -/
def Scanning.Sound (cfg : Config) (s : Scanning) : Prop :=
  ∀ p scan, s.scans p = some scan → (s.sys.workers p).phase = .idle ∧
    ∃ us vs s₀, SysRun cfg us s₀ ∧ s₀.db = scan.snapshot ∧
      Machine.Run (ReliableAgents.step cfg) s₀ vs s.sys

section Atomic

variable {cfg : Config} {s s' : Scanning} {p : Nat}

theorem Scanning.setScan_scans {scan : Option ClaimScan} {q : Nat} :
    (s.setScan p scan).scans q = if q = p then scan else s.scans q := by
  simp [setScan, Function.update_apply]

/-- With every other row locked, a claim takes the one that is left. -/
theorem step_claim_only {sys : Sys} {now started : Time} {u : TaskInstance}
    (hidle : (sys.workers p).phase = .idle) (hu : sys.db.task u.id = some u)
    (hclaimable : claimable sys.db (cfg.poolTier p) now u = true) :
    step cfg sys (.claim p now started fun k => k ≠ u.id) =
      some (handOut cfg sys p now started u) := by
  obtain ⟨r, hclaim, hr, -, hfree, -⟩ :=
    @claimOne_oldest _ (cfg.workerId p) cfg.leaseTtlSeconds _ (fun k => k ≠ u.id) _ _ hu hclaimable
      (by simp)
  have hid : r.id = u.id := by simpa using hfree
  have hsame : r = u := by
    rw [hid, hu] at hr
    exact (Option.some.inj hr).symm
  subst hsame
  simp only [step, hidle, claimTask, hclaim]
  rfl

theorem Scanning.Sound.act {a : Action} (hI : s.Sound cfg)
    (h : Scanning.step cfg s (.act a) = some s') :
    Machine.Run (ReliableAgents.step cfg) s.sys (atomic ⟨s, .act a, s'⟩) s'.sys ∧ s'.Sound cfg := by
  simp only [Scanning.step] at h
  split at h
  · cases h
  rename_i hclaimer
  obtain ⟨sys, hstep, rfl⟩ := Option.map_eq_some_iff.1 h
  refine ⟨.snoc .nil hstep, fun q scan hscan => ?_⟩
  dsimp only at hscan
  split at hscan
  · cases hscan
  obtain ⟨hidle, us, vs, s₀, hpast, hsnapshot, hsince⟩ := hI q scan hscan
  refine ⟨?_, us, _, s₀, hpast, hsnapshot, hsince.snoc hstep⟩
  rcases step_phase hstep q with hsame | hphase
  · rw [hsame, hidle]
  · rw [hidle] at hphase
    generalize (sys.workers q).phase = after at hphase ⊢
    cases hphase with
    | claim hclaim => simp [Action.claimer?] at hclaimer
    | stop => rfl

theorem Scanning.Sound.look {us : List SysTransition} {now started : Time} (hI : s.Sound cfg)
    (hrun : SysRun cfg us s.sys) (h : Scanning.step cfg s (.look p now started) = some s') :
    Machine.Run (ReliableAgents.step cfg) s.sys (atomic ⟨s, .look p now started, s'⟩) s'.sys ∧
      s'.Sound cfg := by
  simp only [Scanning.step] at h
  split at h
  · rename_i hidle hnone
    cases h
    refine ⟨.nil, fun q scan hscan => ?_⟩
    rw [Scanning.setScan_scans] at hscan
    split at hscan
    · rename_i hq
      cases hscan
      exact ⟨hq ▸ hidle, us, [], s.sys, hrun, rfl, .nil⟩
    · exact hI q scan hscan
  · cases h

theorem Scanning.Sound.visit {contended : Bool} (hI : s.Sound cfg)
    (h : Scanning.step cfg s (.visit p contended) = some s') :
    Machine.Run (ReliableAgents.step cfg) s.sys (atomic ⟨s, .visit p contended, s'⟩) s'.sys ∧
      s'.Sound cfg := by
  simp only [Scanning.step] at h
  split at h
  · cases h
  rename_i scan hscan
  obtain ⟨hidle, past, since, s₀, hpast, hsnapshot, hsince⟩ := hI p scan hscan
  -- a scan that goes on or ends without a row
  have passed : ∀ next : Option ClaimScan, (∀ scan', next = some scan' →
      scan'.snapshot = scan.snapshot) →
      Machine.Run (ReliableAgents.step cfg) s.sys
          (atomic ⟨s, .visit p contended, s.setScan p next⟩) s.sys ∧
        (s.setScan p next).Sound cfg := by
    intro next hnext
    constructor
    · have hnothing : atomic ⟨s, .visit p contended, s.setScan p next⟩ = [] := by
        simp only [atomic, hscan, Scanning.setScan, hidle]
      rw [hnothing]
      exact .nil
    · intro q scan' hscan'
      rw [Scanning.setScan_scans] at hscan'
      split at hscan'
      · rename_i hq
        rw [hq]
        exact ⟨hidle, past, since, s₀, hpast, hsnapshot.trans (hnext scan' hscan').symm, hsince⟩
      · exact hI q scan' hscan'
  split at h
  · cases h
    exact passed none (fun _ heq => by cases heq)
  rename_i t rest hfound
  split at h
  · cases h
    exact passed _ (fun _ heq => by cases heq; rfl)
  rename_i u hu
  split at h
  · rename_i htaken
    cases h
    simp only [Bool.and_eq_true] at htaken
    have hid : u.id = t.id := Db.id_of_task hu
    have hu' : s.sys.db.task u.id = some u := hid ▸ hu
    have hclaimable := claimable_of_snapshot hpast hsince hu' (hsnapshot ▸ htaken.1)
    have hstep : ReliableAgents.step cfg s.sys
        (.claim p scan.now scan.started fun k => k ≠ u.id) =
          some (handOut cfg s.sys p scan.now scan.started u) :=
      step_claim_only hidle hu' hclaimable
    have hphase : ((handOut cfg s.sys p scan.now scan.started u).workers p).phase =
        .claimed (u.claimed (cfg.workerId p) cfg.leaseTtlSeconds scan.now).handout
          scan.started := by
      rw [handOut, Sys.setWorker_workers, if_pos rfl]
    constructor
    · simp only [atomic, hscan, hphase]
      exact .snoc .nil hstep
    · intro q scan' hscan'
      have hother : q ≠ p ∧ s.scans q = some scan' := by
        have hset : (s.setScan p none).scans q = some scan' := hscan'
        rw [Scanning.setScan_scans] at hset
        split at hset
        · cases hset
        · rename_i hne
          exact ⟨hne, hset⟩
      obtain ⟨hidle', past', since', s₀', hpast', hsnapshot', hsince'⟩ := hI q scan' hother.2
      refine ⟨?_, past', _, s₀', hpast', hsnapshot', hsince'.snoc hstep⟩
      dsimp only
      rw [handOut, Sys.setWorker_workers, if_neg hother.1]
      exact hidle'
  · cases h
    exact passed _ (fun _ heq => by cases heq; rfl)

/-- A run whose claims walk a snapshot is the run of the actions and whole claims it shows. -/
theorem claims_atomic {ts : List ScanTransition} (h : ScanRun cfg ts s) :
    SysRun cfg (ts.flatMap atomic) s.sys := by
  have hboth : SysRun cfg (ts.flatMap atomic) s.sys ∧ s.Sound cfg := by
    refine h.invariant_along
      (I := fun us u => SysRun cfg (us.flatMap atomic) u.sys ∧ u.Sound cfg) (fun _ => True)
      ⟨.nil, fun p scan hscan => (by cases hscan)⟩ ?_ (fun _ _ => trivial)
    intro us u a u' _ _ hI hstep _
    obtain ⟨hrun, hsound⟩ := hI
    rw [List.flatMap_append, List.flatMap_singleton]
    cases a with
    | act a =>
        obtain ⟨hnext, hsound'⟩ := hsound.act hstep
        exact ⟨hrun.append hnext, hsound'⟩
    | look p now started =>
        obtain ⟨hnext, hsound'⟩ := hsound.look hrun hstep
        exact ⟨hrun.append hnext, hsound'⟩
    | visit p contended =>
        obtain ⟨hnext, hsound'⟩ := hsound.visit hstep
        exact ⟨hrun.append hnext, hsound'⟩
  exact hboth.1

end Atomic

/-! ## Two scans of one queue -/

namespace Scanning

def ran (cfg : Config) (actions : List ScanAction) : List ScanTransition × Scanning :=
  Machine.performed (step cfg) .init actions

theorem run_ran (cfg : Config) (actions : List ScanAction) :
    ScanRun cfg (ran cfg actions).1 (ran cfg actions).2 :=
  Machine.run_performed (step cfg) .init actions

/-- Processes 0 and 2 see both tasks; process 2 takes the first, and process 0 finds it
taken and goes on to the second. -/
def twoScans : List ScanAction :=
  [.act (.submit none [20] [firstAgent, secondAgent] rowId 0), .look 0 5 5, .look 2 6 6,
    .visit 2 false, .visit 0 false, .visit 0 false]

end Scanning

theorem claims_atomic_twoScans :
    (((Scanning.ran oneHost Scanning.twoScans).2.sys.workers 0).phase.task?.map Handout.id =
        some (rowId secondAgent 0)) ∧
      SysRun oneHost ((Scanning.ran oneHost Scanning.twoScans).1.flatMap atomic)
        (Scanning.ran oneHost Scanning.twoScans).2.sys :=
  ⟨by decide +kernel, claims_atomic (Scanning.run_ran oneHost Scanning.twoScans)⟩

end ReliableAgents
