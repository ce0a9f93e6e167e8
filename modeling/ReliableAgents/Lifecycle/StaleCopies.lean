import ReliableAgents.Lifecycle.Baselines
import ReliableAgents.Lifecycle.LiveLadder
import ReliableAgents.Lifecycle.SweepChanges

/-!
# Promotion and price by the table

A copy that lacks the tier of a row, or the one right above it, promotes that row past a
tier or not at all: `next_tier` answers for a tier it does not know as for the highest.
A price is never wrong that way, since a tier keeps its price and `cost_of` raises on one
it does not know.
-/

namespace ReliableAgents

open Relational

namespace LiveTransition

/-- Service `q` routes the row `t`, which has used up its budget. -/
def Exhausts (c : LiveTransition) (q : Nat) (now : Time) (t : TaskInstance) : Prop :=
  ∃ limit flags locked, c.action = .act q (.classify limit flags now locked) ∧
    t ∈ takeFailed limit locked c.before.sys.db ∧
    escalates (flags t.id) t (c.before.sys.db.evidence t.id) = true

/-- A row that has used up its budget goes to the next higher rank of the table, and is
dead-lettered only at the highest. -/
def PromotesByTable (c : LiveTransition) : Prop :=
  ∀ q now t, Exhausts c q now t →
    (∀ next, c.before.tiers.NextRank t.tier next →
      c.after.sys.db.task t.id = some (t.promoted next now)) ∧
    ∀ u, c.after.sys.db.task t.id = some u → u.status = .dead → c.before.tiers.Topmost t.tier

/-- If the table has a tier of higher rank than the row's, then the copy of the process that
routes it holds the row's tier and the next higher one. -/
def ReadsCurrent (c : LiveTransition) : Prop :=
  ∀ q now t, Exhausts c q now t → ∀ next, c.before.tiers.NextRank t.tier next →
    t.tier ∈ (c.before.view (.service q)).names ∧ next ∈ (c.before.view (.service q)).names

/-- A checkpoint that goes through charges the price the table has for the task's tier. -/
def ChargesByTable (cfg : Config) (c : LiveTransition) : Prop :=
  ∀ q p now task started result cost tokens db, c.action = .act q (.checkpoint p now) →
    (c.before.sys.workers p).phase = .committing task started result cost tokens →
    checkpointSuccess task result cost tokens started (cfg.workerId p) now c.before.sys.db =
      some (db, true) →
    c.before.tiers.costOf task.tier = some (cost, tokens)

/-- The action of the system, apart from what the process knows of the ladder. -/
def base? (c : LiveTransition) : Option SysTransition :=
  match c.action with
  | .act _ a => some ⟨c.before.sys, a, c.after.sys⟩
  | _ => none

end LiveTransition

open LiveTransition

/-! ## Promotion -/

section Promotion

variable {cfg : Config} {ts : List LiveTransition} {s : Live} {c : LiveTransition}

theorem onTask_of_escalates {ladder : Ladder} {flags : Flags} {now : Time} {t : TaskInstance}
    {db : Db} {w : Write} (h : escalates flags t (db.evidence t.id) = true)
    (hw : routeWrite ladder flags now t db = some w) :
    w.onTask t =
      match ladder.nextTier t.tier with
      | none => t.killed now
      | some tier => t.promoted tier now := by
  unfold routeWrite at hw
  rw [decision_of_escalates h] at hw
  cases hnext : ladder.nextTier t.tier with
  | none =>
      rw [hnext] at hw
      obtain ⟨failureClass, -, rfl⟩ := Option.map_eq_some_iff.1 hw
      simp [Write.onTask]
  | some tier =>
      rw [hnext] at hw
      cases hw
      simp [Write.onTask]

/-- The row goes where the copy of the routing process sends it. -/
theorem LiveRun.routed (h : LiveRun cfg ts s) (hc : c ∈ ts) {q : Nat} {now : Time}
    {t : TaskInstance} (hexhausts : Exhausts c q now t) :
    c.after.sys.db.task t.id =
      some (match (c.before.view (.service q)).nextTier t.tier with
        | none => t.killed now
        | some tier => t.promoted tier now) := by
  obtain ⟨pre, post, -, hpre, hstep, -⟩ := h.exists_split hc
  obtain ⟨limit, flags, locked, haction, ht, hescalates⟩ := hexhausts
  rw [haction] at hstep
  obtain ⟨hact, -, -⟩ := Live.step_act hstep
  obtain ⟨w, hw, htask⟩ := step_classify_task (LiveRun.atCursor hpre) hact ht
  rw [htask, onTask_of_escalates hescalates hw]
  rfl

theorem promotes_iff (h : LiveRun cfg ts s) (hc : c ∈ ts) :
    c.PromotesByTable ↔ c.ReadsCurrent := by
  obtain ⟨pre, post, -, hpre, -, -⟩ := h.exists_split hc
  constructor
  · intro hpromotes q now t hexhausts next hnext
    have hgoes := (hpromotes q now t hexhausts).1 next hnext
    rw [h.routed hc hexhausts, Option.some.injEq] at hgoes
    cases hview : (c.before.view (.service q)).nextTier t.tier with
    | none =>
        rw [hview] at hgoes
        cases congrArg TaskInstance.status hgoes
    | some tier =>
        rw [hview] at hgoes
        have htier : tier = next := congrArg TaskInstance.tier hgoes
        subst htier
        exact ⟨Ladder.mem_of_nextTier hview, Ladder.nextTier_mem hview⟩
  · intro hcurrent q now t hexhausts
    have hgrown := (LiveRun.copied hpre).view (.service q)
    have hsame : (c.before.view (.service q)).nextTier t.tier =
        c.before.tiers.nextTier t.tier :=
      hgrown.nextTier_eq.2 fun next hnext =>
        hcurrent q now t hexhausts next (Ladder.nextTier_iff.1 hnext)
    have hgoes := h.routed hc hexhausts
    rw [hsame] at hgoes
    constructor
    · intro next hnext
      rw [hgoes, Ladder.nextTier_iff.2 hnext]
    · intro u hu hdead
      rw [hgoes, Option.some.injEq] at hu
      cases hnext : c.before.tiers.nextTier t.tier with
      | none => exact Ladder.topmost_of_nextTier hnext
      | some tier =>
          rw [hnext] at hu
          rw [← hu] at hdead
          cases hdead

end Promotion

/-! ## Price -/

section Price

variable {cfg : Config} {ts : List LiveTransition} {s s' : Live} {c : LiveTransition}

theorem Phase.Charged.grown {table table' : Ladder} {us : List SysTransition} {p : Nat}
    {phase : Phase} (h : phase.Charged { cfg with ladder := table } us p)
    (hgrown : table.Grown table') : phase.Charged { cfg with ladder := table' } us p := by
  cases phase with
  | finished | committing => exact Or.imp_left hgrown.costOf h
  | _ => trivial

theorem LiveRun.charged (h : LiveRun cfg ts s) (p : Nat) :
    (s.sys.workers p).phase.Charged { cfg with ladder := s.tiers } (ts.filterMap base?) p := by
  refine h.invariant_along (I := fun us u =>
    (u.sys.workers p).phase.Charged { cfg with ladder := u.tiers } (us.filterMap base?) p)
    (fun _ => True) trivial (fun us u act u' hrun _ hcharged hstep _ => ?_) (fun _ _ => trivial)
  rw [List.filterMap_append]
  cases act with
  | act q a =>
      obtain ⟨hact, htiers, -⟩ := Live.step_act hstep
      rw [htiers]
      have hbase : [(⟨u, .act q a, u'⟩ : LiveTransition)].filterMap base? =
          [⟨u.sys, a, u'.sys⟩] := rfl
      rw [hbase]
      have hview : (u.view (a.process q)).Grown u.tiers := (LiveRun.copied hrun).view _
      cases a with
      | submit forceTier plan agentIds ids now =>
          have hworkers : u'.sys.workers = u.sys.workers := by
            simp only [stepUnder, ReliableAgents.step] at hact
            repeat' split at hact
            all_goals rw [← Option.some.inj hact]
            all_goals rfl
          rw [hworkers]
          exact hcharged.snoc (by simp [Action.claimer?])
      | seed plan agentIds ids now => exact hcharged.step (.refl _) hact
      | _ => exact hcharged.step hview hact
  | insert tier rerank =>
      simp only [Live.step] at hstep
      split at hstep
      · cases hstep
      · rename_i tiers htiers
        cases hstep
        exact (List.append_nil (us.filterMap base?)).symm ▸
          hcharged.grown (Ladder.grown_of_insert? htiers)
  | allTiers | invalidate =>
      cases hstep
      exact (List.append_nil (us.filterMap base?)).symm ▸ hcharged

/-- What a checkpoint charges is the price in the table, or the result is a replay. -/
theorem LiveRun.charges (h : LiveRun cfg ts s)
    (hfresh : ¬ CommitsReplay cfg (ts.filterMap base?)) (hc : c ∈ ts) :
    c.ChargesByTable cfg := by
  intro q p now task started result cost tokens db haction hphase hcommit
  obtain ⟨pre, post, rfl, hpre, -, -⟩ := h.exists_split hc
  have hcharged := LiveRun.charged hpre p
  rw [hphase] at hcharged
  rcases hcharged with hprice | hreplay
  · exact hprice
  rcases checkpointSuccess_spec hcommit with ⟨hfalse, -⟩ | ⟨fields, t, a, -, -, ht, howner, hrunning, -⟩
  · cases hfalse
  have hbase : base? c = some ⟨c.before.sys, .checkpoint p now, c.after.sys⟩ := by
    simp [base?, haction]
  refine absurd ⟨pre.filterMap base?, ⟨c.before.sys, .checkpoint p now, c.after.sys⟩,
    post.filterMap base?, p, now, task, t, ?_, hreplay, rfl, ?_, ht, hrunning, howner⟩ hfresh
  · rw [List.filterMap_append, List.filterMap_cons, hbase]
  · rw [hphase]
    rfl

end Price

/-- In every run with inserts, a row that has used up its budget is routed by the table
exactly if the routing process's copy holds its tier and the one above it, and a success
that is no replay is charged by the table. -/
theorem live_ladder {cfg : Config} {ts : List LiveTransition} {s : Live}
    (h : LiveRun cfg ts s) :
    (∀ c ∈ ts, c.PromotesByTable ↔ c.ReadsCurrent) ∧
      (¬ CommitsReplay cfg (ts.filterMap base?) → ∀ c ∈ ts, c.ChargesByTable cfg) :=
  ⟨fun _ hc => promotes_iff h hc, fun hfresh _ hc => h.charges hfresh hc⟩

def threePools : Config :=
  { oneHost with
    poolTier := fun p => if p = 0 then "junior" else if p = 1 then "senior" else "principal" }

def principal : Tier where
  name := "principal"
  rank := 3
  costUnits := 60
  tokens := 8000

/-- Service 0 has read the ladder, task 20 is too hard for both tiers, and a third one is
inserted before its last failure is routed. -/
def principalAdded : List LiveAction :=
  ([submitPlan [20], .repair 50 (fun _ => ⟨7⟩) 0 unlocked] ++
    handout 0 0 (.raised tooHard) ++ reported 0 (seconds 1) ++
    handout 0 (seconds 10) (.raised tooHard) ++ reported 0 (seconds 11) ++
    handout 1 (seconds 20) (.raised tooHard) ++ reported 1 (seconds 21) ++
    handout 1 (seconds 30) (.raised tooHard) ++ [Action.report 1 (seconds 31)]).map (.act 0) ++
    [.insert principal Tier.rank]

def lastClassify : Action := .classify 50 (fun _ => {}) (seconds 31) unlocked

/-- A process that dropped its copy promotes to the new tier, whose pool is charged 60. -/
def principalUsed : List LiveAction :=
  principalAdded ++ [.invalidate (.service 0), .act 0 lastClassify] ++
    (handout 2 (seconds 40) solved ++ [Action.confirm 2, Action.checkpoint 2 (seconds 41)]).map (.act 0)

theorem live_ladder_invalidated :
    (Live.ran threePools principalUsed).2.sys.db.attempts.map
        (fun e => (e.tier, e.outcome, e.costUnits)) =
      [("junior", .failed, 0), ("junior", .failed, 0), ("senior", .failed, 0),
        ("senior", .failed, 0), ("principal", .succeeded, 60)] ∧
      ∀ c ∈ (Live.ran threePools principalUsed).1, c.PromotesByTable ↔ c.ReadsCurrent :=
  ⟨by decide +kernel, (live_ladder (Live.run_ran threePools principalUsed)).1⟩

/-- A process that still has the old copy dead-letters the task below the new tier. -/
theorem live_ladder_stale :
    ∃ ts s, LiveRun threePools ts s ∧ s.tiers.NextRank "senior" "principal" ∧
      s.sys.db.dlq.map DlqEntry.lastError =
        ["capability exhausted at top tier senior: correlating signals across sources"] ∧
      s.sys.db.taskInstances.rows.map (fun t => (t.tier, t.status)) = [("senior", .dead)] ∧
      ¬ ∀ c ∈ ts, c.PromotesByTable := by
  refine ⟨_, _, .snoc (a := .act 0 lastClassify) (Live.run_ran threePools principalAdded) rfl,
    Ladder.nextTier_iff.1 (by decide +kernel), by decide +kernel, by decide +kernel, fun hall => ?_⟩
  have hlast := hall _ (List.mem_append_right _ List.mem_cons_self)
  obtain ⟨t, ht, hfacts⟩ := Option.map_eq_some_iff.1 (show
    (takeFailed 50 unlocked (Live.ran threePools principalAdded).2.sys.db).head?.map (fun t =>
      (t.tier, escalates {} t ((Live.ran threePools principalAdded).2.sys.db.evidence t.id),
        (((classify ((Live.ran threePools principalAdded).2.view (.service 0)) 50 (fun _ => {})
          (seconds 31) unlocked (Live.ran threePools principalAdded).2.sys.db).getD
            (Live.ran threePools principalAdded).2.sys.db).task t.id).map TaskInstance.status)) =
        some ("senior", true, some .dead) by decide +kernel)
  simp only [Prod.mk.injEq] at hfacts
  obtain ⟨htier, hescalates, hdead⟩ := hfacts
  have hpromoted := (hlast 0 (seconds 31) t ⟨50, fun _ => {}, unlocked, rfl,
    List.mem_of_mem_head? ht, hescalates⟩).1 "principal"
      (htier ▸ Ladder.nextTier_iff.1 (by decide +kernel))
  have hstatus := hdead.symm.trans (congrArg (Option.map TaskInstance.status) hpromoted)
  cases hstatus

end ReliableAgents
