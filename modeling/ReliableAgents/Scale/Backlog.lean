import ReliableAgents.Lifecycle.Waiting
import ReliableAgents.Scale.Autoscaler

/-!
# What the autoscaler's backlog is worth

The autoscaler asks for one orchestrator for each 50 expired leases, and one more. A reap
takes the leases that ran out first, so a row that was in the backlog is overtaken by the
rest of it and by nothing later: the reaps asked for reach all of it.
-/

namespace ReliableAgents

open Relational

/-- A reap of 50 rows or more that does not find the row locked. -/
def sweepsPast (taskId : Uuid) (c : SysTransition) : Bool :=
  match c.action with
  | .reap batch _ _ locked => 50 ≤ batch && !locked taskId
  | _ => false

namespace Autoscaler

/-- `reaper_backlog`: leases that have run out and are not reclaimed yet. -/
def reaperBacklog (now : Time) (db : Db) : Nat := db.taskInstances.count (expired now)

variable {opts : Options} {o : Observed} {scaler scaler' : Scaler} {report : Report}

/-- Short of the ceiling, the replicas asked for take the backlog in one reap each. -/
theorem desiredReplicas_covers {agents backlog : Nat} {want : Int}
    (hwant : desiredReplicas opts agents backlog = some want) (hroom : want ≠ opts.maxReplicas)
    (hbacklog : 0 < backlog) : (backlog : Int) < want * 50 := by
  unfold desiredReplicas at hwant
  obtain ⟨ratio, -, hratio⟩ := Option.map_eq_some_iff.1 hwant
  simp only [hbacklog, if_true] at hratio
  have hceil : (backlog : ℚ) / 50 ≤ (((backlog : ℚ) / 50).ceil : ℚ) := Rat.le_ceil
  have hbatches : (backlog : Int) ≤ ((backlog : ℚ) / 50).ceil * 50 := by
    have hscaled : (backlog : ℚ) ≤ (((backlog : ℚ) / 50).ceil : ℚ) * 50 := by linarith
    exact_mod_cast hscaled
  have hasked : ((backlog : ℚ) / 50).ceil + 1 ≤ want := by omega
  omega

theorem tick_desired (h : tick opts o scaler = some (scaler', report)) :
    desiredReplicas opts o.agents o.backlog = some report.desired ∧
      (report.capped = false → report.desired ≠ opts.maxReplicas) := by
  obtain ⟨want, hwant, hticked⟩ := Option.map_eq_some_iff.1 h
  cases hticked
  exact ⟨hwant, of_decide_eq_false⟩

end Autoscaler

section Backlog

variable {cfg : Config} {ts : List SysTransition} {s₀ s : Sys} {now₀ : Time} {t : TaskInstance}

/-- The rows that ran out no later than an expired row are expired, too. -/
theorem leasedAhead_le_backlog {expires : Time} (hdue : expires < now₀) (db : Db) :
    db.taskInstances.count (leasedAhead expires t) ≤ Autoscaler.reaperBacklog now₀ db := by
  refine List.countP_mono_left fun u _ hahead => ?_
  simp only [leasedAhead, Bool.and_eq_true, decide_eq_true_eq, Option.any_eq_true] at hahead
  obtain ⟨⟨hrunning, e, he, hle⟩, -⟩ := hahead
  simp [expired, hrunning, he, lt_of_le_of_lt hle hdue]

/-- A reap that does not find an expired row locked takes it or passes it. -/
theorem reapPasses_of_sweepsPast {c : SysTransition} (hexpired : expired now₀ t = true)
    (hclock : ∀ now, c.action.clock = some now → now₀ ≤ now)
    (hbefore : c.before.db.task t.id = some t) (hafter : c.after.db.task t.id = some t)
    (hsweeps : sweepsPast t.id c = true) : reapPasses 50 t c = true := by
  unfold sweepsPast at hsweeps
  split at hsweeps
  · rename_i batch jitter now locked haction
    simp only [Bool.and_eq_true, Bool.not_eq_true', decide_eq_true_eq] at hsweeps
    have hlate : now₀ ≤ now := hclock now (by rw [haction]; rfl)
    obtain ⟨hrunning, expires, hlease, hdue⟩ := expired_spec hexpired
    have hstill : expired now t = true := by
      simp [expired, hrunning, hlease, lt_of_lt_of_le hdue hlate]
    simp [reapPasses, haction, hsweeps.1, hsweeps.2, hstill, hbefore, hafter]
  · cases hsweeps

/-- Every row of the backlog that a tick sees is rewritten by the time the replicas it asks
for have swept past the row once each, unless the ceiling cuts what it asks for. -/
theorem backlog_absorbed {opts : Autoscaler.Options} {o : Autoscaler.Observed}
    {scaler scaler' : Autoscaler.Scaler} {report : Autoscaler.Report}
    (htick : Autoscaler.tick opts o scaler = some (scaler', report))
    (hroom : report.capped = false)
    (hseen : o.backlog = Autoscaler.reaperBacklog now₀ s₀.db)
    (hrun : Machine.Run (step cfg) s₀ ts s) (hdelays : ∀ c ∈ ts, c.action.Delays)
    (httl : 0 ≤ cfg.leaseTtlSeconds)
    (hclock : ∀ c ∈ ts, ∀ now, c.action.clock = some now → now₀ ≤ now)
    (ht : s₀.db.task t.id = some t) (hexpired : expired now₀ t = true)
    (hsweeps : report.desired ≤ ts.countP (sweepsPast t.id)) :
    ∃ c ∈ ts, c.after.db.task t.id ≠ some t := by
  by_contra hstays
  push Not at hstays
  obtain ⟨-, expires, hlease, hdue⟩ := expired_spec hexpired
  -- untouched so far, the row is what every reap that sweeps past it finds and leaves
  have hpasses : ∀ c ∈ ts, sweepsPast t.id c = true → reapPasses 50 t c = true := by
    intro c hc
    obtain ⟨pre, post, hcut, hpre, -, -⟩ := hrun.exists_split hc
    have hbefore : c.before.db.task t.id = some t :=
      hpre.invariant_of (I := fun u => u.db.task t.id = some t)
        (fun d => d.after.db.task t.id = some t) ht (fun _ _ _ _ _ hstay => hstay)
        fun d hd => hstays d (hcut ▸ List.mem_append_left _ hd)
    exact reapPasses_of_sweepsPast hexpired (hclock c hc) hbefore (hstays c hc)
  have hmany := List.countP_mono_left hpasses
  have hbound := reaps_overtake hrun hdelays httl hlease
    (fun c hc now hnow => lt_of_lt_of_le hdue (hclock c hc now hnow)) 50
  have hahead := @leasedAhead_le_backlog now₀ t expires hdue s₀.db
  have hbacklog : 0 < o.backlog :=
    hseen ▸ List.countP_pos_iff.2 ⟨t, Table.mem_of_get? ht, hexpired⟩
  obtain ⟨hwant, hcapped⟩ := Autoscaler.tick_desired htick
  have hcovers := Autoscaler.desiredReplicas_covers hwant (hcapped hroom) hbacklog
  omega

/-- Both leases of the two agents have run out. -/
theorem backlog_absorbed_twoAgents :
    ∃ report, Autoscaler.tick {} ⟨40, 2, 2, 1⟩ {} = some ({ current := some 1 }, report) ∧
      report.desired = 2 ∧
      ∃ c ∈ (Machine.performed (step oneHost) (ran oneHost (twoAgents ++ twoClaims)).2
          [.reap 50 (fun _ => 0) (seconds 41) unlocked,
            .reap 50 (fun _ => 0) (seconds 42) unlocked]).1,
        c.after.db.task secondTask.id ≠ some (secondTask.claimed (oneHost.workerId 2) 30 6) := by
  refine ⟨⟨2, 2, some 1, 2, true, false⟩, by decide +kernel, rfl, ?_⟩
  refine @backlog_absorbed oneHost _ _ _ (seconds 40)
    (secondTask.claimed (oneHost.workerId 2) 30 6) {} ⟨40, 2, 2, 1⟩ {} { current := some 1 }
    ⟨2, 2, some 1, 2, true, false⟩ (by decide +kernel) rfl (by decide +kernel)
    (Machine.run_performed _ _ _) (fun c hc => ?_) (by decide) (fun c hc now hnow => ?_)
    (by decide +kernel) (by decide +kernel) (by decide +kernel)
  · have haction := Machine.action_mem_performed hc
    simp only [List.mem_cons, List.not_mem_nil, or_false] at haction
    rcases haction with heq | heq <;> rw [heq] <;> exact fun _ => le_refl 0
  · have haction := Machine.action_mem_performed hc
    simp only [List.mem_cons, List.not_mem_nil, or_false] at haction
    rcases haction with heq | heq <;> rw [heq] at hnow <;> cases hnow <;> decide

end Backlog

end ReliableAgents
