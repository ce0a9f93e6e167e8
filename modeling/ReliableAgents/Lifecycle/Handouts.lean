import ReliableAgents.Lifecycle.Refinement

/-!
# Handouts and the rows they name

The lease fence compares worker ids. When these are distinct, a worker that
passes the fence holds the latest handout of the row: its tier and its attempt
number are the row's. This is what makes the evidence it writes about the row.
-/

namespace ReliableAgents

open Relational

/-- A worker that still owns its running row holds a handout that matches it. -/
def Coupled (cfg : Config) (s : Sys) : Prop :=
  ∀ p task t, (s.workers p).phase.task? = some task → s.db.task task.id = some t →
    t.status = .running → t.leaseOwner = some (cfg.workerId p) →
    task.tier = t.tier ∧ task.attempt = t.attempt

def unclaimed : Rules := { Rules.free with claim := fun _ _ => False }

/-- A lease `t'` held after a step that nobody claimed in it was `t` before. -/
structure TaskInstance.SameLease (t t' : TaskInstance) : Prop where
  status : t.status = .running
  leaseOwner : t'.leaseOwner = t.leaseOwner
  tier : t'.tier = t.tier
  attempt : t'.attempt = t.attempt

section Lease

variable {ladder : Ladder} {cfg : Config} {s s' : Sys} {a : Action}

theorem TaskStep.sameLease {v v' : TaskView} (h : TaskStep ladder unclaimed v v')
    (hrunning : v'.row.status = .running) : v.row.SameLease v'.row := by
  cases h with
  | claim _ _ _ _ hclaim => exact hclaim.elim
  | row hrow =>
      cases hrow with
      | renew ttl now hstatus => exact ⟨hstatus, rfl, rfl, rfl⟩
      | report | reclaim | retry | promote => cases hrunning
  | commit | kill | cancel => cases hrunning

theorem TaskPath.sameLease {v v' : TaskView} (h : TaskPath ladder unclaimed v v')
    (hrunning : v'.row.status = .running) : v.row.SameLease v'.row := by
  induction h with
  | refl => exact ⟨hrunning, rfl, rfl, rfl⟩
  | tail _ hs ih =>
      have hlast := hs.sameLease hrunning
      have hpast := ih hlast.status
      exact ⟨hpast.status, hlast.leaseOwner.trans hpast.leaseOwner, hlast.tier.trans hpast.tier,
        hlast.attempt.trans hpast.attempt⟩

structure Claims (cfg : Config) (s : Sys) (a : Action) (s' : Sys) (p : Nat) (task : Handout) :
    Prop where
  taken : ∃ now started locked, a = .claim p now started locked ∧
    claimOne (cfg.poolTier p) (cfg.workerId p) cfg.leaseTtlSeconds now locked s.db =
      some (task, s'.db)
  idle : (s.workers p).phase = .idle
  row : ∃ t, s'.db.task task.id = some t ∧ t.status = .running ∧
    t.leaseOwner = some (cfg.workerId p) ∧ task.tier = t.tier ∧ task.attempt = t.attempt
  others : ∀ k, k ≠ task.id → s'.db.task k = s.db.task k

theorem claims_of_claimOne {p : Nat} {now started : Time} {locked : Uuid → Bool} {task : Handout}
    (h : step cfg s (.claim p now started locked) = some s')
    (hclaim : claimOne (cfg.poolTier p) (cfg.workerId p) cfg.leaseTtlSeconds now locked s.db =
      some (task, s'.db)) :
    Claims cfg s (.claim p now started locked) s' p task := by
  obtain ⟨t, -, -, rfl, htask⟩ := claimOne_task hclaim
  refine ⟨⟨now, started, locked, rfl, hclaim⟩, ?_, ?_, fun k hk => ?_⟩
  · simp only [step] at h
    split at h
    · assumption
    · cases h
  · exact ⟨_, (htask _).trans (if_pos rfl), rfl, rfl, rfl, rfl⟩
  · exact (htask k).trans (if_neg hk)

theorem step_claim {p : Nat} {now started : Time} {locked : Uuid → Bool}
    (h : step cfg s (.claim p now started locked) = some s') :
    s' = s ∨ ∃ task, Claims cfg s (.claim p now started locked) s' p task ∧
      (s'.workers p).phase = .claimed task started := by
  have hstep := h
  simp only [step] at h
  split at h
  · cases hclaim : claimOne (cfg.poolTier p) (cfg.workerId p) cfg.leaseTtlSeconds now locked
      s.db with
    | none =>
        simp only [claimTask, hclaim, Option.some.injEq] at h
        exact Or.inl h.symm
    | some claimed =>
        simp only [claimTask, hclaim, Option.some.injEq] at h
        have hclaimed : claimOne (cfg.poolTier p) (cfg.workerId p) cfg.leaseTtlSeconds now locked
            s.db = some (claimed.1, s'.db) := by
          rw [hclaim, ← h]
          rfl
        refine Or.inr ⟨claimed.1, claims_of_claimOne hstep hclaimed, ?_⟩
        rw [← h, Sys.setWorker_workers, if_pos rfl]
  · cases h

/-- A running row after a step was running under the same lease, or was just claimed. -/
theorem step_lease (hsound : s.Sound) (h : step cfg s a = some s') {k : Uuid} {t' : TaskInstance}
    (ht' : s'.db.task k = some t') (hrunning : t'.status = .running) :
    (∃ t, s.db.task k = some t ∧ t.SameLease t') ∨
      ∃ p task, Claims cfg s a s' p task ∧ task.id = k := by
  have unchanged : s'.db.task k = s.db.task k → ∃ t, s.db.task k = some t ∧ t.SameLease t' :=
    fun hsame => ⟨t', hsame ▸ ht', hrunning, rfl, rfl, rfl⟩
  by_cases hclaim : ∃ p now started locked, a = .claim p now started locked
  · obtain ⟨p, now, started, locked, rfl⟩ := hclaim
    rcases step_claim h with rfl | ⟨task, hclaims, -⟩
    · exact Or.inl (unchanged rfl)
    · by_cases hk : k = task.id
      · exact Or.inr ⟨p, task, hclaims, hk.symm⟩
      · exact Or.inl (unchanged (hclaims.others k hk))
  · have hrules : unclaimed.Hold cfg s a := by
      constructor
      · intro p now started locked _ _ _ ha
        exact absurd ⟨p, now, started, locked, ha⟩ hclaim
      all_goals intros; trivial
    cases hold : s.db.task k with
    | none =>
        obtain ⟨⟨_, _, _, _, _, _, -, rfl⟩, -⟩ := step_created hsound h hold ht'
        cases hrunning
    | some t =>
        obtain ⟨u, hu, hpath⟩ := (step_moves hsound h hrules).task hsound.db hold
        rw [ht'] at hu
        cases hu
        exact Or.inl ⟨t, rfl, hpath.sameLease hrunning⟩

end Lease

/-! ## Distinct worker ids -/

section Distinct

variable {cfg : Config} {s s' : Sys} {a : Action} {ts : List SysTransition}

theorem step_coupled (hdistinct : Function.Injective cfg.workerId) (hsound : s.Sound)
    (hcoupled : Coupled cfg s) (h : step cfg s a = some s') : Coupled cfg s' := by
  intro p task t' hheld ht' hrunning howner
  rcases step_held h hheld with hbefore | ⟨now, started, locked, rfl, hclaim⟩
  · rcases step_lease hsound h ht' hrunning with ⟨t, ht, hlease⟩ | ⟨q, other, hclaims, hid⟩
    · have hmatch := hcoupled p task t hbefore ht hlease.status (hlease.leaseOwner ▸ howner)
      exact ⟨hmatch.1.trans hlease.tier.symm, hmatch.2.trans hlease.attempt.symm⟩
    · -- the claimer owns the row, so it is `p` itself, which was idle
      obtain ⟨t, ht, -, howner', -⟩ := hclaims.row
      rw [hid, ht'] at ht
      cases ht
      have hq : q = p := hdistinct (Option.some.inj (howner'.symm.trans howner))
      rw [← hq, hclaims.idle] at hbefore
      cases hbefore
  · obtain ⟨t, ht, -, -, htier, hattempt⟩ := (claims_of_claimOne h hclaim).row
    rw [ht'] at ht
    cases ht
    exact ⟨htier, hattempt⟩

theorem SysRun.coupled (hdistinct : Function.Injective cfg.workerId) (h : SysRun cfg ts s) :
    Coupled cfg s := by
  have hboth : s.Sound ∧ Coupled cfg s := by
    refine h.invariant (I := fun u => u.Sound ∧ Coupled cfg u) ⟨Sys.init_sound, ?_⟩ ?_
    · intro p task t hheld
      cases hheld
    · rintro u a u' ⟨hsound, hcoupled⟩ hs
      exact ⟨step_sound hsound hs, step_coupled hdistinct hsound hcoupled hs⟩
  exact hboth.2

/-- The evidence a worker writes is stamped with the row's own tier and attempt. -/
def stamped : Rules :=
  { Rules.free with
    commit := fun _ t task _ _ _ => task.tier = t.tier ∧ task.attempt = t.attempt
    report := fun _ t task _ => task.tier = t.tier ∧ task.attempt = t.attempt }

theorem Coupled.stamped_hold (hcoupled : Coupled cfg s) (a : Action) : stamped.Hold cfg s a where
  claim := by intros; trivial
  commit := by
    intro p now task started fields cost tokens t ag _ hphase ht howner hrunning _
    exact hcoupled p task t (by rw [hphase]; rfl) ht hrunning howner
  report := by
    intro p now task started failure t ag _ hphase ht howner hrunning _
    exact hcoupled p task t (by rw [hphase]; rfl) ht hrunning howner
  reclaim := by intros; trivial
  route := by intros; trivial

theorem SysRun.stamped_holdAlong (hdistinct : Function.Injective cfg.workerId)
    (h : SysRun cfg ts s) : stamped.HoldAlong cfg ts := by
  intro t ht
  obtain ⟨pre, -, -, hpre, -, -⟩ := h.exists_split ht
  exact (SysRun.coupled hdistinct hpre).stamped_hold t.action

end Distinct

/-! ## Fenced statements -/

section Fenced

variable {k : Uuid}

theorem leased_update_other {db : Db} {taskId : Uuid} {workerId : WorkerId}
    (f : TaskInstance → TaskInstance) (hkey : ∀ t, (f t).id = t.id)
    (huniq : ∀ t, (f t).position = t.position) (hk : k ≠ taskId) :
    (db.taskInstances.update (leasedBy taskId workerId) f hkey huniq).get? k = db.task k := by
  rw [Table.get?_update]
  cases ht : db.taskInstances.get? k with
  | none => exact ht.symm
  | some t =>
      have hfence : leasedBy taskId workerId t = false := by
        have hid : t.id = k := Table.key_of_get? ht
        simp [leasedBy, hid, hk]
      rw [Option.map_some, hfence]
      exact ht.symm

theorem renewSql_changes {taskId : Uuid} {workerId : WorkerId} {ttl : Int} {now : Time} {db : Db}
    (h : (renewSql taskId workerId ttl now db).1.task k ≠ db.task k) :
    k = taskId ∧ ∃ t, db.task k = some t ∧ t.status = .running ∧ t.leaseOwner = some workerId := by
  have hk : k = taskId := by
    by_contra hne
    exact h (leased_update_other (TaskInstance.renewed ttl now) (fun _ => rfl) (fun _ => rfl) hne)
  subst hk
  rcases renewSql_spec k workerId ttl now db with ⟨-, heq⟩ | ⟨t, ht, howner, hrunning⟩
  · rw [heq] at h
    exact absurd rfl h
  · exact ⟨rfl, t, ht, hrunning, howner⟩

theorem checkpointSuccess_changes {task : Handout} {result : PyDict} {cost tokens : Int}
    {started : Time} {workerId : WorkerId} {now : Time} {db db' : Db} {ok : Bool}
    (hc : checkpointSuccess task result cost tokens started workerId now db = some (db', ok))
    (h : db'.task k ≠ db.task k) :
    k = task.id ∧ ∃ t, db.task k = some t ∧ t.status = .running ∧ t.leaseOwner = some workerId := by
  rcases checkpointSuccess_spec hc with
    ⟨-, rfl⟩ | ⟨fields, t, ag, -, -, ht, howner, hrunning, -, -, rfl⟩
  · exact absurd rfl h
  · have hk : k = task.id := by
      by_contra hne
      exact h (leased_update_other (TaskInstance.markedSucceeded fields now) (fun _ => rfl)
        (fun _ => rfl) hne)
    exact ⟨hk, t, hk ▸ ht, hrunning, howner⟩

theorem reportFailure_changes {task : Handout} {failure : FailureReport} {started : Time}
    {workerId : WorkerId} {now : Time} {db : Db}
    (h : (reportFailure task failure started workerId now db).1.task k ≠ db.task k) :
    k = task.id ∧ ∃ t, db.task k = some t ∧ t.status = .running ∧ t.leaseOwner = some workerId := by
  generalize hr : reportFailure task failure started workerId now db = reported at h
  obtain ⟨db', ok⟩ := reported
  rcases reportFailure_spec hr with ⟨-, rfl⟩ | ⟨t, -, ht, howner, hrunning, rfl⟩
  · exact absurd rfl h
  · have hk : k = task.id := by
      by_contra hne
      exact h (leased_update_other (TaskInstance.reportedFailed failure now) (fun _ => rfl)
        (fun _ => rfl) hne)
    exact ⟨hk, t, hk ▸ ht, hrunning, howner⟩

end Fenced

end ReliableAgents
