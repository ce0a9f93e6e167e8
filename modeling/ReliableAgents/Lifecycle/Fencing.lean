import ReliableAgents.Deployment
import ReliableAgents.Lifecycle.Handouts

/-!
# The lease fence

`RENEW_SQL`, `MARK_SUCCEEDED_SQL` and `REPORT_FAILURE_SQL` check the owner's name, not
the claim. The name stands for the latest claim of the row as long as nobody
claims the row while another process of the same name still works on it.
-/

namespace ReliableAgents

open Relational

/-- The process whose handout an action writes under. -/
def Action.writer : Action → Option Nat
  | .heartbeat p _ => some p
  | .straggle p _ _ => some p
  | .checkpoint p _ => some p
  | .report p _ => some p
  | _ => none

def ClaimedBy (cfg : Config) (c : SysTransition) (k : Uuid) (p : Nat) : Prop :=
  ∃ task, Claims cfg c.before c.action c.after p task ∧ task.id = k

/-- The last claim of the row `k` in `ts` is by process `p`. -/
def LatestClaim (cfg : Config) (ts : List SysTransition) (k : Uuid) (p : Nat) : Prop :=
  ∃ pre c post, ts = pre ++ c :: post ∧ ClaimedBy cfg c k p ∧
    ∀ d ∈ post, ∀ q, ¬ ClaimedBy cfg d k q

/-- Every fenced write that changes a row is by the process that claimed it last. -/
def Fenced (cfg : Config) (ts : List SysTransition) : Prop :=
  ∀ pre c post, ts = pre ++ c :: post → ∀ p, c.action.writer = some p →
    ∀ k, c.after.db.task k ≠ c.before.db.task k → LatestClaim cfg pre k p

/-- Process `p` still has a handout of the row `k`: in hand, or renewed by a thread. -/
def Holds (s : Sys) (p : Nat) (k : Uuid) : Prop :=
  (∃ task, (s.workers p).phase.task? = some task ∧ task.id = k) ∨ k ∈ (s.workers p).heartbeats

/-- No process claims a row that another process of its name still has a handout of. -/
def NamesApart (cfg : Config) (ts : List SysTransition) : Prop :=
  ∀ c ∈ ts, ∀ k p, ClaimedBy cfg c k p →
    ∀ q, q ≠ p → cfg.workerId q = cfg.workerId p → ¬ Holds c.before q k

section Writers

variable {cfg : Config} {s s' : Sys} {a : Action} {p : Nat} {k : Uuid}

/-- A worker's write changes only a running row of its own name that it was handed. -/
theorem step_writes (h : step cfg s a = some s') (hwriter : a.writer = some p)
    (hchanged : s'.db.task k ≠ s.db.task k) :
    (∃ t, s.db.task k = some t ∧ t.status = .running ∧ t.leaseOwner = some (cfg.workerId p)) ∧
      Holds s p k := by
  cases a with
  | heartbeat q now =>
      cases hwriter
      simp only [step] at h
      split at h
      · rename_i task hheld
        split at h
        · cases h
        · cases h
          obtain ⟨hk, howned⟩ := renewSql_changes hchanged
          exact ⟨howned, Or.inl ⟨task, hheld, hk.symm⟩⟩
      · cases h
  | straggle q taskId now =>
      cases hwriter
      simp only [step] at h
      split at h
      · rename_i hbeating
        cases h
        obtain ⟨hk, howned⟩ := renewSql_changes hchanged
        exact ⟨howned, Or.inr (hk ▸ hbeating)⟩
      · cases h
  | checkpoint q now =>
      cases hwriter
      simp only [step] at h
      split at h
      · rename_i task started result cost tokens hphase
        split at h
        · cases h
          exact absurd rfl hchanged
        · rename_i committed hcommit
          cases h
          obtain ⟨hk, howned⟩ := checkpointSuccess_changes hcommit hchanged
          exact ⟨howned, Or.inl ⟨task, by rw [hphase]; rfl, hk.symm⟩⟩
      · cases h
  | report q now =>
      cases hwriter
      simp only [step] at h
      split at h
      · rename_i task started failure hphase
        cases h
        obtain ⟨hk, howned⟩ := reportFailure_changes hchanged
        exact ⟨howned, Or.inl ⟨task, by rw [hphase]; rfl, hk.symm⟩⟩
      · cases h
  | _ => cases hwriter

end Writers

/-! ## Histories -/

section Histories

variable {cfg : Config} {ts : List SysTransition} {s s' : Sys} {a : Action}

theorem LatestClaim.snoc {k : Uuid} {p : Nat} {c : SysTransition} (h : LatestClaim cfg ts k p)
    (hc : ∀ q, ¬ ClaimedBy cfg c k q) : LatestClaim cfg (ts ++ [c]) k p := by
  obtain ⟨pre, d, post, rfl, hclaimed, hafter⟩ := h
  refine ⟨pre, d, post ++ [c], by simp, hclaimed, fun e he => ?_⟩
  rcases List.mem_append.1 he with he | he
  · exact hafter e he
  · rw [List.mem_singleton.1 he]
    exact hc

/-- A heartbeat belongs to a task the process claimed, in this step or before. -/
theorem step_heartbeats (h : step cfg s a = some s') {p : Nat} {k : Uuid}
    (hk : k ∈ (s'.workers p).heartbeats) :
    k ∈ (s.workers p).heartbeats ∨ ClaimedBy cfg ⟨s, a, s'⟩ k p := by
  have phase : ∀ {q : Nat} {next : Phase} {u : Sys}, u.workers = s.workers →
      k ∈ ((u.setPhase q next).workers p).heartbeats → k ∈ (s.workers p).heartbeats := by
    intro q next u hworkers hq
    rw [Sys.setPhase_workers] at hq
    split at hq
    · rename_i heq
      rw [heq, ← hworkers]
      exact hq
    · rw [← hworkers]
      exact hq
  cases a with
  | claim q now started locked =>
      have hstep := h
      simp only [step] at h
      split at h
      · cases h
        unfold claimTask at hk hstep ⊢
        split at hk
        · exact Or.inl hk
        · rename_i claimed hclaim
          rw [Sys.setWorker_workers] at hk
          split at hk
          · rename_i heq
            subst heq
            rcases List.mem_cons.1 hk with rfl | hk
            · right
              simp only [hclaim] at hstep ⊢
              exact ⟨claimed.1, claims_of_claimOne hstep hclaim, rfl⟩
            · exact Or.inl hk
          · exact Or.inl hk
      · cases h
  | load q | begin q now | run q outcome | settle q now | confirm q | checkpoint q now
  | report q now =>
      simp only [step] at h
      repeat' split at h
      all_goals cases h
      all_goals exact Or.inl (phase rfl hk)
  | heartbeat q now =>
      simp only [step] at h
      split at h
      · split at h
        · cases h
        · cases h
          unfold beat at hk
          rw [Sys.setWorker_workers] at hk
          split at hk
          · rename_i heq
            rw [heq]
            exact Or.inl hk
          · exact Or.inl hk
      · cases h
  | straggle q taskId now =>
      simp only [step] at h
      split at h
      · cases h
        exact Or.inl hk
      · cases h
  | join q taskId =>
      rw [step_join h, Sys.setHeartbeats_worker] at hk
      dsimp only at hk
      split at hk
      · rename_i heq
        rw [heq]
        exact Or.inl (List.mem_of_mem_erase hk)
      · exact Or.inl hk
  | abandon q =>
      cases h
      exact Or.inl (phase rfl hk)
  | crash q =>
      cases h
      rw [Sys.setWorker_workers] at hk
      split at hk
      · cases hk
      · exact Or.inl hk
  | submit forceTier plan agentIds ids now =>
      simp only [step] at h
      split at h <;> cases h <;> exact Or.inl hk
  | reap | repair | finalise | classify | reconcile | seed | ledger =>
      cases h
      exact Or.inl hk

theorem step_holds (h : step cfg s a = some s') {p : Nat} {k : Uuid} (hk : Holds s' p k) :
    Holds s p k ∨ ClaimedBy cfg ⟨s, a, s'⟩ k p := by
  rcases hk with ⟨task, hheld, rfl⟩ | hbeating
  · rcases step_held h hheld with hbefore | ⟨now, started, locked, rfl, hclaim⟩
    · exact Or.inl (Or.inl ⟨task, hbefore, rfl⟩)
    · exact Or.inr ⟨task, claims_of_claimOne h hclaim, rfl⟩
  · rcases step_heartbeats h hbeating with hbefore | hclaimed
    · exact Or.inl (Or.inr hbefore)
    · exact Or.inr hclaimed

theorem SysRun.claimed_of_holds (h : SysRun cfg ts s) {p : Nat} {k : Uuid} (hk : Holds s p k) :
    ∃ c ∈ ts, ClaimedBy cfg c k p := by
  induction h with
  | nil =>
      rcases hk with ⟨_, hheld, -⟩ | hbeating
      · cases hheld
      · cases hbeating
  | snoc _ hs ih =>
      rcases step_holds hs hk with hbefore | hclaimed
      · obtain ⟨c, hc, hclaims⟩ := ih hbefore
        exact ⟨c, List.mem_append_left _ hc, hclaims⟩
      · exact ⟨_, by simp, hclaimed⟩

/-- A process that has a handout of a row and passes its fence claimed it last. -/
def HoldersLatest (cfg : Config) (ts : List SysTransition) (s : Sys) : Prop :=
  ∀ p k t, Holds s p k → s.db.task k = some t → t.status = .running →
    t.leaseOwner = some (cfg.workerId p) → LatestClaim cfg ts k p

theorem HoldersLatest.step (hsound : s.Sound) (hlatest : HoldersLatest cfg ts s)
    (h : step cfg s a = some s')
    (hnames : ∀ k p, ClaimedBy cfg ⟨s, a, s'⟩ k p →
      ∀ q, q ≠ p → cfg.workerId q = cfg.workerId p → ¬ Holds s q k) :
    HoldersLatest cfg (ts ++ [⟨s, a, s'⟩]) s' := by
  intro p k t' hholds ht' hrunning howner
  by_cases hclaimed : ∃ q, ClaimedBy cfg ⟨s, a, s'⟩ k q
  · obtain ⟨q, hq⟩ := hclaimed
    have hsame : p = q := by
      by_contra hne
      obtain ⟨task, hclaims, rfl⟩ := hq
      obtain ⟨t, ht, -, howner', -, -⟩ := hclaims.row
      rw [ht'] at ht
      cases ht
      have hname : cfg.workerId p = cfg.workerId q := Option.some.inj (howner.symm.trans howner')
      rcases step_holds h hholds with hbefore | ⟨other, hother, -⟩
      · exact hnames task.id q ⟨task, hclaims, rfl⟩ p hne hname hbefore
      · obtain ⟨_, _, _, ha, -⟩ := hclaims.taken
        obtain ⟨_, _, _, ha', -⟩ := hother.taken
        rw [show a = _ from ha] at ha'
        cases ha'
        exact hne rfl
    exact ⟨ts, _, [], rfl, hsame ▸ hq, by simp⟩
  · have hbefore : Holds s p k :=
      (step_holds h hholds).resolve_right fun hc => hclaimed ⟨p, hc⟩
    rcases step_lease hsound h ht' hrunning with ⟨t, ht, hlease⟩ | ⟨q, task, hclaims, hid⟩
    · have hold := hlatest p k t hbefore ht hlease.status (hlease.leaseOwner ▸ howner)
      exact hold.snoc fun q hq => hclaimed ⟨q, hq⟩
    · exact absurd ⟨q, task, hclaims, hid⟩ hclaimed

theorem SysRun.holdersLatest (h : SysRun cfg ts s) (hnames : NamesApart cfg ts) :
    HoldersLatest cfg ts s := by
  have hboth : s.Sound ∧ HoldersLatest cfg ts s := by
    refine h.invariant_along (I := fun us u => u.Sound ∧ HoldersLatest cfg us u)
      (fun c => ∀ k p, ClaimedBy cfg c k p →
        ∀ q, q ≠ p → cfg.workerId q = cfg.workerId p → ¬ Holds c.before q k)
      ⟨Sys.init_sound, ?_⟩ ?_ hnames
    · intro p k t _ ht
      cases ht
    · rintro us u a u' - - ⟨hsound, hlatest⟩ hs hallowed
      exact ⟨step_sound hsound hs, hlatest.step hsound hs hallowed⟩
  exact hboth.2

/-- In a run in which nobody claims a row that a process of the same name still works
on, every write that passes the fence is by the latest claimer. -/
theorem fenced_of_namesApart (h : SysRun cfg ts s) (hnames : NamesApart cfg ts) :
    Fenced cfg ts := by
  rintro pre c post rfl p hwriter k hchanged
  obtain ⟨hpre, hs, -⟩ := Machine.Run.split h
  have hpast : NamesApart cfg pre := fun d hd => hnames d (List.mem_append_left _ hd)
  obtain ⟨⟨t, ht, hrunning, howner⟩, hholds⟩ := step_writes hs hwriter hchanged
  exact SysRun.holdersLatest hpre hpast p k t hholds ht hrunning howner

/-! ## Two containers of one name -/

/-- Process 0 reports a failure and has joined its heartbeat when process 2 claims the row. -/
def handedOver : List Action :=
  submitPlan [20] ::
    (handout 0 0 (.raised tooHard) ++ reported 0 (seconds 1) ++
      [.join 0 (rowId firstAgent 0)] ++ handout 2 (seconds 10) solved ++
      [.heartbeat 2 (seconds 11), .confirm 2, .checkpoint 2 (seconds 12)])

/-- At each claim of `handedOver` the other process has nothing in hand and no thread left. -/
theorem handedOver_apart : NamesApart containers (ran containers handedOver).1 := by
  have hrun := run_ran containers handedOver
  have hclaimers : (handedOver.all fun
      | .claim p _ _ _ => p = 0 || p = 2
      | _ => true) = true := by decide
  have hothers : ((ran containers handedOver).1.all fun c =>
      match c.action with
      | .claim p _ _ _ => (p = 0 || c.before.workers 0 = {}) && (p = 2 || c.before.workers 2 = {})
      | _ => true) = true := by decide +kernel
  have claimer : ∀ {c : SysTransition} {k : Uuid} {p : Nat}, c ∈ (ran containers handedOver).1 →
      ClaimedBy containers c k p → p = 0 ∨ p = 2 := by
    rintro c k p hc ⟨-, ⟨⟨_, _, _, ha, -⟩, -, -, -⟩, -⟩
    have hmem := List.all_eq_true.1 hclaimers _ (Machine.action_mem_performed hc)
    rw [ha] at hmem
    simpa using hmem
  intro c hc k p hp q hne _ hholds
  obtain ⟨pre, post, hts, hpre, -, -⟩ := hrun.exists_split hc
  obtain ⟨d, hd, hq⟩ := SysRun.claimed_of_holds hpre hholds
  have hidle := List.all_eq_true.1 hothers c hc
  obtain ⟨-, ⟨⟨_, _, _, ha, -⟩, -, -, -⟩, -⟩ := hp
  rw [ha] at hidle
  rw [Bool.and_eq_true, Bool.or_eq_true, Bool.or_eq_true] at hidle
  have hworker : c.before.workers q = {} := by
    rcases claimer (hts ▸ List.mem_append_left _ hd) hq with rfl | rfl
    · exact of_decide_eq_true (hidle.1.resolve_left fun heq => hne (of_decide_eq_true heq).symm)
    · exact of_decide_eq_true (hidle.2.resolve_left fun heq => hne (of_decide_eq_true heq).symm)
  rcases hholds with ⟨task, hheld, -⟩ | hbeating
  · rw [hworker] at hheld
    cases hheld
  · rw [hworker] at hbeating
    cases hbeating

theorem fenced_of_namesApart_handedOver :
    containers.workerId 0 = containers.workerId 2 ∧
      ((ran containers handedOver).2.db.task (rowId firstAgent 0)).map TaskInstance.status =
        some .succeeded ∧
      Fenced containers (ran containers handedOver).1 :=
  ⟨rfl, by decide +kernel, fenced_of_namesApart (run_ran containers handedOver) handedOver_apart⟩

/-- Process 0 stalls past its lease; process 2 claims the task; process 0 comes back
and commits. -/
def lateCommit : List Action :=
  [submitPlan [1], .claim 0 0 0 unlocked, .load 0, .run 0 solved,
    .reap 100 (fun _ => 0) (seconds 31) unlocked, .claim 2 (seconds 40) (seconds 40) unlocked,
    .confirm 0, .checkpoint 0 (seconds 41)]

theorem ClaimedBy.unique {c : SysTransition} {k : Uuid} {p q : Nat} (hp : ClaimedBy cfg c k p)
    (hq : ClaimedBy cfg c k q) : p = q := by
  obtain ⟨-, ⟨⟨_, _, _, ha, -⟩, -, -, -⟩, -⟩ := hp
  obtain ⟨-, ⟨⟨_, _, _, ha', -⟩, -, -, -⟩, -⟩ := hq
  rw [ha] at ha'
  cases ha'
  rfl

theorem LatestClaim.unique {k : Uuid} {p q : Nat} (hp : LatestClaim cfg ts k p)
    (hq : LatestClaim cfg ts k q) : p = q := by
  obtain ⟨pre, c, post, rfl, hc, hafter⟩ := hp
  obtain ⟨pre', d, post', heq, hd, hafter'⟩ := hq
  rcases List.append_eq_append_iff.1 heq with ⟨mid, -, hmid⟩ | ⟨mid, -, hmid⟩
  · cases mid with
    | nil =>
        cases hmid
        exact hc.unique hd
    | cons e rest =>
        cases hmid
        exact absurd hd (hafter d (by simp) q)
  · cases mid with
    | nil =>
        cases hmid
        exact hc.unique hd
    | cons e rest =>
        cases hmid
        exact absurd hc (hafter' c (by simp) p)

def stale : List SysTransition := (ran containers lateCommit).1

def secondClaim : SysTransition := stale.get ⟨5, by decide +kernel⟩

def staleCheckpoint : SysTransition := stale.get ⟨7, by decide +kernel⟩

/-- The second claim is the latest one when the late checkpoint commits. -/
theorem stale_latestClaim : LatestClaim containers (stale.take 7) (rowId firstAgent 0) 2 := by
  have hs : step containers secondClaim.before
      (.claim 2 (seconds 40) (seconds 40) unlocked) = some secondClaim.after :=
    (run_ran containers lateCommit).step_of_mem (List.get_mem stale _)
  have hrow : (secondClaim.before.db.task (rowId firstAgent 0)).isSome = true := by
    decide +kernel
  have hclaims : Claims containers secondClaim.before _ secondClaim.after 2
      (((secondClaim.before.db.task (rowId firstAgent 0)).get hrow).claimed
        (containers.workerId 2) 30 (seconds 40)).handout :=
    claims_of_claimOne hs rfl
  refine ⟨stale.take 5, secondClaim, [stale.get ⟨6, by decide +kernel⟩], rfl,
    ⟨_, hclaims, rfl⟩, ?_⟩
  rintro d hd q ⟨-, ⟨⟨_, _, _, ha, -⟩, -, -, -⟩, -⟩
  rw [List.mem_singleton.1 hd] at ha
  cases (show Action.confirm 0 = _ from ha)

/-- With one name for every container, a process whose handout was reclaimed and given
to another commits under it. -/
theorem lateCommit_not_fenced : ∃ ts s, SysRun containers ts s ∧ ¬ Fenced containers ts := by
  refine ⟨stale, _, run_ran containers lateCommit, fun hfenced => ?_⟩
  have hlatest := hfenced (stale.take 7) staleCheckpoint [] rfl 0 rfl (rowId firstAgent 0)
    (by decide +kernel)
  exact absurd (hlatest.unique stale_latestClaim) (by decide)

end Histories

end ReliableAgents
