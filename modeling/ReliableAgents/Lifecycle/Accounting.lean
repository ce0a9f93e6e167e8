import ReliableAgents.Deployment
import ReliableAgents.Lifecycle.Handouts
import Mathlib.Data.List.Range

/-!
# Every handout is accounted for

Three writers close the handouts that a claim opens. At each tier the attempt
numbers of the evidence are `1, 2, …` in the order they were written, up to the
row's own attempt, whose evidence is missing exactly while the row is running.
-/

namespace ReliableAgents

/-- The attempt numbers recorded at one tier, in the order they were written. -/
def TaskView.attemptNos (v : TaskView) (tier : TierName) : List Nat :=
  (v.evidence.filter fun e => e.tier = tier).map Attempt.attemptNo

/-- How many handouts at the current tier have ended. -/
def TaskInstance.ended (t : TaskInstance) : Nat :=
  if t.status = .running then t.attempt - 1 else t.attempt

def TaskView.successes (v : TaskView) : Nat := v.evidence.countP fun e => e.outcome = .succeeded

structure Accounted (ladder : Ladder) (base : TierName) (v : TaskView) : Prop where
  onLadder : v.row.tier ∈ ladder.names
  notBelow : ladder.level base ≤ ladder.level v.row.tier
  started : v.row.status = .running → 1 ≤ v.row.attempt
  current : v.attemptNos v.row.tier = List.range' 1 v.row.ended
  left : ∀ tier ∈ ladder.names, ladder.level base ≤ ladder.level tier →
    ladder.level tier < ladder.level v.row.tier → ∃ n, v.attemptNos tier = List.range' 1 n
  unreached : ∀ tier, ladder.level tier < ladder.level base ∨
    ladder.level v.row.tier < ladder.level tier → v.attemptNos tier = []
  successes : v.successes = if v.row.status = .succeeded then 1 else 0

section Account

variable {ladder : Ladder} {base : TierName} {v v' : TaskView}

theorem Accounted.keep (h : Accounted ladder base v) (htier : v'.row.tier = v.row.tier)
    (hevidence : v'.evidence = v.evidence) (hended : v'.row.ended = v.row.ended)
    (hstarted : v'.row.status = .running → 1 ≤ v'.row.attempt)
    (hopen : v.row.status ≠ .succeeded) (hopen' : v'.row.status ≠ .succeeded) :
    Accounted ladder base v' := by
  have hnos : ∀ tier, v'.attemptNos tier = v.attemptNos tier := by
    intro tier
    rw [TaskView.attemptNos, hevidence, TaskView.attemptNos]
  refine ⟨htier ▸ h.onLadder, htier ▸ h.notBelow, hstarted, ?_, ?_, ?_, ?_⟩
  · rw [hnos, htier, hended]
    exact h.current
  · intro tier hmem hbase hlt
    rw [hnos]
    exact h.left tier hmem hbase (htier ▸ hlt)
  · intro tier hout
    rw [hnos]
    exact h.unreached tier (htier ▸ hout)
  · rw [if_neg hopen', TaskView.successes, hevidence]
    exact h.successes.trans (if_neg hopen)

theorem Accounted.record (h : Accounted ladder base v) (hrunning : v.row.status = .running)
    {e : Attempt} (htier : e.tier = v.row.tier) (hno : e.attemptNo = v.row.attempt)
    (hsame : v'.row.tier = v.row.tier) (hattempt : v'.row.attempt = v.row.attempt)
    (hevidence : v'.evidence = v.evidence ++ [e]) (hstatus : v'.row.status ≠ .running)
    (hsuccess : e.outcome = .succeeded ↔ v'.row.status = .succeeded) :
    Accounted ladder base v' := by
  have hnos : ∀ tier, v'.attemptNos tier =
      v.attemptNos tier ++ if v.row.tier = tier then [v.row.attempt] else [] := by
    intro tier
    rw [TaskView.attemptNos, hevidence, List.filter_append, List.map_append, ← TaskView.attemptNos]
    congr 1
    by_cases heq : v.row.tier = tier <;> simp [htier, heq, hno]
  have hother : ∀ tier, v.row.tier ≠ tier → v'.attemptNos tier = v.attemptNos tier := by
    intro tier hne
    rw [hnos, if_neg hne, List.append_nil]
  have hstart := h.started hrunning
  refine ⟨hsame ▸ h.onLadder, hsame ▸ h.notBelow, fun hagain => absurd hagain hstatus, ?_, ?_, ?_,
    ?_⟩
  · have hend : v.row.ended = v.row.attempt - 1 := if_pos hrunning
    have hend' : v'.row.ended = v.row.attempt - 1 + 1 := by
      rw [TaskInstance.ended, if_neg hstatus, hattempt]
      omega
    rw [hsame, hnos, if_pos rfl, h.current, hend, hend', List.range'_1_concat]
    congr 2
    omega
  · intro tier hmem hbase hlt
    rw [hsame] at hlt
    rw [hother tier (fun heq => Nat.lt_irrefl _ (heq ▸ hlt))]
    exact h.left tier hmem hbase hlt
  · intro tier hout
    rw [hsame] at hout
    have hne : v.row.tier ≠ tier := by
      rintro rfl
      have hbase := h.notBelow
      omega
    rw [hother tier hne]
    exact h.unreached tier hout
  · have hnone : v.successes = 0 := h.successes.trans (if_neg (by rw [hrunning]; decide))
    have hcount : v'.successes = v.successes + if e.outcome = .succeeded then 1 else 0 := by
      rw [TaskView.successes, hevidence, List.countP_append, List.countP_singleton,
        ← TaskView.successes]
      congr 1
      simp
    rw [hcount, hnone, Nat.zero_add]
    simp only [hsuccess]

theorem Accounted.promote (h : Accounted ladder base v) {flags : Flags} {tier : TierName}
    {now : Time} (hfailed : v.row.status = .failed)
    (hverdict : v.verdict ladder flags = .promote tier) :
    Accounted ladder base { v with row := v.row.promoted tier now } := by
  obtain ⟨-, -, hnext⟩ := verdict_promote hverdict
  have hlevel := Ladder.level_nextTier hnext
  have hnotBelow := h.notBelow
  refine ⟨Ladder.nextTier_mem hnext, ?_, (fun hstatus => by cases hstatus), ?_, ?_, ?_, ?_⟩
  · simp only [TaskInstance.promoted_tier]
    omega
  · exact h.unreached tier (Or.inr (by omega))
  · intro other hmem hbase hlt
    simp only [TaskInstance.promoted_tier] at hlt
    rcases Nat.lt_or_ge (ladder.level other) (ladder.level v.row.tier) with hbelow | hreached
    · exact h.left other hmem hbase hbelow
    · have heq : other = v.row.tier := Ladder.level_inj hmem (by omega)
      subst heq
      exact ⟨_, h.current⟩
  · intro other hout
    simp only [TaskInstance.promoted_tier] at hout
    exact h.unreached other (by omega)
  · have hnone := h.successes
    rw [if_neg (by rw [hfailed]; decide)] at hnone
    exact hnone

theorem Accounted.step (h : Accounted ladder base v) (hs : TaskStep ladder stamped v v') :
    Accounted ladder base v' := by
  cases hs with
  | claim workerId ttl now hpending _ =>
      refine h.keep rfl rfl ?_ (fun _ => Nat.le_add_left _ _) (by rw [hpending]; decide) (by simp)
      simp [TaskInstance.ended, hpending]
  | row hrow =>
      cases hrow with
      | renew ttl now hrunning =>
          exact h.keep rfl rfl rfl h.started (by rw [hrunning]; decide) (by simp [hrunning])
      | report task failure workerId started now hrunning _ _ hstamp =>
          exact h.record hrunning hstamp.1 hstamp.2 rfl rfl rfl (by simp)
            (by simp [Handout.attemptRow])
      | reclaim jitter now hrunning _ =>
          exact h.record hrunning rfl rfl rfl rfl rfl (by simp) (by simp [TaskInstance.reclaimRow])
      | retry flags backoff now hfailed _ _ =>
          refine h.keep rfl rfl ?_ (fun hstatus => by cases hstatus) (by rw [hfailed]; decide)
            (by simp)
          simp [TaskInstance.ended, hfailed]
      | promote flags tier now hfailed _ hverdict => exact h.promote hfailed hverdict
  | commit ag task fields cost tokens workerId started now hrunning _ _ hstamp =>
      exact h.record hrunning hstamp.1 hstamp.2 rfl rfl rfl (by simp) (by simp [Handout.attemptRow])
  | kill now hfailed =>
      refine h.keep rfl rfl ?_ (fun hstatus => by cases hstatus) (by rw [hfailed]; decide) (by simp)
      simp [TaskInstance.ended, hfailed]
  | cancel reason now hpending =>
      refine h.keep rfl rfl ?_ (fun hstatus => by cases hstatus) (by rw [hpending]; decide)
        (by simp)
      simp [TaskInstance.ended, hpending]

theorem Accounted.path (h : Accounted ladder base v) (hp : TaskPath ladder stamped v v') :
    Accounted ladder base v' :=
  Machine.closure_invariant (fun _ _ hv hs => hv.step hs) h hp

theorem Accounted.fresh {t : TaskInstance} (h : Db.IsFresh ladder t) :
    Accounted ladder t.tier { row := t, evidence := [] } := by
  obtain ⟨id, agentId, seq, taskDefId, tier, now, htier, rfl⟩ := h
  exact ⟨htier, Nat.le_refl _, (fun hstatus => by cases hstatus), rfl, fun _ _ _ _ => ⟨0, rfl⟩,
    fun _ _ => rfl, rfl⟩

theorem Accounted.nodup (h : Accounted ladder base v) (tier : TierName) :
    (v.attemptNos tier).Nodup := by
  rcases Nat.lt_trichotomy (ladder.level tier) (ladder.level v.row.tier) with hlt | heq | hgt
  · rcases Nat.lt_or_ge (ladder.level tier) (ladder.level base) with hbelow | hreached
    · rw [h.unreached tier (Or.inl hbelow)]
      exact List.nodup_nil
    · have hmem : tier ∈ ladder.names := by
        have hown := Ladder.level_lt_length h.onLadder
        exact List.idxOf_lt_length_iff.1 (Nat.lt_trans hlt hown)
      obtain ⟨n, hn⟩ := h.left tier hmem hreached hlt
      rw [hn]
      exact List.nodup_range'
  · have hsame : v.row.tier = tier := Ladder.level_inj h.onLadder heq.symm
    rw [← hsame, h.current]
    exact List.nodup_range'
  · rw [h.unreached tier (Or.inr hgt)]
    exact List.nodup_nil

end Account

/-- Evidence whose numbers are distinct at each tier names each handout at most once. -/
theorem handouts_nodup {evidence : List Attempt}
    (h : ∀ tier, ((evidence.filter fun e => e.tier = tier).map Attempt.attemptNo).Nodup) :
    (evidence.map fun e => (e.tier, e.attemptNo)).Nodup := by
  induction evidence with
  | nil => exact List.nodup_nil
  | cons e rest ih =>
      rw [List.map_cons, List.nodup_cons]
      refine ⟨fun hmem => ?_, ih fun tier => ?_⟩
      · obtain ⟨e', he', heq⟩ := List.mem_map.1 hmem
        simp only [Prod.mk.injEq] at heq
        have hown := h e.tier
        simp only [List.filter_cons, decide_true, if_true, List.map_cons, List.nodup_cons] at hown
        refine hown.1 (List.mem_map.2 ⟨e', List.mem_filter.2 ⟨he', ?_⟩, heq.2⟩)
        exact decide_eq_true heq.1
      · have hall := h tier
        rw [List.filter_cons] at hall
        split at hall
        · exact (List.nodup_cons.1 hall).2
        · exact hall

/-- With distinct worker ids every handout of a task is ended by exactly one row of
evidence, whichever of its writers wrote it, and a task succeeds at most once. -/
theorem handouts_accounted {cfg : Config} {ts : List SysTransition} {s : Sys}
    (hdistinct : Function.Injective cfg.workerId) (h : SysRun cfg ts s) {k : Uuid}
    {t : TaskInstance} (ht : s.db.task k = some t) :
    ∃ c ∈ ts, ∃ t₀, Creates c k t₀ ∧ Accounted cfg.ladder t₀.tier (s.db.taskView t) ∧
      ((s.db.evidence k).map fun e => (e.tier, e.attemptNo)).Nodup ∧
      (s.db.taskView t).successes ≤ 1 := by
  obtain ⟨c, hc, t₀, hcreates, hfresh, hpath⟩ :=
    h.task_history (SysRun.stamped_holdAlong hdistinct h) ht
  have haccount := (Accounted.fresh hfresh).path hpath
  refine ⟨c, hc, t₀, hcreates, haccount, ?_, ?_⟩
  · have hnodup := haccount.nodup
    simp only [TaskView.attemptNos, Db.taskView, Db.id_of_task ht] at hnodup
    exact handouts_nodup hnodup
  · rw [haccount.successes]
    split <;> decide

theorem handouts_accounted_escalation :
    ∃ t, (ran oneHost escalation).2.db.task (rowId firstAgent 0) = some t ∧
      ∃ c ∈ (ran oneHost escalation).1, ∃ t₀, Creates c (rowId firstAgent 0) t₀ ∧
        Accounted seededLadder t₀.tier ((ran oneHost escalation).2.db.taskView t) := by
  have ht : ((ran oneHost escalation).2.db.task (rowId firstAgent 0)).isSome = true := by
    decide +kernel
  obtain ⟨c, hc, t₀, hcreates, haccount, -⟩ :=
    handouts_accounted defaultWorkerId_injective (run_ran oneHost escalation)
      (Option.some_get ht).symm
  exact ⟨_, (Option.some_get ht).symm, c, hc, t₀, hcreates, haccount⟩

end ReliableAgents
