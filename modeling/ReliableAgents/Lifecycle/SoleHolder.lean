import ReliableAgents.Lifecycle.Handouts

/-!
# Runs without a lost lease

As long as no lease expires the reaper takes nothing back, so every task in hand is
a running row, and nobody else has it. Worker ids need not be distinct for this.
-/

namespace ReliableAgents

/-- No running row is past its lease when the action reads the clock. -/
def LeasesHold (c : SysTransition) : Prop :=
  ∀ now ∈ c.action.clock, ∀ r ∈ c.before.db.taskInstances.rows, expired now r = false

instance : DecidablePred LeasesHold := fun c =>
  inferInstanceAs
    (Decidable (∀ now ∈ c.action.clock, ∀ r ∈ c.before.db.taskInstances.rows,
      expired now r = false))

theorem LeasesHold.expiredLeases {c : SysTransition} (h : LeasesHold c) {batch : Nat}
    {jitter : Uuid → Time} {now : Time} {locked : Uuid → Bool}
    (haction : c.action = .reap batch jitter now locked) :
    expiredLeases batch now locked c.before.db = [] := by
  rw [List.eq_nil_iff_forall_not_mem]
  intro t ht
  obtain ⟨htask, hrunning, e, hexpires, hpast⟩ := mem_expiredLeases ht
  have hkept := h now (by rw [haction]; rfl) t (Relational.Table.mem_of_get? htask)
  simp [expired, hrunning, hexpires, hpast] at hkept

def unended : Rules :=
  { Rules.free with
    commit := fun _ _ _ _ _ _ => False
    report := fun _ _ _ _ => False
    reclaim := fun _ => False }

theorem TaskPath.stays_running {ladder : Ladder} {v v' : TaskView}
    (h : TaskPath ladder unended v v') (hrunning : v.row.status = .running) :
    v'.row.status = .running := by
  refine Machine.closure_invariant (I := fun w => w.row.status = .running) ?_ hrunning h
  intro w w' hw hs
  cases hs with
  | claim _ _ _ hpending => simp [hw] at hpending
  | row hrow =>
      cases hrow with
      | renew => exact hw
      | report _ _ _ _ _ _ _ _ hrule => exact hrule.elim
      | reclaim _ _ _ hrule => exact hrule.elim
      | retry _ _ _ hfailed | promote _ _ _ hfailed => simp [hw] at hfailed
  | commit _ _ _ _ _ _ _ _ _ _ _ hrule => exact hrule.elim
  | kill _ hfailed => simp [hw] at hfailed
  | cancel _ _ hpending => simp [hw] at hpending

/-- Every task in hand is a running row in no other hand. -/
structure Sole (s : Sys) : Prop where
  running : ∀ p task, (s.workers p).phase.task? = some task →
    ∃ t, s.db.task task.id = some t ∧ t.status = .running
  single : ∀ p q task task', (s.workers p).phase.task? = some task →
    (s.workers q).phase.task? = some task' → task.id = task'.id → p = q

section Sole

variable {cfg : Config} {s s' : Sys} {a : Action} {ts : List SysTransition}

theorem step_ended {q : Nat} {now : Time} (h : step cfg s a = some s')
    (ha : a = .checkpoint q now ∨ a = .report q now) :
    (s'.workers q).phase = .idle ∧ ∀ k, s'.db.task k ≠ s.db.task k →
      ∃ task, (s.workers q).phase.task? = some task ∧ task.id = k := by
  rcases ha with rfl | rfl
  · simp only [step] at h
    split at h
    · rename_i task started result cost tokens hphase
      split at h
      · cases h
        exact ⟨by rw [Sys.setPhase_workers, if_pos rfl], fun _ hchanged => absurd rfl hchanged⟩
      · rename_i committed hcommit
        cases h
        refine ⟨by rw [Sys.setPhase_workers, if_pos rfl], fun k hchanged => ?_⟩
        obtain ⟨hk, -⟩ := checkpointSuccess_changes hcommit hchanged
        exact ⟨task, by rw [hphase]; rfl, hk.symm⟩
    · cases h
  · simp only [step] at h
    split at h
    · rename_i task started failure hphase
      cases h
      refine ⟨by rw [Sys.setPhase_workers, if_pos rfl], fun k hchanged => ?_⟩
      obtain ⟨hk, -⟩ := reportFailure_changes hchanged
      exact ⟨task, by rw [hphase]; rfl, hk.symm⟩
    · cases h

theorem Sole.step (hsole : Sole s) (hsound : s.Sound) (h : step cfg s a = some s')
    (hleases : LeasesHold ⟨s, a, s'⟩) : Sole s' := by
  refine ⟨fun p task hheld => ?_, fun p q task task' hp hq hsame => ?_⟩
  · rcases step_held h hheld with hbefore | ⟨now, started, locked, rfl, hclaim⟩
    · obtain ⟨t, ht, hrunning⟩ := hsole.running p task hbefore
      by_cases hended : ∃ q now, a = .checkpoint q now ∨ a = .report q now
      · -- whoever ends a handout here ends another one than `p`'s
        obtain ⟨q, now, ha⟩ := hended
        obtain ⟨hidle, hchanges⟩ := step_ended h ha
        by_cases hchanged : s'.db.task task.id = s.db.task task.id
        · exact ⟨t, hchanged.trans ht, hrunning⟩
        · obtain ⟨task', hheld', hid⟩ := hchanges _ hchanged
          have hsame : p = q := hsole.single p q task task' hbefore hheld' hid.symm
          rw [hsame, hidle] at hheld
          cases hheld
      · have hrules : unended.Hold cfg s a := by
          constructor
          case commit =>
            intro q now _ _ _ _ _ _ _ ha
            exact absurd ⟨q, now, Or.inl ha⟩ hended
          case report =>
            intro q now _ _ _ _ _ ha
            exact absurd ⟨q, now, Or.inr ha⟩ hended
          case reclaim =>
            intro batch jitter now locked t ha htaken
            rw [hleases.expiredLeases ha] at htaken
            cases htaken
          all_goals intros; trivial
        obtain ⟨t', ht', hpath⟩ := (step_moves hsound h hrules).task hsound.db ht
        exact ⟨t', ht', hpath.stays_running hrunning⟩
    · obtain ⟨t, ht, hrunning, -⟩ := (claims_of_claimOne h hclaim).row
      exact ⟨t, ht, hrunning⟩
  · have claimed : ∀ {q : Nat} {held other : Handout} {now : Time} {locked : Uuid → Bool}
        {r : Nat}, claimOne (cfg.poolTier r) (cfg.workerId r) cfg.leaseTtlSeconds now locked s.db =
          some (held, s'.db) → (s.workers q).phase.task? = some other → held.id ≠ other.id := by
      intro q held other now locked r hclaim hother heq
      obtain ⟨t, ht, hpending, -⟩ := claimOne_task hclaim
      obtain ⟨u, hu, hrunning⟩ := hsole.running q other hother
      rw [heq, hu] at ht
      cases ht
      rw [hpending] at hrunning
      cases hrunning
    rcases step_held h hp with hpBefore | ⟨now, started, locked, ha, hclaim⟩
    · rcases step_held h hq with hqBefore | ⟨now, started, locked, ha, hclaim⟩
      · exact hsole.single p q task task' hpBefore hqBefore hsame
      · exact absurd hsame.symm (claimed hclaim hpBefore)
    · rcases step_held h hq with hqBefore | ⟨now', started', locked', ha', -⟩
      · exact absurd hsame (claimed hclaim hqBefore)
      · rw [ha] at ha'
        cases ha'
        rfl

theorem SysRun.sole (h : SysRun cfg ts s) (hleases : ∀ c ∈ ts, LeasesHold c) : Sole s := by
  have hboth : s.Sound ∧ Sole s := by
    refine h.invariant_of (I := fun u => u.Sound ∧ Sole u) LeasesHold ⟨Sys.init_sound, ?_⟩ ?_
      hleases
    · exact ⟨fun p task hheld => (by cases hheld), fun p q task task' hheld => (by cases hheld)⟩
    · rintro u a u' ⟨hsound, hsole⟩ hs hallowed
      exact ⟨step_sound hsound hs, hsole.step hsound hs hallowed⟩
  exact hboth.2

end Sole

end ReliableAgents
