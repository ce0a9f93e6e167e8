import ReliableAgents.Effects.Reservations

/-!
# Between PROCEED and `settle`

A PROCEED answer inserts the reservation, and the worker that got it holds the id
open until its `settle`. As long as nobody releases the id it has one holder.
-/

namespace ReliableAgents

/-- The handout and the id of a worker between PROCEED and `settle`. -/
def Phase.open? : Phase → Option (Handout × ActionId)
  | .running task _ _ (some key) => some (task, key)
  | .settling task _ key _ => some (task, key)
  | _ => none

/-- Process `p` gets PROCEED for the id `key` of its task. -/
def Clears (c : SysTransition) (p : Nat) (task : Handout) (key : ActionId) (now : Time) : Prop :=
  c.action = .begin p now ∧ ∃ started ctx,
    (c.before.workers p).phase = .reserving task started ctx ∧
      (c.after.workers p).phase = .running task started ctx (some key)

section Open

variable {cfg : Config} {s s' : Sys} {a : Action} {ts : List SysTransition} {key : ActionId}

theorem startTask_open? (registry : Int → Option TaskDef) (task : Handout) (started : Time)
    (db : Db) : (startTask registry task started db).open? = none := by
  unfold startTask
  dsimp only
  repeat' split
  all_goals rfl

theorem finishTask_open? (ladder : Ladder) (task : Handout) (started : Time) (result : PyDict) :
    (finishTask ladder task started result).open? = none := by
  unfold finishTask
  split <;> rfl

theorem settleAction_open? (ladder : Ladder) (task : Handout) (started : Time) (key : ActionId)
    (result : PyDict) (now : Time) (db : Db) :
    (settleAction ladder task started key result now db).1.open? = none := by
  unfold settleAction
  split
  · rfl
  · exact finishTask_open? ladder task started result

theorem afterRun_open? {ladder : Ladder} {task : Handout} {started : Time} {ctx : TaskContext}
    {actionKey : Option ActionId} {outcome : RunOutcome} {held : Handout × ActionId}
    (h : (afterRun ladder task started actionKey outcome).open? = some held) :
    (Phase.running task started ctx actionKey).open? = some held := by
  have hfails : ∀ failure, (failTask task started failure).open? ≠ some held := fun _ =>
    failTask_of (P := fun phase => phase.open? ≠ some held) nofun fun _ _ => nofun
  unfold afterRun at h
  split at h
  · exact absurd h (hfails _)
  · exact absurd h (hfails _)
  · exact absurd h (hfails _)
  · split at h
    · exact h
    · rw [finishTask_open?] at h
      cases h

theorem step_settle {p : Nat} {now : Time} (h : step cfg s (.settle p now) = some s') :
    (s'.workers p).phase.open? = none := by
  obtain ⟨_, _, _, _, -, rfl⟩ := step_settling h
  rw [Sys.setPhase_workers, if_pos rfl]
  exact settleAction_open? ..

theorem step_open (h : step cfg s a = some s') {p : Nat} {task : Handout}
    (hopen : (s'.workers p).phase.open? = some (task, key)) :
    (s.workers p).phase.open? = some (task, key) ∨
      ∃ now, Clears ⟨s, a, s'⟩ p task key now := by
  rcases step_phase h p with hsame | hstep
  · exact Or.inl (hsame ▸ hopen)
  · generalize hbefore : (s.workers p).phase = before at hstep ⊢
    generalize hafter : (s'.workers p).phase = after at hstep hopen
    cases hstep with
    | claim | confirm | stop => cases hopen
    | load =>
        rw [startTask_open?] at hopen
        cases hopen
    | @begin task started now ctx phase hbegin =>
        rcases beginAction_spec hbegin with ⟨rfl, -⟩ | ⟨status, stored, key', -, rfl⟩
        · cases hopen
        · cases status with
          | proceed =>
              cases hopen
              exact Or.inr ⟨now, rfl, started, ctx, hbefore, hafter⟩
          | done | inFlight => cases hopen
    | run => exact Or.inl (afterRun_open? hopen)
    | settle hsettle =>
        rw [show after = _ from (congrArg Prod.fst hsettle).symm, settleAction_open?] at hopen
        cases hopen

theorem Clears.reserves {c : SysTransition} {p : Nat} {task : Handout} {reserved : Time}
    (h : Clears c p task key reserved) (hs : step cfg c.before c.action = some c.after) :
    c.before.db.reservation key = none ∧
      c.after.db.reservation key =
        some (Ledger.reserved key task.agentId task.seq task.actionType reserved) := by
  obtain ⟨ha, started, ctx, hbefore, hafter⟩ := h
  rw [ha] at hs
  simp only [step, hbefore, Option.some.injEq] at hs
  rw [← hs, Sys.setPhase_workers, if_pos rfl] at hafter
  rw [← hs]
  generalize hbegun : beginAction cfg.sha256 task started ctx reserved c.before.db = begun
    at hafter ⊢
  obtain ⟨phase, db'⟩ := begun
  rcases beginAction_spec hbegun with ⟨rfl, -⟩ | ⟨status, stored, key', hcall, rfl⟩
  · cases hafter
  · cases status with
    | done | inFlight => cases hafter
    | proceed =>
        cases hafter
        obtain ⟨-, ⟨-, -, hnone, -, -, hread⟩ | ⟨-, row, -, ⟨hd, -⟩ | ⟨hd, -⟩⟩⟩ :=
          Ledger.begin_spec hcall
        · exact ⟨hnone, (hread key).trans (if_pos rfl)⟩
        · cases hd
        · cases hd

theorem ReservationStep.reserved {c : SysTransition} {before after : Option Reservation}
    (h : ReservationStep cfg c key before after) (hbefore : before ≠ none)
    (hkept : ¬ Releases c key) : after ≠ none := by
  cases h with
  | keep => exact hbefore
  | reserve | settle | reconcile => exact nofun
  | release hreleases => exact absurd hreleases hkept

/-- As long as nobody releases an id, at most one worker holds it open. -/
structure SoleOpen (key : ActionId) (s : Sys) : Prop where
  reserved : ∀ p task, (s.workers p).phase.open? = some (task, key) →
    s.db.reservation key ≠ none
  single : ∀ p q task task', (s.workers p).phase.open? = some (task, key) →
    (s.workers q).phase.open? = some (task', key) → p = q

theorem SoleOpen.step (hsole : SoleOpen key s) (h : step cfg s a = some s')
    (hkept : ¬ Releases ⟨s, a, s'⟩ key) : SoleOpen key s' := by
  have hstays : s.db.reservation key ≠ none → s'.db.reservation key ≠ none :=
    fun hbefore => (step_reservation h key).reserved hbefore hkept
  refine ⟨fun p task hp => ?_, fun p q task task' hp hq => ?_⟩
  · rcases step_open h hp with hbefore | ⟨now, hclears⟩
    · exact hstays (hsole.reserved p task hbefore)
    · rw [(hclears.reserves h).2]
      exact nofun
  · rcases step_open h hp with hpBefore | ⟨now, hpClears⟩
    · rcases step_open h hq with hqBefore | ⟨now, hqClears⟩
      · exact hsole.single p q task task' hpBefore hqBefore
      · exact absurd (hqClears.reserves h).1 (hsole.reserved p task hpBefore)
    · rcases step_open h hq with hqBefore | ⟨now', hqClears⟩
      · exact absurd (hpClears.reserves h).1 (hsole.reserved q task' hqBefore)
      · have heq := hpClears.1.symm.trans hqClears.1
        cases heq
        rfl

theorem SysRun.soleOpen (h : SysRun cfg ts s) (hkept : ∀ c ∈ ts, ¬ Releases c key) :
    SoleOpen key s := by
  refine h.invariant_of (I := SoleOpen key) (fun c => ¬ Releases c key) ?_ ?_ hkept
  · exact ⟨fun p task hp => (by cases hp), fun p q task task' hp => (by cases hp)⟩
  · intro u a u' hsole hs hallowed
    exact hsole.step hs hallowed

end Open

end ReliableAgents
