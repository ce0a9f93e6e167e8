import ReliableAgents.Deployment
import ReliableAgents.Lifecycle.Phases
import ReliableAgents.Lifecycle.Statements

/-!
# Rows that go missing

The repair sweep is there for agents whose task row is gone. Nothing in the runtime
deletes one, so the loss is an action of its own, taken between any two actions of the
system. `gen_random_uuid()` does not draw the id of a lost row again.
-/

namespace ReliableAgents

open Relational

/-- `DELETE FROM task_instances WHERE id = k`; `attempts` is `ON DELETE CASCADE`. -/
def loseTask (k : Uuid) (db : Db) : Db :=
  { db with
    taskInstances := db.taskInstances.delete fun t => t.id = k
    attempts := db.attempts.filter fun e => e.taskInstanceId ≠ k }

structure Lossy where
  sys : Sys
  /-- The ids of the rows that were lost. -/
  lost : List Uuid

inductive LossyAction where
  | act (a : Action)
  | lose (k : Uuid)

namespace Lossy

def init : Lossy where
  sys := .init
  lost := []

def step (cfg : Config) (s : Lossy) : LossyAction → Option Lossy
  | .act a =>
      match ReliableAgents.step cfg s.sys a with
      | none => none
      | some sys =>
          if (sys.db.taskInstances.select fun t => t.id ∈ s.lost).isEmpty then
            some { s with sys := sys }
          else none
  | .lose k =>
      match s.sys.db.task k with
      | none => none
      | some _ =>
          some
            { sys := s.sys.setDb (loseTask k s.sys.db)
              lost := k :: s.lost }

end Lossy

abbrev LossyTransition := Machine.Transition Lossy LossyAction

abbrev LossyRun (cfg : Config) (ts : List LossyTransition) (s : Lossy) : Prop :=
  Machine.Run (Lossy.step cfg) .init ts s

namespace Lossy

/-- What the system did in a run with losses. -/
def acted (ts : List LossyTransition) : List SysTransition :=
  ts.filterMap fun c =>
    match c.action with
    | .act a => some ⟨c.before.sys, a, c.after.sys⟩
    | .lose _ => none

@[simp] theorem acted_snoc_act (ts : List LossyTransition) (s s' : Lossy) (a : Action) :
    acted (ts ++ [⟨s, .act a, s'⟩]) = acted ts ++ [⟨s.sys, a, s'.sys⟩] := by
  simp [acted]

@[simp] theorem acted_snoc_lose (ts : List LossyTransition) (s s' : Lossy) (k : Uuid) :
    acted (ts ++ [⟨s, .lose k, s'⟩]) = acted ts := by
  simp [acted]

def ran (cfg : Config) (actions : List LossyAction) : List LossyTransition × Lossy :=
  Machine.performed (step cfg) .init actions

theorem run_ran (cfg : Config) (actions : List LossyAction) :
    LossyRun cfg (ran cfg actions).1 (ran cfg actions).2 :=
  Machine.run_performed (step cfg) .init actions

end Lossy

section Step

variable {cfg : Config} {s s' : Lossy}

theorem Lossy.step_act {a : Action} (h : Lossy.step cfg s (.act a) = some s') :
    ReliableAgents.step cfg s.sys a = some s'.sys ∧ s'.lost = s.lost ∧
      ∀ k ∈ s.lost, s'.sys.db.task k = none := by
  simp only [Lossy.step] at h
  split at h
  · cases h
  · rename_i sys hstep
    split at h
    · rename_i hfresh
      cases h
      refine ⟨hstep, rfl, fun k hk => ?_⟩
      cases htask : sys.db.task k with
      | none => rfl
      | some t =>
          have hmem : t ∈ sys.db.taskInstances.select fun t => t.id ∈ s.lost := by
            have hid := Db.id_of_task htask
            exact Table.mem_select.2 ⟨hid ▸ htask, by simpa [hid] using hk⟩
          rw [List.isEmpty_iff.1 hfresh] at hmem
          cases hmem
    · cases h

theorem Lossy.step_lose {k : Uuid} (h : Lossy.step cfg s (.lose k) = some s') :
    (∃ t, s.sys.db.task k = some t) ∧ s'.sys = s.sys.setDb (loseTask k s.sys.db) ∧
      s'.lost = k :: s.lost := by
  simp only [Lossy.step] at h
  split at h
  · cases h
  · rename_i t ht
    cases h
    exact ⟨⟨t, ht⟩, rfl, rfl⟩

theorem loseTask_task (k k' : Uuid) (db : Db) :
    (loseTask k db).task k' = if k' = k then none else db.task k' := by
  rw [Db.task, loseTask, Table.get?_delete]
  cases ht : db.taskInstances.get? k' with
  | none => simp [Db.task, ht]
  | some t =>
      have hid : t.id = k' := Table.key_of_get? ht
      by_cases heq : k' = k <;> simp [Db.task, ht, hid, heq]

/-- A row whose id was lost does not come back. -/
theorem LossyRun.lost {ts : List LossyTransition} (h : LossyRun cfg ts s) :
    ∀ k ∈ s.lost, s.sys.db.task k = none := by
  refine h.invariant (I := fun u => ∀ k ∈ u.lost, u.sys.db.task k = none)
    (by simp [Lossy.init]) fun u a u' hI hstep => ?_
  cases a with
  | act a =>
      obtain ⟨-, hlost, hgone⟩ := Lossy.step_act hstep
      exact hlost ▸ hgone
  | lose k =>
      obtain ⟨-, hsys, hlost⟩ := Lossy.step_lose hstep
      intro k' hk'
      rw [hsys, Sys.setDb_db, loseTask_task]
      split
      · rfl
      · rename_i hne
        rw [hlost, List.mem_cons] at hk'
        exact hI k' (hk'.resolve_left hne)

end Step

/-- A run without losses is a run of the system. -/
theorem LossyRun.of_run {cfg : Config} {ts : List SysTransition} {s : Sys} (h : SysRun cfg ts s) :
    LossyRun cfg (ts.map fun c => ⟨⟨c.before, []⟩, .act c.action, ⟨c.after, []⟩⟩) ⟨s, []⟩ := by
  induction h with
  | nil => exact .nil
  | snoc _ hstep ih =>
      rw [List.map_append]
      refine ih.snoc ?_
      simp [Lossy.step, hstep, Table.select]

end ReliableAgents
