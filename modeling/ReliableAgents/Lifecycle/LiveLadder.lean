import ReliableAgents.Common.TierTable
import ReliableAgents.Lifecycle.AtCursor

/-!
# A ladder that grows

Tiers are inserted between any two actions of the system. `all_tiers` keeps what it read
first, so every process goes by a copy of its own; `invalidate` and `refresh=True` reach
no other process.
-/

namespace ReliableAgents

open Relational

inductive Process where
  | worker (p : Nat)
  | service (q : Nat)
deriving DecidableEq, Repr

/-- Who takes an action: the worker it names, and otherwise service `q`. -/
def Action.process (q : Nat) : Action → Process
  | .claim p _ _ _ => .worker p
  | .load p => .worker p
  | .begin p _ => .worker p
  | .run p _ => .worker p
  | .settle p _ => .worker p
  | .confirm p => .worker p
  | .checkpoint p _ => .worker p
  | .report p _ => .worker p
  | .heartbeat p _ => .worker p
  | .straggle p _ _ => .worker p
  | .join p _ => .worker p
  | .abandon p => .worker p
  | .crash p => .worker p
  | _ => .service q

/-- The action calls `all_tiers`: `next_tier`, `base_tier` or `cost_of`. -/
def Action.readsLadder (cfg : Config) (s : Sys) : Action → Bool
  | .classify limit flags _ locked =>
      (takeFailed limit locked s.db).any fun t => escalates (flags t.id) t (s.db.evidence t.id)
  | .repair _ _ _ _ => true
  | .submit forceTier plan _ _ _ =>
      forceTier.isNone && plan ≠ [] && plan.all fun tid => tid ∈ cfg.taskDefs
  | .run p (.returned (.dict _)) =>
      match (s.workers p).phase with
      | .running _ _ _ none => true
      | _ => false
  | .settle p now =>
      match (s.workers p).phase with
      | .settling _ _ actionKey result => (Ledger.settle actionKey result now s.db).isSome
      | _ => false
  | _ => false

/-- An action of a process that goes by `view`. Foreign keys are checked against the table,
and a tier of the copy is in the table too. -/
def stepUnder (cfg : Config) (view table : Ladder) (s : Sys) : Action → Option Sys
  | .submit forceTier plan agentIds ids now =>
      match forceTier.or view.baseTier with
      | none => some s
      | some tier =>
          step { cfg with ladder := table } s (.submit (some tier) plan agentIds ids now)
  | .seed plan agentIds ids now =>
      step { cfg with ladder := table } s (.seed plan agentIds ids now)
  | a => step { cfg with ladder := view } s a

structure Live where
  sys : Sys
  tiers : Ladder
  cache : Process → Option Ladder

inductive LiveAction where
  | act (q : Nat) (a : Action)
  /-- A committed `INSERT INTO tiers`. -/
  | insert (tier : Tier) (rerank : Tier → Int)
  /-- A call of `all_tiers` by other code: a task, the metrics, a request's validation. -/
  | allTiers (process : Process) (refresh : Bool)
  /-- `invalidate`, or another process in its place. -/
  | invalidate (process : Process)

namespace Live

def init (cfg : Config) : Live where
  sys := .init
  tiers := cfg.ladder
  cache := fun _ => none

def view (s : Live) (process : Process) : Ladder := allTiers false s.tiers (s.cache process)

def setCache (s : Live) (process : Process) (copy : Option Ladder) : Live :=
  { s with cache := Function.update s.cache process copy }

/-- The copies after an action: the process keeps what it read, unless it died. -/
def keepCopy (cfg : Config) (s : Live) (q : Nat) (a : Action) : Live :=
  match a with
  | .crash p => s.setCache (.worker p) none
  | a =>
      if a.readsLadder cfg s.sys then
        s.setCache (a.process q) (some (s.view (a.process q)))
      else s

def step (cfg : Config) (s : Live) : LiveAction → Option Live
  | .act q a =>
      match stepUnder cfg (s.view (a.process q)) s.tiers s.sys a with
      | none => none
      | some sys => some { s.keepCopy cfg q a with sys := sys }
  | .insert tier rerank =>
      match s.tiers.insert? tier rerank with
      | none => none
      | some tiers => some { s with tiers := tiers }
  | .allTiers process refresh =>
      some (s.setCache process (some (ReliableAgents.allTiers refresh s.tiers (s.cache process))))
  | .invalidate process => some (s.setCache process none)

end Live

abbrev LiveTransition := Machine.Transition Live LiveAction

/-- A run of the system in which tiers are inserted. -/
abbrev LiveRun (cfg : Config) (ts : List LiveTransition) (s : Live) : Prop :=
  Machine.Run (Live.step cfg) (.init cfg) ts s

namespace Live

def ran (cfg : Config) (actions : List LiveAction) : List LiveTransition × Live :=
  Machine.performed (step cfg) (.init cfg) actions

theorem run_ran (cfg : Config) (actions : List LiveAction) :
    LiveRun cfg (ran cfg actions).1 (ran cfg actions).2 :=
  Machine.run_performed (step cfg) (.init cfg) actions

end Live

/-! ## What a step does -/

section Step

variable {cfg : Config} {s s' : Live} {view table : Ladder} {sys sys' : Sys} {a : Action}

/-- Apart from the inserts of a plan, an action is one of the system under the copy. -/
def Action.inserts : Action → Bool
  | .submit _ _ _ _ _ => true
  | .seed _ _ _ _ => true
  | _ => false

theorem stepUnder_eq (h : a.inserts = false) :
    stepUnder cfg view table sys a = ReliableAgents.step { cfg with ladder := view } sys a := by
  cases a with
  | submit | seed => cases h
  | _ => rfl

theorem stepUnder_spec (h : stepUnder cfg view table sys a = some sys') :
    sys' = sys ∨ ∃ ladder a', ReliableAgents.step { cfg with ladder := ladder } sys a' = some sys' := by
  by_cases hinserts : a.inserts = true
  · cases a with
    | submit forceTier plan agentIds ids now =>
        simp only [stepUnder] at h
        split at h
        · exact Or.inl (Option.some.inj h).symm
        · exact Or.inr ⟨_, _, h⟩
    | seed plan agentIds ids now => exact Or.inr ⟨table, .seed plan agentIds ids now, h⟩
    | _ => cases hinserts
  · rw [stepUnder_eq (by simpa using hinserts)] at h
    exact Or.inr ⟨_, _, h⟩

theorem Live.step_act {q : Nat} (h : Live.step cfg s (.act q a) = some s') :
    stepUnder cfg (s.view (a.process q)) s.tiers s.sys a = some s'.sys ∧ s'.tiers = s.tiers ∧
      s'.cache = (s.keepCopy cfg q a).cache := by
  simp only [Live.step] at h
  split at h
  · cases h
  · rename_i sys hstep
    cases h
    refine ⟨hstep, ?_, rfl⟩
    simp only [Live.keepCopy]
    split
    · rfl
    · split <;> rfl

theorem Live.copy_of_step {act : LiveAction} (h : Live.step cfg s act = some s') {process : Process}
    {copy : Ladder} (hcopy : s'.cache process = some copy) :
    s.cache process = some copy ∨ copy = s.view process ∨ copy = s.tiers := by
  have set : ∀ other new, (s.setCache other new).cache process = some copy →
      s.cache process = some copy ∨ (other = process ∧ new = some copy) := by
    intro other new hset
    simp only [Live.setCache, Function.update_apply] at hset
    split at hset
    · rename_i heq
      exact Or.inr ⟨heq.symm, hset⟩
    · exact Or.inl hset
  cases act with
  | act q a =>
      obtain ⟨-, -, hcache⟩ := Live.step_act h
      rw [hcache, Live.keepCopy.eq_def] at hcopy
      split at hcopy
      · rcases set _ _ hcopy with hold | ⟨-, hnone⟩
        · exact Or.inl hold
        · cases hnone
      · split at hcopy
        · rcases set _ _ hcopy with hold | ⟨rfl, hnew⟩
          · exact Or.inl hold
          · exact Or.inr (Or.inl (Option.some.inj hnew).symm)
        · exact Or.inl hcopy
  | insert tier rerank =>
      simp only [Live.step] at h
      split at h
      · cases h
      · cases h
        exact Or.inl hcopy
  | allTiers other refresh =>
      cases h
      rcases set _ _ hcopy with hold | ⟨rfl, hnew⟩
      · exact Or.inl hold
      · cases refresh with
        | false => exact Or.inr (Or.inl (Option.some.inj hnew).symm)
        | true => exact Or.inr (Or.inr (Option.some.inj hnew).symm)
  | invalidate other =>
      cases h
      rcases set _ _ hcopy with hold | ⟨-, hnone⟩
      · exact Or.inl hold
      · cases hnone

/-- The table only grows. -/
theorem Live.grown_of_step {act : LiveAction} (h : Live.step cfg s act = some s') :
    s.tiers.Grown s'.tiers := by
  cases act with
  | act q a => exact (Live.step_act h).2.1 ▸ .refl _
  | insert tier rerank =>
      simp only [Live.step] at h
      split at h
      · cases h
      · rename_i tiers htiers
        cases h
        exact Ladder.grown_of_insert? htiers
  | allTiers | invalidate =>
      cases h
      exact .refl _

end Step

/-! ## Copies and rows in every run -/

section Runs

variable {cfg : Config} {s s' : Live} {ts : List LiveTransition}

/-- Every copy is an earlier state of the table. -/
def Live.Copied (s : Live) : Prop :=
  ∀ process copy, s.cache process = some copy → copy.Grown s.tiers

theorem Live.Copied.view (h : s.Copied) (process : Process) : (s.view process).Grown s.tiers := by
  unfold Live.view allTiers
  cases hcache : s.cache process with
  | none => exact .refl _
  | some copy => exact h process copy hcache

theorem LiveRun.copied (h : LiveRun cfg ts s) : s.Copied := by
  refine h.invariant (I := Live.Copied) (fun _ _ hcopy => by cases hcopy) fun u a u' hI hstep => ?_
  intro process copy hcopy
  have hgrown := Live.grown_of_step hstep
  rcases Live.copy_of_step hstep hcopy with hold | rfl | rfl
  · exact (hI process copy hold).trans hgrown
  · exact (hI.view process).trans hgrown
  · exact hgrown

/-- Work is at the cursor, and handouts name rows that are there. -/
def Live.Orderly (s : Live) : Prop := (Lossy.mk s.sys []).Orderly

theorem Live.Orderly.step {act : LiveAction} (hI : s.Orderly)
    (h : Live.step cfg s act = some s') : s'.Orderly := by
  cases act with
  | act q a =>
      rcases stepUnder_spec (Live.step_act h).1 with hsame | ⟨ladder, a', hstep⟩
      · rw [Live.Orderly, hsame]
        exact hI
      · refine @Lossy.Orderly.act { cfg with ladder := ladder } _ ⟨s'.sys, []⟩ a' hI ?_
        simp [Lossy.step, hstep, Table.select]
  | insert tier rerank =>
      simp only [Live.step] at h
      split at h
      · cases h
      · cases h
        exact hI
  | allTiers | invalidate =>
      cases h
      exact hI

theorem LiveRun.orderly (h : LiveRun cfg ts s) : s.Orderly := by
  refine h.invariant (I := Live.Orderly) ?_ fun u a u' hI hstep => hI.step hstep
  exact @LossyRun.orderly cfg _ _ .nil

/-- Work is at the cursor whatever ladders the processes go by. -/
theorem LiveRun.atCursor (h : LiveRun cfg ts s) : s.sys.db.AtCursor := h.orderly.cursor

end Runs

end ReliableAgents
