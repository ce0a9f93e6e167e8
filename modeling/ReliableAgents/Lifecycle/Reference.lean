import ReliableAgents.Common.Tiers
import ReliableAgents.Orchestrator.Classify

/-!
# The sequential reference interpreter

One worker that never dies, alone with the plan: it takes the tasks in order and
climbs the ladder from the creation tier at each of them. It knows no leases, no
attempts and no budgets.
-/

namespace ReliableAgents

/-- What `task_def.run` makes of a task: a JSON object, or a failure of some class. -/
inductive TaskOutcome where
  | result (fields : JsonObject)
  | failure (failureClass : FailureClass)
deriving DecidableEq, Repr

abbrev Behaviour := Int → TierName → Context → TaskOutcome

/-- What an agent has to show: `tiers` are those of its executed rows, `failures` the
classes of its dead letters. -/
structure Standing where
  status : AgentStatus := .running
  cursor : Nat := 0
  context : Context := []
  costUnits : Int := 0
  tokensUsed : Int := 0
  tiers : List (Nat × TierName) := []
  failures : List FailureClass := []
deriving DecidableEq, Repr

namespace Standing

def committed (fields : JsonObject) (tier : Tier) (s : Standing) : Standing :=
  { s with
    cursor := s.cursor + 1
    context := s.context ++ [(s.cursor, fields)]
    costUnits := s.costUnits + tier.costUnits
    tokensUsed := s.tokensUsed + tier.tokens
    tiers := s.tiers ++ [(s.cursor, tier.name)] }

def completed (s : Standing) : Standing := { s with status := .completed }

def failed (failureClass : FailureClass) (tier : TierName) (s : Standing) : Standing :=
  { s with
    status := .failed
    tiers := s.tiers ++ [(s.cursor, tier)]
    failures := s.failures ++ [failureClass] }

end Standing

/-- The flags let a task leave its tier. -/
def Flags.climbs (flags : Flags) : Bool :=
  flags.retriesEnabled && flags.escalationEnabled && flags.forceTier.isNone

def Ladder.rungs (ladder : Ladder) (name : TierName) : List Tier :=
  ladder.tiers.dropWhile fun t => t.name ≠ name

/-- How one task ends: with a result at a tier, or dead at a tier. -/
inductive Ending where
  | result (fields : JsonObject) (tier : Tier)
  | dead (failureClass : FailureClass) (tier : TierName)
deriving DecidableEq, Repr

/-- One task on the rungs that are left; `none` on no rung at all. -/
def climb (flags : Flags) (run : TierName → TaskOutcome) : List Tier → Option Ending
  | [] => none
  | tier :: above =>
      match run tier.name with
      | .result fields => some (.result fields tier)
      | .failure failureClass =>
          if failureClass = .capability ∧ flags.climbs = true ∧ above ≠ [] then
            climb flags run above
          else some (.dead failureClass tier.name)

/-- The rest of a plan, its first task on the rungs given and the others from `base`. -/
def resume (flags : Flags) (behaviour : Behaviour) (base : List Tier) :
    List Int → List Tier → Standing → Option Standing
  | [], _, s => some s.completed
  | taskDefId :: rest, rungs, s =>
      match climb flags (fun tier => behaviour taskDefId tier s.context) rungs with
      | none => none
      | some (.result fields tier) =>
          resume flags behaviour base rest base (s.committed fields tier)
      | some (.dead failureClass tier) => some (s.failed failureClass tier)

/-- A whole plan, from the tier its rows were created at. -/
def reference (ladder : Ladder) (flags : Flags) (behaviour : Behaviour) (tier : TierName)
    (plan : List Int) : Option Standing :=
  resume flags behaviour (ladder.rungs tier) plan (ladder.rungs tier) {}

/-! ## Rungs -/

section Rungs

variable {ladder : Ladder} {flags : Flags} {run : TierName → TaskOutcome} {t : Tier}
  {below above : List Tier}

theorem nextAfter_of_cut (hbelow : ∀ u ∈ below, u.name ≠ t.name) :
    Ladder.nextAfter t.name (below ++ t :: above) = above.head?.map Tier.name := by
  induction below with
  | nil => simp [Ladder.nextAfter]
  | cons u below ih =>
      have hu : u.name ≠ t.name := hbelow u List.mem_cons_self
      simp only [List.cons_append, Ladder.nextAfter, if_neg hu]
      exact ih fun w hw => hbelow w (List.mem_cons_of_mem _ hw)

theorem Ladder.below_ne (hcut : ladder.tiers = below ++ t :: above) :
    ∀ u ∈ below, u.name ≠ t.name := by
  intro u hu heq
  have hnamed := ladder.named
  rw [hcut, List.map_append, List.map_cons, List.nodup_append] at hnamed
  exact hnamed.2.2 u.name (List.mem_map_of_mem hu) t.name List.mem_cons_self heq

theorem Ladder.rungs_of_cut (hcut : ladder.tiers = below ++ t :: above) :
    ladder.rungs t.name = t :: above := by
  have hne := Ladder.below_ne hcut
  unfold Ladder.rungs
  rw [hcut, List.dropWhile_append_of_pos]
  · simp
  · intro u hu
    simp [hne u hu]

theorem Ladder.nextTier_of_cut (hcut : ladder.tiers = below ++ t :: above) :
    ladder.nextTier t.name = above.head?.map Tier.name := by
  unfold Ladder.nextTier
  rw [hcut]
  exact nextAfter_of_cut (Ladder.below_ne hcut)

theorem Ladder.tier_of_cut (hcut : ladder.tiers = below ++ t :: above) :
    ladder.tier t.name = some t := by
  have hne := Ladder.below_ne hcut
  unfold Ladder.tier
  rw [hcut, List.find?_append, List.find?_eq_none.2]
  · simp
  · intro u hu
    simp [hne u hu]

theorem Ladder.cut_of_mem {name : TierName} (h : name ∈ ladder.names) :
    ∃ below t above, ladder.tiers = below ++ t :: above ∧ t.name = name := by
  obtain ⟨t, ht, hname⟩ := List.mem_map.1 h
  obtain ⟨below, above, hcut⟩ := List.append_of_mem ht
  exact ⟨below, t, above, hcut, hname⟩

/-! ## One rung -/

theorem climb_result {name : TierName} {fields : JsonObject} (hname : name ∈ ladder.names)
    (hrun : run name = .result fields) :
    ∃ t, ladder.tier name = some t ∧
      climb flags run (ladder.rungs name) = some (.result fields t) := by
  obtain ⟨below, t, above, hcut, rfl⟩ := Ladder.cut_of_mem hname
  refine ⟨t, Ladder.tier_of_cut hcut, ?_⟩
  rw [Ladder.rungs_of_cut hcut, climb, hrun]

theorem climb_next {name next : TierName} (hrun : run name = .failure .capability)
    (hclimbs : flags.climbs = true) (hnext : ladder.nextTier name = some next) :
    climb flags run (ladder.rungs name) = climb flags run (ladder.rungs next) := by
  obtain ⟨below, t, above, hcut, rfl⟩ := Ladder.cut_of_mem (Ladder.mem_of_nextTier hnext)
  rw [Ladder.nextTier_of_cut hcut] at hnext
  cases above with
  | nil => cases hnext
  | cons u above =>
      cases hnext
      have hcut' : ladder.tiers = (below ++ [t]) ++ u :: above := by
        rw [hcut, List.append_assoc]
        rfl
      rw [Ladder.rungs_of_cut hcut, Ladder.rungs_of_cut hcut', climb, hrun]
      exact if_pos ⟨rfl, hclimbs, List.cons_ne_nil u above⟩

theorem climb_dead {name : TierName} {failureClass : FailureClass} (hname : name ∈ ladder.names)
    (hrun : run name = .failure failureClass)
    (hstuck : failureClass ≠ .capability ∨ flags.climbs = false ∨ ladder.nextTier name = none) :
    climb flags run (ladder.rungs name) = some (.dead failureClass name) := by
  obtain ⟨below, t, above, hcut, rfl⟩ := Ladder.cut_of_mem hname
  rw [Ladder.nextTier_of_cut hcut] at hstuck
  rw [Ladder.rungs_of_cut hcut, climb, hrun]
  refine if_neg ?_
  rintro ⟨hcapability, hclimbs, habove⟩
  rcases hstuck with hother | hpinned | htop
  · exact hother hcapability
  · rw [hpinned] at hclimbs
    cases hclimbs
  · cases above with
    | nil => exact habove rfl
    | cons u above => cases htop

end Rungs

/-! ## The interpreter and the verdict -/

section Verdict

variable {ladder : Ladder} {flags : Flags} {failureClass : FailureClass} {task : TaskInstance}
  {spent : Budgets}

theorem climbs_of_promote {tier : TierName}
    (h : verdict ladder flags failureClass task spent = .promote tier) : flags.climbs = true := by
  unfold verdict at h
  split at h
  · cases h
  rename_i hguard
  split at h
  · split at h <;> cases h
  split at h
  · cases h
  split at h
  · cases h
  rename_i hescalates
  simp only [not_or, Bool.not_eq_false, not_not] at hguard hescalates
  simp [Flags.climbs, hguard.2.2, hescalates.1, hescalates.2]

/-- Short of the runaway guard, a task is buried only where the interpreter gives up. -/
theorem stuck_of_deadLetter (h : verdict ladder flags failureClass task spent = .deadLetter)
    (hattempt : task.attempt < maxTotalAttempts) :
    failureClass ≠ .capability ∨ flags.climbs = false ∨ ladder.nextTier task.tier = none := by
  by_cases hcapability : failureClass = .capability
  · right
    subst hcapability
    by_cases hclimbs : flags.climbs = true
    · right
      simp only [Flags.climbs, Bool.and_eq_true, Option.isNone_iff_eq_none] at hclimbs
      obtain ⟨⟨hretries, hescalates⟩, hfree⟩ := hclimbs
      simp only [verdict, hretries, hescalates, hfree] at h
      rw [if_neg (by simp [hattempt]), if_neg (by decide)] at h
      split at h
      · cases h
      · cases hnext : ladder.nextTier task.tier with
        | none => rfl
        | some tier => simp [hnext] at h
    · exact Or.inl (by simpa using hclimbs)
  · exact Or.inl hcapability

end Verdict

end ReliableAgents
