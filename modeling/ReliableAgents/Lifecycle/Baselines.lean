import ReliableAgents.Common.TierTable
import ReliableAgents.Effects.AtMostOnce
import ReliableAgents.Lifecycle.CostLedger
import ReliableAgents.Lifecycle.PriorContext

/-!
# The spend between its baselines

A handout that runs its task is charged the price of its tier. One that finds the
action settled is charged nothing, and the run that settled it was never charged
either: it did not reach its checkpoint. The baselines count both as one success.
-/

namespace ReliableAgents

open Relational

/-- `run_task` finds the action of the task in hand settled, and returns what it stored. -/
def Suppresses (cfg : Config) (c : SysTransition) (p : Nat) (task : Handout) : Prop :=
  ∃ now started ctx r, c.action = .begin p now ∧
    (c.before.workers p).phase = .reserving task started ctx ∧
    c.before.db.reservation
      (Ledger.actionId cfg.sha256 task.agentId.str task.seq task.actionType) = some r ∧
    r.state = .done

def Action.begins : Action → Bool
  | .begin _ _ => true
  | _ => false

/-- The handout `p` has claimed last is one that was suppressed. -/
def Replaying (cfg : Config) (ts : List SysTransition) (p : Nat) (task : Handout) : Prop :=
  ∃ pre d post, ts = pre ++ d :: post ∧ Suppresses cfg d p task ∧
    ∀ e ∈ post, e.action.claimer? ≠ some p

/-- A worker that still holds its lease checkpoints a suppressed handout. -/
def CommitsReplay (cfg : Config) (ts : List SysTransition) : Prop :=
  ∃ pre c post p now task t, ts = pre ++ c :: post ∧ Replaying cfg pre p task ∧
    c.action = .checkpoint p now ∧ (c.before.workers p).phase.task? = some task ∧
    c.before.db.task task.id = some t ∧ t.status = .running ∧
    t.leaseOwner = some (cfg.workerId p)

section Charges

variable {cfg : Config} {ts : List SysTransition} {s s' : Sys} {a : Action} {p : Nat}
  {task : Handout}

theorem Replaying.snoc (h : Replaying cfg ts p task) {c : SysTransition}
    (hc : c.action.claimer? ≠ some p) : Replaying cfg (ts ++ [c]) p task := by
  obtain ⟨pre, d, post, rfl, hsuppresses, hpost⟩ := h
  refine ⟨pre, d, post ++ [c], by simp, hsuppresses, fun e he => ?_⟩
  rcases List.mem_append.1 he with he | he
  · exact hpost e he
  · rw [List.mem_singleton.1 he]
    exact hc

theorem CommitsReplay.snoc (h : CommitsReplay cfg ts) (c : SysTransition) :
    CommitsReplay cfg (ts ++ [c]) := by
  obtain ⟨pre, d, post, p, now, task, t, rfl, hrest⟩ := h
  exact ⟨pre, d, post ++ [c], p, now, task, t, by simp, hrest⟩

/-- What a worker is about to be charged for: the price of its tier, unless it was
suppressed. -/
def Phase.Charged (cfg : Config) (ts : List SysTransition) (p : Nat) : Phase → Prop
  | .finished task _ _ cost tokens _ | .committing task _ _ cost tokens =>
      cfg.ladder.costOf task.tier = some (cost, tokens) ∨ Replaying cfg ts p task
  | _ => True

theorem Phase.Charged.snoc {phase : Phase} (h : phase.Charged cfg ts p) {c : SysTransition}
    (hc : c.action.claimer? ≠ some p) : phase.Charged cfg (ts ++ [c]) p := by
  cases phase with
  | finished | committing => exact Or.imp_right (fun hreplay => hreplay.snoc hc) h
  | _ => trivial

section Copies

variable {view : Ladder}

theorem finishTask_charged (hview : view.Grown cfg.ladder) (task : Handout) (started : Time)
    (result : PyDict) : (finishTask view task started result).Charged cfg ts p := by
  unfold finishTask
  split
  · trivial
  · rename_i price hprice
    exact Or.inl (hview.costOf hprice)

theorem afterRun_charged (hview : view.Grown cfg.ladder) (task : Handout) (started : Time)
    (actionKey : Option ActionId) (outcome : RunOutcome) :
    (afterRun view task started actionKey outcome).Charged cfg ts p := by
  have hfails (failure : TaskFailure) : (failTask task started failure).Charged cfg ts p :=
    failTask_of trivial fun _ _ => trivial
  unfold afterRun
  split
  · exact hfails _
  · exact hfails _
  · exact hfails _
  · split
    · trivial
    · exact finishTask_charged hview ..

theorem settleAction_charged (hview : view.Grown cfg.ladder) (task : Handout) (started : Time)
    (actionKey : ActionId) (result : PyDict) (now : Time) (db : Db) :
    (settleAction view task started actionKey result now db).1.Charged cfg ts p := by
  unfold settleAction
  split
  · trivial
  · exact finishTask_charged hview ..

end Copies

/-- Only a suppressed handout leaves the ledger with something to checkpoint. -/
theorem beginAction_charged {started now : Time} {ctx : TaskContext}
    (hphase : (s.workers p).phase = .reserving task started ctx) :
    (beginAction cfg.sha256 task started ctx now s.db).1.Charged cfg
      (ts ++ [⟨s, .begin p now, s'⟩]) p := by
  unfold beginAction
  cases hbegin : Ledger.begin cfg.sha256 task.agentId task.seq task.actionType now s.db with
  | none => trivial
  | some answer =>
      obtain ⟨status, stored, key, db'⟩ := answer
      cases status with
      | proceed => trivial
      | inFlight => trivial
      | done =>
          obtain ⟨rfl, ⟨hproceed, -⟩ | ⟨-, r, hr, ⟨-, hdone, -⟩ | ⟨hinFlight, -⟩⟩⟩ :=
            Ledger.begin_spec hbegin
          · cases hproceed
          · exact Or.inr ⟨ts, _, [], rfl, ⟨now, started, ctx, r, rfl, hphase, hr, hdone⟩, by simp⟩
          · cases hinFlight

theorem claimer?_idle (h : step cfg s a = some s') (ha : a.claimer? = some p) :
    (s.workers p).phase = .idle := by
  cases a with
  | claim q now started locked =>
      cases ha
      simp only [step] at h
      split at h
      · assumption
      · cases h
  | _ => cases ha

theorem Phase.Charged.step {view : Ladder} (hcharged : (s.workers p).phase.Charged cfg ts p)
    (hview : view.Grown cfg.ladder)
    (hs : ReliableAgents.step { cfg with ladder := view } s a = some s') :
    (s'.workers p).phase.Charged cfg (ts ++ [⟨s, a, s'⟩]) p := by
  rcases step_phase hs p with hsame | hstep
  · rw [hsame]
    by_cases hclaims : a.claimer? = some p
    · rw [claimer?_idle hs hclaims]
      trivial
    · exact hcharged.snoc hclaims
  · generalize hbefore : (s.workers p).phase = phase at hstep hcharged
    generalize (s'.workers p).phase = phase' at hstep ⊢
    cases hstep with
    | claim | stop => trivial
    | load =>
        unfold startTask
        repeat' split
        all_goals trivial
    | begin hbegin =>
        rw [show phase' = _ from (congrArg Prod.fst hbegin).symm]
        exact beginAction_charged hbefore
    | run => exact afterRun_charged hview ..
    | settle hsettle =>
        rw [show phase' = _ from (congrArg Prod.fst hsettle).symm]
        exact settleAction_charged hview ..
    | confirm => exact hcharged.snoc (by simp [Action.claimer?])

theorem SysRun.charged (h : SysRun cfg ts s) (p : Nat) :
    (s.workers p).phase.Charged cfg ts p :=
  h.invariant_along (I := fun us u => (u.workers p).phase.Charged cfg us p) (fun _ => True)
    trivial (fun _ _ _ _ _ _ hcharged hs _ => hcharged.step (.refl _) hs) (fun _ _ => trivial)

/-! ## The rows that are charged -/

/-- A commit charges the price of the tier the row is at. -/
def priced (ladder : Ladder) : Rules :=
  { Rules.free with
    commit := fun _ _ task _ cost tokens => ladder.costOf task.tier = some (cost, tokens) }

theorem SysRun.priced_holdAlong (h : SysRun cfg ts s) (hfresh : ¬ CommitsReplay cfg ts) :
    (priced cfg.ladder).HoldAlong cfg ts := by
  intro c hc
  obtain ⟨pre, post, rfl, hpre, -, -⟩ := h.exists_split hc
  refine { Rules.free_hold cfg c.before c.action with commit := ?_ }
  intro p now task started fields cost tokens t ag haction hphase ht howner hrunning _
  have hcharged := SysRun.charged hpre p
  rw [hphase] at hcharged
  rcases hcharged with hprice | hreplay
  · exact hprice
  · refine absurd ⟨pre, c, post, p, now, task, t, rfl, hreplay, haction, ?_, ht, hrunning, howner⟩
      hfresh
    rw [hphase]
    rfl

/-- Every success in the evidence was paid for at the price of its tier. -/
def TaskView.Priced (ladder : Ladder) (v : TaskView) : Prop :=
  ∀ e ∈ v.evidence, e.outcome = .succeeded →
    ladder.costOf e.tier = some (e.costUnits, e.tokens)

theorem TaskView.Priced.step {ladder : Ladder} {v v' : TaskView} (h : v.Priced ladder)
    (hs : TaskStep ladder (priced ladder) v v') : v'.Priced ladder := by
  have record : ∀ {e : Attempt}, v'.evidence = v.evidence ++ [e] →
      (e.outcome = .succeeded → ladder.costOf e.tier = some (e.costUnits, e.tokens)) →
        v'.Priced ladder := by
    intro e hevidence he e' he'
    rw [hevidence] at he'
    rcases List.mem_append.1 he' with hold | hnew
    · exact h e' hold
    · rw [List.mem_singleton.1 hnew]
      exact he
  cases hs with
  | claim | kill | cancel => exact h
  | commit ag task fields cost tokens workerId started now _ _ _ hprice =>
      exact record rfl fun _ => hprice
  | row hrow =>
      cases hrow with
      | renew | retry | promote => exact h
      | report | reclaim => exact record rfl (by simp [Handout.attemptRow, TaskInstance.reclaimRow])

theorem SysRun.priced (h : SysRun cfg ts s) (hfresh : ¬ CommitsReplay cfg ts) :
    ∀ e ∈ s.db.attempts, e.outcome = .succeeded →
      cfg.ladder.costOf e.tier = some (e.costUnits, e.tokens) := by
  intro e he hsucceeded
  obtain ⟨t, ht⟩ := (SysRun.sound h).db.attempts e he
  obtain ⟨-, -, t₀, -, -, hpath⟩ := h.task_history (h.priced_holdAlong hfresh) ht
  have hpriced : (s.db.taskView t).Priced cfg.ladder :=
    Machine.closure_invariant (I := fun v => v.Priced cfg.ladder)
      (fun _ _ hv hs => TaskView.Priced.step hv hs) (fun _ hnone => by cases hnone) hpath
  refine hpriced e ?_ hsucceeded
  exact List.mem_filter.2 ⟨he, decide_eq_true (Db.id_of_task ht).symm⟩

end Charges

/-! ## The bracket -/

/-- Where the counted rows are between two prices and the others are free, so is the sum. -/
theorem sum_between {ρ : Type} {rows : List ρ} {counted : ρ → Bool} {f : ρ → Int} (lo hi : Int)
    (hcounted : ∀ r ∈ rows, counted r = true → lo ≤ f r ∧ f r ≤ hi)
    (hfree : ∀ r ∈ rows, counted r = false → f r = 0) :
    rows.countP counted * lo ≤ (rows.map f).sum ∧ (rows.map f).sum ≤ rows.countP counted * hi := by
  induction rows with
  | nil => simp
  | cons r rest ih =>
      simp only [List.forall_mem_cons] at hcounted hfree
      obtain ⟨hlo, hhi⟩ := ih hcounted.2 hfree.2
      rw [List.map_cons, List.sum_cons]
      cases hr : counted r with
      | true =>
          obtain ⟨hle, hge⟩ := hcounted.1 hr
          rw [List.countP_cons_of_pos hr]
          push_cast
          constructor <;> linarith
      | false =>
          rw [List.countP_cons_of_neg (by simp [hr]), hfree.1 hr]
          constructor <;> linarith

/-- The costs of a ladder do not decrease with rank. -/
def Ladder.CostsClimb (ladder : Ladder) : Prop :=
  ladder.tiers.Pairwise fun s t => s.costUnits ≤ t.costUnits

theorem Ladder.CostsClimb.between {ladder : Ladder} (h : ladder.CostsClimb) {cheap dear t : Tier}
    (hcheap : ladder.tiers.head? = some cheap) (hdear : ladder.tiers.getLast? = some dear)
    (ht : t ∈ ladder.tiers) : cheap.costUnits ≤ t.costUnits ∧ t.costUnits ≤ dear.costUnits := by
  unfold CostsClimb at h
  constructor
  · obtain ⟨rest, hrest⟩ := List.head?_eq_some_iff.1 hcheap
    rw [hrest] at h ht
    rcases List.mem_cons.1 ht with rfl | ht
    · exact le_refl _
    · exact List.rel_of_pairwise_cons h ht
  · obtain ⟨front, hfront⟩ := List.getLast?_eq_some_iff.1 hdear
    rw [hfront] at h ht
    rcases List.mem_append.1 ht with ht | ht
    · exact (List.pairwise_append.1 h).2.2 t ht dear (List.mem_singleton_self _)
    · rw [List.mem_singleton.1 ht]

theorem Ladder.mem_of_costOf {ladder : Ladder} {name : TierName} {cost tokens : Int}
    (h : ladder.costOf name = some (cost, tokens)) :
    ∃ t ∈ ladder.tiers, t.name = name ∧ t.costUnits = cost := by
  obtain ⟨t, ht, heq⟩ := Option.map_eq_some_iff.1 h
  exact ⟨t, List.mem_of_find?_eq_some ht, by simpa using List.find?_some ht,
    congrArg Prod.fst heq⟩

/-- As long as no checkpoint commits a suppressed handout, the spend is between the
baselines, and it is the dearer one when all evidence is at the top tier. -/
theorem baselines_bracket {cfg : Config} {ts : List SysTransition} {s : Sys}
    (hclimb : cfg.ladder.CostsClimb) (h : SysRun cfg ts s) (hfresh : ¬ CommitsReplay cfg ts)
    {now : Time} {m : Metrics.Snapshot}
    (hm : Metrics.snapshot cfg.ladder cfg.leaseTtlSeconds now s.db = some m) :
    m.cost.allJuniorBaseline ≤ m.cost.unitsSpent ∧
      m.cost.unitsSpent ≤ m.cost.allSeniorBaseline ∧
      ((∀ e ∈ s.db.attempts, cfg.ladder.topTier = some e.tier) →
        m.cost.unitsSpent = m.cost.allSeniorBaseline) := by
  obtain ⟨cheap, dear, hcheap, hdear, hspent, hjunior, hsenior⟩ := Metrics.snapshot_cost hm
  have hbalanced := SysRun.balanced h
  have hfree : ∀ e ∈ s.db.attempts, (e.outcome = .succeeded : Bool) = false → e.costUnits = 0 :=
    fun e he hne => congrArg Prod.fst (hbalanced.free e he (of_decide_eq_false hne))
  have hprice : ∀ e ∈ s.db.attempts, (e.outcome = .succeeded : Bool) = true →
      ∃ t ∈ cfg.ladder.tiers, t.name = e.tier ∧ t.costUnits = e.costUnits :=
    fun e he hdone => Ladder.mem_of_costOf (SysRun.priced h hfresh e he (of_decide_eq_true hdone))
  rw [hspent, hjunior, hsenior, hbalanced.spent fun e he => SysRun.attempt_owner h he]
  have hbetween := sum_between cheap.costUnits dear.costUnits
    (fun e he hdone => by
      obtain ⟨t, ht, -, hcost⟩ := hprice e he hdone
      exact hcost ▸ hclimb.between hcheap hdear ht) hfree
  refine ⟨hbetween.1, hbetween.2, fun htop => ?_⟩
  have hexact := sum_between dear.costUnits dear.costUnits
    (fun e he hdone => by
      obtain ⟨t, ht, hname, hcost⟩ := hprice e he hdone
      have hlast := htop e he
      rw [Ladder.topTier, hdear, Option.map_some, Option.some.injEq, ← hname] at hlast
      have heq : t = dear := List.inj_on_of_nodup_map cfg.ladder.named ht
        (List.mem_of_getLast? hdear) hlast.symm
      rw [← hcost, heq]
      exact ⟨le_refl _, le_refl _⟩) hfree
  exact le_antisymm hexact.2 hexact.1

theorem seededLadder_climbs : seededLadder.CostsClimb := by
  unfold Ladder.CostsClimb
  decide

def settledTicket : List Action :=
  [submitPlan [40], .claim 0 0 0 unlocked, .load 0, .begin 0 0, .run 0 ticketCreated,
    .settle 0 (seconds 1), .confirm 0, .checkpoint 0 (seconds 2)]

theorem baselines_bracket_settledTicket :
    ∃ m, Metrics.snapshot seededLadder 30 0 (ran oneHost settledTicket).2.db = some m ∧
      m.cost.unitsSpent = 1 ∧ m.cost.allJuniorBaseline ≤ m.cost.unitsSpent ∧
        m.cost.unitsSpent ≤ m.cost.allSeniorBaseline := by
  have hfresh : ¬ CommitsReplay oneHost (ran oneHost settledTicket).1 := by
    have hnone : ∀ c ∈ (ran oneHost settledTicket).1, c.action.begins = true →
        ∀ r ∈ c.before.db.idempotency.rows, r.state ≠ .done := by
      decide +kernel
    rintro ⟨pre, c, post, p, -, task, -, hts, ⟨us, d, vs, rfl, hsuppresses, -⟩, -⟩
    obtain ⟨now, -, -, r, haction, -, hr, hdone⟩ := hsuppresses
    have hbegins : d.action.begins = true := by rw [haction]; rfl
    exact hnone d (by simp [hts]) hbegins r (Table.mem_of_get? hr) hdone
  have hbracket := @baselines_bracket oneHost _ _ seededLadder_climbs
    (run_ran oneHost settledTicket) hfresh 0 _ rfl
  exact ⟨_, rfl, by decide +kernel, hbracket.1, hbracket.2.1⟩

/-- A worker dies between its action and its checkpoint, and the handout that replays the
action is free: the success that cost nothing is below both baselines. -/
theorem baselines_bracket_crashAfterSuccess :
    ∃ ts s m, SysRun oneHost ts s ∧ seededLadder.CostsClimb ∧
      Metrics.snapshot seededLadder 30 (seconds 41) s.db = some m ∧
      m.cost.unitsSpent = 0 ∧ m.cost.allJuniorBaseline = 1 ∧
      ¬ m.cost.allJuniorBaseline ≤ m.cost.unitsSpent :=
  ⟨_, _, _, run_ran oneHost crashAfterSuccess, seededLadder_climbs, rfl, by decide +kernel,
    by decide +kernel, by decide +kernel⟩

end ReliableAgents
