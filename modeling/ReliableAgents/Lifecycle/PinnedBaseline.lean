import ReliableAgents.Lifecycle.AtCursor
import ReliableAgents.Lifecycle.Pinned
import ReliableAgents.Lifecycle.Toggles

/-!
# The pinned baseline

A submission and a classification read `force_tier` through `flags()`, each in a process of
its own, so either may go by a copy from before the flag was set. Here rows are lost, clients
change the table, and processes come and go; the flag is known to say one tier only from some
time before the first agent on.
-/

namespace ReliableAgents

open Machine Relational

/-- The system in which rows are lost, with what each process has cached of the flags. -/
structure Cached where
  lossy : Lossy
  readers : Nat → FlagReader
  /-- The submissions under way: who serves them, and what `force_tier()` returned. -/
  asked : List (Nat × Option TierName)
  clock : Time

inductive CachedAction where
  /-- Anything that reads no flag. -/
  | act (a : LossyAction)
  /-- A submission whose plan is known calls `force_tier()`. -/
  | ask (o : Nat) (call : FlagCall)
  /-- The transaction of a submission that has. -/
  | submit (o : Nat) (forceTier : Option TierName) (plan : List Int) (agentIds : List Uuid)
      (ids : Uuid → Nat → Uuid) (now : Time)
  | classify (o limit : Nat) (calls : List FlagCall) (now : Time) (locked : Uuid → Bool)
  /-- Another process takes this one's place. -/
  | restart (o : Nat)

/-- An action, and when it is over. -/
structure CachedStep where
  action : CachedAction
  ends : Time

def LossyAction.readsFlags : LossyAction → Bool
  | .act (.submit _ _ _ _ _) | .act (.classify _ _ _ _) => true
  | _ => false

namespace Cached

def init : Cached where
  lossy := .init
  readers := fun _ => {}
  asked := []
  clock := 0

def setReader (s : Cached) (o : Nat) (r : FlagReader) : Nat → FlagReader :=
  Function.update s.readers o { r with calls := [] }

def step (cfg : Config) (str : Json → String) (table : Time → RuntimeConfig) (s : Cached)
    (a : CachedStep) : Option Cached :=
  if a.ends < s.clock then none
  else
    match a.action with
    | .act act =>
        if act.readsFlags then none
        else
          (Lossy.step cfg s.lossy act).map fun lossy => { s with lossy := lossy, clock := a.ends }
    | .ask o call =>
        if a.ends < call.queried then none
        else
          (FlagReader.call table { s.readers o with calls := [call] }).map fun answer =>
            { s with
              readers := s.setReader o answer.2
              asked := (o, forceTier str answer.1) :: s.asked
              clock := a.ends }
    | .submit o forceTier plan agentIds ids now =>
        if (o, forceTier) ∈ s.asked then
          (Lossy.step cfg s.lossy (.act (.submit forceTier plan agentIds ids now))).map fun lossy =>
            { s with lossy := lossy, asked := s.asked.erase (o, forceTier), clock := a.ends }
        else none
    | .classify o limit calls now locked =>
        if ∀ call ∈ calls, s.clock ≤ call.now ∧ call.queried ≤ a.ends then
          (FlagReader.classifyRows str cfg.ladder table now
            (takeFailed limit locked s.lossy.sys.db) s.lossy.sys.db
            { s.readers o with calls := calls }).map fun answer =>
              { s with
                lossy :=
                  { s.lossy with sys := s.lossy.sys.setDb (answer.1.getD s.lossy.sys.db) }
                readers := s.setReader o answer.2
                clock := a.ends }
        else none
    | .restart o =>
        some
          { s with
            readers := s.setReader o { s.readers o with cache := none }
            asked := s.asked.filter fun r => r.1 ≠ o
            clock := a.ends }

end Cached

abbrev CachedTransition := Machine.Transition Cached CachedStep

/-- `force_tier` is `tier` from `start` on. -/
def PinnedFrom (str : Json → String) (table : Time → RuntimeConfig) (tier : TierName)
    (start : Time) : Prop :=
  ∀ t, start ≤ t → forceTier str (mergedFlags (table t)) = some tier

/-- One of the rows would be promoted by these flags. -/
def Promotes (str : Json → String) (ladder : Ladder) (rows : List TaskInstance) (db : Db)
    (flags : RuntimeConfig) : Prop :=
  ∃ t ∈ rows, ∃ next,
    decision ladder (routingFlags str flags) t (db.evidence t.id) = .promote next

/-- A copy that is still served sets `force_tier`, or would not promote. -/
def FlagReader.Harmless (str : Json → String) (promotes : RuntimeConfig → Prop) (r : FlagReader) :
    Prop :=
  ∀ copy, r.cache = some copy → (∃ c ∈ r.calls, c.now - copy.stamp < cacheSeconds) →
    forceTier str copy.value ≠ none ∨ ¬ promotes copy.value

/-- Every copy is too old for the calls to come. -/
def FlagReader.outdated (r : FlagReader) : Bool :=
  match r.cache with
  | none => true
  | some copy => r.calls.all fun c => cacheSeconds ≤ c.now - copy.stamp

/-- A submission that inserts has read the pin, a seed or a repair chooses the same tier, and
a classification that still goes by an old copy promotes nothing. -/
def CachedAction.OnPin (cfg : Config) (str : Json → String) (tier : TierName) (s : Cached) :
    CachedAction → Prop
  | .act (.act a) => a.OnPin cfg tier s.lossy.sys.db
  | .act (.lose _) => True
  | .submit _ forceTier _ agentIds _ _ =>
      forceTier.or cfg.ladder.baseTier = some tier ∨ agentIds = []
  | .classify o limit calls _ locked =>
      FlagReader.Harmless str
        (Promotes str cfg.ladder (takeFailed limit locked s.lossy.sys.db) s.lossy.sys.db)
        { s.readers o with calls := calls }
  | .ask _ _ | .restart _ => True

/-! ## One classification -/

theorem Decision.perform_attempts {now : Time} {task : TaskInstance} {db : Db} {d : Decision}
    {routed : Routed × Db} (h : d.perform now task db = some routed) :
    routed.2.attempts = db.attempts := by
  cases d with
  | retry | promote =>
      cases h
      rfl
  | dlq reason =>
      obtain ⟨killed, hkill, rfl⟩ := Option.map_eq_some_iff.1 h
      obtain ⟨-, -, -, -, -, -, -, -, -, rfl⟩ := kill_spec hkill
      rfl

namespace FlagReader

variable {str : Json → String} {ladder : Ladder} {table : Time → RuntimeConfig} {tier : TierName}
  {start : Time} {r r' : FlagReader} {flags : RuntimeConfig} {promotes : RuntimeConfig → Prop}

theorem Harmless.of_outdated (h : r.outdated = true) : r.Harmless str promotes := by
  rintro copy hcopy ⟨c, hc, hyoung⟩
  simp only [outdated, hcopy, List.all_eq_true, decide_eq_true_eq] at h
  exact absurd hyoung (h c hc).not_gt

/-- A call answers with the pin, or with the copy that was there before. -/
theorem call_pinned (hpin : PinnedFrom str table tier start)
    (hlate : ∀ c ∈ r.calls, start ≤ c.now) (h : r.call table = some (flags, r')) :
    r'.calls ⊆ r.calls ∧ ∃ stamp, r'.cache = some ⟨flags, stamp⟩ ∧
      (forceTier str flags ≠ none ∨ r.cache = some ⟨flags, stamp⟩ ∧
        ∃ c ∈ r.calls, c.now - stamp < cacheSeconds) := by
  unfold call at h
  split at h
  · cases h
  rename_i next rest hcalls
  split at h
  · rename_i horder
    cases h
    refine ⟨by rw [hcalls]; exact List.subset_cons_self _ _, ?_⟩
    have hnext : next ∈ r.calls := hcalls ▸ List.mem_cons_self
    have hfresh : forceTier str (mergedFlags (table next.queried)) ≠ none := by
      rw [hpin _ ((hlate next hnext).trans horder.2)]
      exact Option.some_ne_none _
    unfold readFlags readThrough
    cases hcache : r.cache with
    | none => exact ⟨_, rfl, Or.inl hfresh⟩
    | some copy =>
        simp only [Bool.false_eq_true, if_false]
        by_cases hyoung : next.timed.now - copy.stamp < cacheSeconds
        · rw [if_pos hyoung]
          exact ⟨copy.stamp, rfl, Or.inr ⟨rfl, next, hnext, hyoung⟩⟩
        · rw [if_neg hyoung]
          exact ⟨_, rfl, Or.inl hfresh⟩
  · cases h

theorem Harmless.call (hr : r.Harmless str promotes) (hpin : PinnedFrom str table tier start)
    (hlate : ∀ c ∈ r.calls, start ≤ c.now) (h : r.call table = some (flags, r')) :
    r'.Harmless str promotes := by
  obtain ⟨hcalls, stamp, hcache, hanswer⟩ := call_pinned hpin hlate h
  rintro copy hcopy ⟨c, hc, hyoung⟩
  rw [hcache] at hcopy
  cases hcopy
  rcases hanswer with hpinned | ⟨hold, -⟩
  · exact Or.inl hpinned
  · exact hr _ hold ⟨c, hcalls hc, hyoung⟩

/-- A harmless reader promotes nothing. -/
theorem Harmless.decision {task : TaskInstance} {evidence : List Attempt} {d : Decision}
    (hr : r.Harmless str promotes) (hpin : PinnedFrom str table tier start)
    (hlate : ∀ c ∈ r.calls, start ≤ c.now)
    (htask : ∀ flags next, ReliableAgents.decision ladder (routingFlags str flags) task evidence =
      .promote next → promotes flags)
    (h : r.decision str ladder table task evidence = some (d, r')) (next : TierName) :
    d ≠ .promote next := by
  rintro rfl
  unfold FlagReader.decision at h
  dsimp only at h
  split at h
  · cases h
  rename_i hpoison
  split at h
  · cases h
  rename_i hguard
  split at h
  · cases h
  rename_i flags₁ r₁ hcall₁
  obtain ⟨hsub₁, stamp₁, hcache₁, hanswer₁⟩ := call_pinned hpin hlate hcall₁
  have hlate₁ : ∀ c ∈ r₁.calls, start ≤ c.now := fun c hc => hlate c (hsub₁ hc)
  split at h
  · cases h
  rename_i hretries
  split at h
  · split at h <;> cases h
  rename_i hinfra
  split at h
  · cases h
  rename_i hleft
  split at h
  · cases h
  rename_i flags₂ r₂ hcall₂
  obtain ⟨hsub₂, stamp₂, hcache₂, hanswer₂⟩ := call_pinned hpin hlate₁ hcall₂
  split at h
  · cases h
  rename_i hescalation
  split at h
  · cases h
  rename_i flags₃ r₃ hcall₃
  obtain ⟨-, stamp₃, -, hanswer₃⟩ := call_pinned hpin (fun c hc => hlate₁ c (hsub₂ hc)) hcall₃
  split at h
  · split at h <;> cases h
  rename_i hfree
  split at h
  · cases h
  rename_i hnext
  cases h
  -- the flag was unset, so all three calls were answered by the copy that was there before
  obtain ⟨hold₃, -⟩ := hanswer₃.resolve_left (not_not_intro hfree)
  rw [hcache₂] at hold₃
  cases hold₃
  obtain ⟨hold₂, -⟩ := hanswer₂.resolve_left (not_not_intro hfree)
  rw [hcache₁] at hold₂
  cases hold₂
  obtain ⟨hold₁, c, hc, hyoung⟩ := hanswer₁.resolve_left (not_not_intro hfree)
  have hpromote : ReliableAgents.decision ladder (routingFlags str flags₁) task evidence =
      .promote next := by
    simp only [ReliableAgents.decision, routingFlags, hpoison, hguard, hretries, hinfra, hleft,
      hescalation, hfree, hnext, if_false, Bool.false_eq_true]
  exact absurd (htask flags₁ next hpromote)
    ((hr _ hold₁ ⟨c, hc, hyoung⟩).resolve_left (not_not_intro hfree))

/-- A classification by a harmless reader leaves every row at its tier. -/
theorem Harmless.classifyRows {now : Time} {rows : List TaskInstance} {db db' : Db}
    (hr : r.Harmless str promotes) (hpin : PinnedFrom str table tier start)
    (hlate : ∀ c ∈ r.calls, start ≤ c.now)
    (hrows : ∀ flags, Promotes str ladder rows db flags → promotes flags)
    (hat : db.At ladder tier)
    (h : classifyRows str ladder table now rows db r = some (some db', r')) :
    db'.At ladder tier := by
  induction rows generalizing db r with
  | nil =>
      cases h
      exact hat
  | cons task rest ih =>
      simp only [FlagReader.classifyRows] at h
      split at h
      · cases h
      rename_i d r₁ hdecision
      have htask : ∀ flags next,
          ReliableAgents.decision ladder (routingFlags str flags) task (db.evidence task.id) =
            .promote next → promotes flags :=
        fun flags next hpromote => hrows flags ⟨task, List.mem_cons_self, next, hpromote⟩
      have hstays := hr.decision hpin hlate htask hdecision
      obtain ⟨hr₁, hlate₁⟩ := decision_keeps
        (I := fun u => u.Harmless str promotes ∧ ∀ c ∈ u.calls, start ≤ c.now)
        (fun hu hcall => ⟨hu.1.call hpin hu.2 hcall,
          fun c hc => hu.2 c ((call_pinned hpin hu.2 hcall).1 hc)⟩)
        ⟨hr, hlate⟩ hdecision
      split at h
      · cases h
      rename_i routed hperform
      have hkept := Decision.perform_attempts hperform
      refine ih hr₁ hlate₁ (fun flags => ?_) (hat.decided hstays hperform)
        h
      rintro ⟨t, ht, next, hpromote⟩
      refine hrows flags ⟨t, List.mem_cons_of_mem _ ht, next, ?_⟩
      rwa [Db.evidence, hkept] at hpromote

end FlagReader

/-! ## Runs -/

section Runs

variable {cfg : Config} {str : Json → String} {table : Time → RuntimeConfig} {tier : TierName}
  {start : Time} {s s' : Cached} {a : CachedStep} {ts : List CachedTransition}

theorem Lossy.step_classify {l : Lossy} {limit : Nat} {flags : Uuid → Flags} {now : Time}
    {locked : Uuid → Bool} {sys : Sys} (hlost : ∀ k ∈ l.lost, l.sys.db.task k = none)
    (h : ReliableAgents.step cfg l.sys (.classify limit flags now locked) = some sys) :
    Lossy.step cfg l (.act (.classify limit flags now locked)) = some { l with sys := sys } := by
  have hgone : ∀ k ∈ l.lost, sys.db.task k = none := by
    refine Machine.closure_invariant (I := fun db => ∀ k ∈ l.lost, db.task k = none)
      (fun db db' hnone hstatement k hk => ?_) hlost (step_statements h)
    cases hstatement with
    | renew =>
        rw [renewSql, Db.task, Table.get?_update, show db.taskInstances.get? k = none from hnone k hk]
        rfl
    | ledger hledger =>
        obtain ⟨table, rfl⟩ := hledger
        exact hnone k hk
    | route ht hfailed hroute =>
        obtain ⟨w, -, rfl⟩ := routeOne_perform hroute
        rw [w.perform_task, hnone k hk, Option.map_none]
  simp only [Lossy.step, h]
  rw [if_pos]
  rw [List.isEmpty_iff]
  refine List.eq_nil_iff_forall_not_mem.2 fun t ht => ?_
  obtain ⟨hget, hmem⟩ := Table.mem_select.1 ht
  have hnone := hgone t.id (of_decide_eq_true hmem)
  rw [show sys.db.task t.id = some t from hget] at hnone
  cases hnone

/-- Whatever the caches hold, a run is a run of the system in which rows are lost. -/
theorem Cached.run_lossy (h : Machine.Run (Cached.step cfg str table) .init ts s) :
    ∃ us, LossyRun cfg us s.lossy := by
  refine h.invariant (I := fun u => ∃ us, LossyRun cfg us u.lossy) ⟨[], .nil⟩ ?_
  rintro u ⟨action, ends⟩ u' ⟨us, hus⟩ hstep
  unfold Cached.step at hstep
  split at hstep
  · cases hstep
  cases action with
  | act act =>
      simp only at hstep
      split at hstep
      · cases hstep
      · obtain ⟨lossy, hlossy, rfl⟩ := Option.map_eq_some_iff.1 hstep
        exact ⟨_, hus.snoc hlossy⟩
  | ask o call =>
      simp only at hstep
      split at hstep
      · cases hstep
      · obtain ⟨answer, -, rfl⟩ := Option.map_eq_some_iff.1 hstep
        exact ⟨us, hus⟩
  | submit o forceTier plan agentIds ids now =>
      simp only at hstep
      split at hstep
      · obtain ⟨lossy, hlossy, rfl⟩ := Option.map_eq_some_iff.1 hstep
        exact ⟨_, hus.snoc hlossy⟩
      · cases hstep
  | classify o limit calls now locked =>
      simp only at hstep
      split at hstep
      · obtain ⟨⟨db?, r⟩, hrows, rfl⟩ := Option.map_eq_some_iff.1 hstep
        obtain ⟨-, ⟨seen, hseen⟩, -⟩ := FlagReader.classifyRows_spec (f := {}) (a := 0) (b := 0)
          (orderedBatch_map_nodup _ _ _ (Table.select_map_nodup _ _)) hrows
        have hclassify : ReliableAgents.step cfg u.lossy.sys (.classify limit seen now locked) =
            some (u.lossy.sys.setDb (db?.getD u.lossy.sys.db)) := by
          rw [hseen seen fun _ _ => rfl]
          rfl
        exact ⟨_, hus.snoc (Lossy.step_classify (LossyRun.lost hus) hclassify)⟩
      · cases hstep
  | restart o =>
      cases hstep
      exact ⟨us, hus⟩

/-- Everything is at the pin, and once there is an agent the flag is set. -/
structure Cached.Pinned (cfg : Config) (tier : TierName) (start : Time) (s : Cached) : Prop where
  at_tier : s.lossy.sys.At cfg tier
  started : s.lossy.sys.db.agents.rows ≠ [] → start ≤ s.clock

theorem Cached.step_clock (h : Cached.step cfg str table s a = some s') : s'.clock = a.ends := by
  unfold Cached.step at h
  split at h
  · cases h
  split at h
  · split at h
    · cases h
    · obtain ⟨_, -, rfl⟩ := Option.map_eq_some_iff.1 h
      rfl
  · split at h
    · cases h
    · obtain ⟨_, -, rfl⟩ := Option.map_eq_some_iff.1 h
      rfl
  · split at h
    · obtain ⟨_, -, rfl⟩ := Option.map_eq_some_iff.1 h
      rfl
    · cases h
  · split at h
    · obtain ⟨_, -, rfl⟩ := Option.map_eq_some_iff.1 h
      rfl
    · cases h
  · cases h
    rfl

theorem Cached.Pinned.step_at (hI : s.Pinned cfg tier start) (hcursor : s.lossy.sys.db.AtCursor)
    (hpin : PinnedFrom str table tier start) (hon : a.action.OnPin cfg str tier s)
    (h : Cached.step cfg str table s a = some s') : s'.lossy.sys.At cfg tier := by
  obtain ⟨action, ends⟩ := a
  unfold Cached.step at h
  split at h
  · cases h
  cases action with
  | act act =>
      simp only at h
      split at h
      · cases h
      · obtain ⟨lossy, hlossy, rfl⟩ := Option.map_eq_some_iff.1 h
        cases act with
        | act act => exact hI.at_tier.next hon (Lossy.step_act hlossy).1
        | lose k =>
            rw [(Lossy.step_lose hlossy).2.1]
            exact hI.at_tier.lose k
  | ask o call =>
      simp only at h
      split at h
      · cases h
      · obtain ⟨answer, -, rfl⟩ := Option.map_eq_some_iff.1 h
        exact hI.at_tier
  | submit o forceTier plan agentIds ids now =>
      simp only at h
      split at h
      · obtain ⟨lossy, hlossy, rfl⟩ := Option.map_eq_some_iff.1 h
        have hsubmit : Action.OnPin cfg tier s.lossy.sys.db
            (.submit forceTier plan agentIds ids now) := hon
        exact hI.at_tier.next hsubmit (Lossy.step_act hlossy).1
      · cases h
  | classify o limit calls now locked =>
      simp only at h
      split at h
      · rename_i hcalls
        obtain ⟨⟨db?, r⟩, hrows, rfl⟩ := Option.map_eq_some_iff.1 h
        refine ⟨?_, hI.at_tier.workers⟩
        cases db? with
        | none => exact hI.at_tier.db
        | some db =>
            rw [Sys.setDb_db, Option.getD_some]
            by_cases hnone : takeFailed limit locked s.lossy.sys.db = []
            · rw [hnone] at hrows
              cases hrows
              exact hI.at_tier.db
            · -- a row is taken, so there is an agent and the flag is set
              obtain ⟨t, ht⟩ := List.exists_mem_of_ne_nil _ hnone
              obtain ⟨hget, hfailed⟩ := mem_takeFailed ht
              obtain ⟨ag, hag, -⟩ := hcursor.active _ t hget (Or.inr hfailed)
              have hstarted := hI.started (List.ne_nil_of_mem (Table.mem_of_get? hag))
              exact hon.classifyRows hpin (fun c hc => hstarted.trans (hcalls c hc).1)
                (fun _ => id) hI.at_tier.db hrows
      · cases h
  | restart o =>
      cases h
      exact hI.at_tier

/-- With `force_tier` set to one tier since before the first agent, everything is at that tier
as long as every step is on the pin. -/
theorem pinned_baseline (h : Machine.Run (Cached.step cfg str table) .init ts s)
    (hpin : PinnedFrom str table tier start)
    (hfirst : ∀ c ∈ ts, c.after.lossy.sys.db.agents.rows ≠ [] → start ≤ c.action.ends)
    (hon : ∀ c ∈ ts, c.action.action.OnPin cfg str tier c.before) : s.lossy.sys.At cfg tier := by
  have hpinned : s.Pinned cfg tier start := by
    refine h.invariant_along (I := fun _ u => u.Pinned cfg tier start)
      (fun c => (c.after.lossy.sys.db.agents.rows ≠ [] → start ≤ c.action.ends) ∧
        c.action.action.OnPin cfg str tier c.before) ?_
      (fun us u a u' hrun _ hI hstep hc => ?_) fun c hc => ⟨hfirst c hc, hon c hc⟩
    · refine ⟨⟨⟨?_, ?_⟩, fun _ => trivial⟩, fun hagents => absurd rfl hagents⟩
      · simp [Cached.init, Lossy.init, Sys.init, Db.empty, Db.task, Table.get?, Table.empty]
      · simp [Cached.init, Lossy.init, Sys.init, Db.empty]
    · obtain ⟨vs, hvs⟩ := Cached.run_lossy hrun
      refine ⟨hI.step_at (LossyRun.orderly hvs).cursor hpin hc.2 hstep, fun hagents => ?_⟩
      rw [Cached.step_clock hstep]
      exact hc.1 hagents
  exact hpinned.at_tier

end Runs

/-! ## A pinned run -/

namespace Cached

def ran (table : Time → RuntimeConfig) (actions : List CachedStep) : List CachedTransition × Cached :=
  Machine.performed (step oneHost (fun _ => "") table) .init actions

theorem run_ran (table : Time → RuntimeConfig) (actions : List CachedStep) :
    Machine.Run (step oneHost (fun _ => "") table) init (ran table actions).1
      (ran table actions).2 :=
  Machine.run_performed _ init actions

def during (ends : Time) (actions : List Action) : List CachedStep :=
  actions.map fun a => ⟨.act (.act a), ends⟩

end Cached

/-- A classification queries the table at its first call. -/
def CachedAction.upToDate (s : Cached) : CachedAction → Bool
  | .classify o _ calls _ _ => ({ s.readers o with calls := calls } : FlagReader).outdated
  | _ => true

def setToJunior : Time → RuntimeConfig :=
  configHistory oneHost.ladder schemaConfig
    [{ committedAt := seconds 2
       body := { forceTier := some (some "junior") } }]

/-- A submission that is refused leaves process 9 a copy from before; the next one goes by it.
The row is lost and repaired, and fails where it would have been promoted. -/
def refusedPromotion : List CachedStep :=
  [⟨.ask 9 ⟨seconds 1, seconds 1⟩, seconds 1⟩,
    ⟨.submit 9 none [20] (List.replicate 101 firstAgent) rowId 0, seconds 1⟩,
    ⟨.ask 9 ⟨seconds 2, seconds 2⟩, seconds 2⟩,
    ⟨.submit 9 none [20] [firstAgent] rowId 0, seconds 2⟩,
    ⟨.act (.lose (rowId firstAgent 0)), seconds 2⟩,
    ⟨.act (.act (.repair 50 (fun _ => ⟨7⟩) 0 unlocked)), seconds 2⟩] ++
  Cached.during (seconds 3) (handout 0 0 (.raised tooHard) ++ [.report 0 (seconds 3)]) ++
  [⟨.classify 8 50 [⟨seconds 4, seconds 4⟩] (seconds 4) unlocked, seconds 4⟩] ++
  Cached.during (seconds 10)
    (handout 0 (seconds 10) (.raised tooHard) ++ [.report 0 (seconds 10)]) ++
  [⟨.classify 8 50 [⟨seconds 11, seconds 11⟩, ⟨seconds 11, seconds 11⟩, ⟨seconds 11, seconds 11⟩,
    ⟨seconds 11, seconds 11⟩] (seconds 11) unlocked, seconds 11⟩]

theorem pinned_baseline_refusedPromotion :
    ((Cached.ran setToJunior refusedPromotion).2.lossy.sys.db.task ⟨7⟩).map
        (fun t => (t.status, t.tier)) = some (.dead, "junior") ∧
      (Cached.ran setToJunior refusedPromotion).2.lossy.sys.At oneHost "junior" := by
  have hpin : PinnedFrom (fun _ => "") setToJunior "junior" (seconds 2) := by
    intro t hafter
    rw [setToJunior, configHistory_eq_of_none hafter fun q hq => Or.inl (by
      rw [List.mem_singleton.1 hq])]
    decide +kernel
  have hfirst : ∀ c ∈ (Cached.ran setToJunior refusedPromotion).1,
      c.after.lossy.sys.db.agents.rows ≠ [] → seconds 2 ≤ c.action.ends := by
    decide +kernel
  have hcurrent : ∀ c ∈ (Cached.ran setToJunior refusedPromotion).1,
      c.action.action.upToDate c.before = true := by
    decide +kernel
  refine ⟨by decide +kernel, pinned_baseline (Cached.run_ran setToJunior refusedPromotion) hpin
    hfirst fun c hc => ?_⟩
  have hact := Machine.action_mem_performed hc
  have hold := hcurrent c hc
  generalize c.action = a at hact hold
  simp only [refusedPromotion, Cached.during, handout, List.map_cons, List.map_nil,
    List.cons_append, List.nil_append, List.mem_cons, List.not_mem_nil, or_false] at hact
  rcases hact with rfl | rfl | rfl | rfl | rfl | rfl | rfl | rfl | rfl | rfl | rfl | rfl | rfl |
    rfl | rfl | rfl
  all_goals first | trivial | exact Or.inl rfl | exact FlagReader.Harmless.of_outdated hold

def alwaysSenior : Time → RuntimeConfig := fun _ => schemaConfig.insert "force_tier" (.str "senior")

/-- `harness.seed` under it: its row is a junior one. -/
def seededBaseline : List CachedStep :=
  Cached.during 0
    (.seed [1] [firstAgent] rowId 0 :: handout 0 0 solved ++ [.confirm 0, .checkpoint 0 (seconds 1)])

theorem pinned_baseline_seeded :
    ∃ ts s, Machine.Run (Cached.step oneHost (fun _ => "") alwaysSenior) .init ts s ∧
      PinnedFrom (fun _ => "") alwaysSenior "senior" 0 ∧
      (∀ c ∈ ts, c.after.lossy.sys.db.agents.rows ≠ [] → 0 ≤ c.action.ends) ∧
      (s.lossy.sys.db.task (rowId firstAgent 0)).map TaskInstance.tier = some "junior" ∧
      s.lossy.sys.db.attempts.map Attempt.tier = ["junior"] ∧
      s.lossy.sys.db.attempts.map Attempt.costUnits = [1] ∧ ¬ s.lossy.sys.At oneHost "senior" := by
  refine ⟨_, _, Cached.run_ran alwaysSenior seededBaseline, fun t _ => by
    rw [alwaysSenior]; decide +kernel, by decide +kernel, by decide +kernel, by decide +kernel,
    by decide +kernel, fun hat => ?_⟩
  obtain ⟨t, ht, htier⟩ : ∃ t, (Cached.ran alwaysSenior seededBaseline).2.lossy.sys.db.task
      (rowId firstAgent 0) = some t ∧ t.tier = "junior" :=
    Option.map_eq_some_iff.1 (by decide +kernel)
  have hsenior := hat.db.rows _ t ht
  rw [htier] at hsenior
  exact absurd hsenior (by decide)

end ReliableAgents
