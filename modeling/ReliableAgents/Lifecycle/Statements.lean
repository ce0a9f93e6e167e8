import ReliableAgents.System

/-!
# What an action does to the database

An action of the system is one statement or a sweep of them, one row after
another. `Statement` says once what each of them finds and writes; an invariant of
the database is kept by every action if each statement keeps it.
-/

namespace ReliableAgents

open Relational

/-- A statement that action `a` runs in state `s`. -/
inductive Statement (cfg : Config) (s : Sys) : Action → Db → Db → Prop where
  | claim {p : Nat} {now started : Time} {locked : Uuid → Bool} {task : Handout} {db db' : Db} :
      claimOne (cfg.poolTier p) (cfg.workerId p) cfg.leaseTtlSeconds now locked db =
        some (task, db') →
      Statement cfg s (.claim p now started locked) db db'
  | renew {a : Action} {p : Nat} {taskId : Uuid} {now : Time} {db : Db} :
      Statement cfg s a db (renewSql taskId (cfg.workerId p) cfg.leaseTtlSeconds now db).1
  | ledger {a : Action} {db db' : Db} :
      (∃ table, db' = { db with idempotency := table }) → Statement cfg s a db db'
  | checkpoint {p : Nat} {now started : Time} {task : Handout} {result : PyDict}
      {cost tokens : Int} {db db' : Db} {ok : Bool} :
      (s.workers p).phase = .committing task started result cost tokens →
      checkpointSuccess task result cost tokens started (cfg.workerId p) now db = some (db', ok) →
      Statement cfg s (.checkpoint p now) db db'
  | report {p : Nat} {now started : Time} {task : Handout} {failure : FailureReport} {db db' : Db}
      {ok : Bool} :
      (s.workers p).phase = .failing task started failure →
      reportFailure task failure started (cfg.workerId p) now db = (db', ok) →
      Statement cfg s (.report p now) db db'
  | reclaim {batch : Nat} {jitter : Uuid → Time} {now : Time} {locked : Uuid → Bool}
      {t : TaskInstance} {db : Db} :
      db.task t.id = some t → expired now t = true →
      Statement cfg s (.reap batch jitter now locked) db (reclaim jitter now db t)
  | repair {batch : Nat} {ids : Uuid → Uuid} {now : Time} {locked : Uuid → Bool} {ag : Agent}
      {tier : TierName} {db db' : Db} :
      cfg.ladder.baseTier = some tier → db.agent ag.id = some ag → ag.status = .running →
      repairOne cfg.ladder tier ids now db ag = some db' →
      Statement cfg s (.repair batch ids now locked) db db'
  | finalise {batch : Nat} {now : Time} {locked : Uuid → Bool} {db : Db} :
      Statement cfg s (.finalise batch now locked) db (finaliseAgents batch now locked db)
  | route {limit : Nat} {flags : Uuid → Flags} {now : Time} {locked : Uuid → Bool}
      {t : TaskInstance} {routed : Routed} {db db' : Db} :
      db.task t.id = some t → t.status = .failed →
      routeOne cfg.ladder (flags t.id) now t db = some (routed, db') →
      Statement cfg s (.classify limit flags now locked) db db'
  | submit {forceTier : Option TierName} {plan : List Int} {agentIds : List Uuid}
      {ids : Uuid → Nat → Uuid} {now : Time} {tier : TierName} {agentId : Uuid} {db db' : Db} :
      forceTier.or cfg.ladder.baseTier = some tier →
      createAgent cfg.ladder plan tier ids now db agentId = some db' →
      Statement cfg s (.submit forceTier plan agentIds ids now) db db'
  | seed {plan : List Int} {agentIds : List Uuid} {ids : Uuid → Nat → Uuid} {now : Time}
      {agentId : Uuid} {db db' : Db} :
      createAgent cfg.ladder plan "junior" ids now db agentId = some db' →
      Statement cfg s (.seed plan agentIds ids now) db db'

/-- The statements of one action, in their order. -/
abbrev Statements (cfg : Config) (s : Sys) (a : Action) : Db → Db → Prop :=
  Relation.ReflTransGen (Statement cfg s a)

section Sweeps

variable {cfg : Config} {s : Sys} {db db' : Db}

theorem reap_statements {batch : Nat} {jitter : Uuid → Time} {now : Time} {locked : Uuid → Bool}
    {rows : List TaskInstance} (hnodup : (rows.map TaskInstance.id).Nodup)
    (hrows : ∀ t ∈ rows, db.task t.id = some t ∧ expired now t = true) :
    Statements cfg s (.reap batch jitter now locked) db (rows.foldl (reclaim jitter now) db) := by
  induction rows generalizing db with
  | nil => exact .refl
  | cons t rest ih =>
      simp only [List.map_cons, List.nodup_cons] at hnodup
      obtain ⟨ht, hexpired⟩ := hrows t List.mem_cons_self
      refine .head (.reclaim ht hexpired) (ih hnodup.2 fun u hu => ?_)
      obtain ⟨hu', hexpired'⟩ := hrows u (List.mem_cons_of_mem _ hu)
      have hne : u.id ≠ t.id := fun heq => hnodup.1 (heq ▸ List.mem_map_of_mem hu)
      refine ⟨?_, hexpired'⟩
      rw [Db.task, reclaim, Table.get?_update, show db.taskInstances.get? u.id = _ from hu']
      simp [hne]

theorem classify_statements {limit : Nat} {flags : Uuid → Flags} {now : Time}
    {locked : Uuid → Bool} {rows : List TaskInstance} (hnodup : (rows.map TaskInstance.id).Nodup)
    (hrows : ∀ t ∈ rows, db.task t.id = some t ∧ t.status = .failed)
    (h : rows.foldlM
      (fun db task => (routeOne cfg.ladder (flags task.id) now task db).map Prod.snd) db =
        some db') :
    Statements cfg s (.classify limit flags now locked) db db' := by
  induction rows generalizing db with
  | nil =>
      cases h
      exact .refl
  | cons t rest ih =>
      simp only [List.map_cons, List.nodup_cons] at hnodup
      obtain ⟨ht, hfailed⟩ := hrows t List.mem_cons_self
      rw [List.foldlM_cons, Option.bind_eq_bind, Option.bind_eq_some_iff] at h
      obtain ⟨mid, hmid, hrest⟩ := h
      obtain ⟨⟨routed, mid'⟩, hroute, rfl⟩ := Option.map_eq_some_iff.1 hmid
      refine .head (.route ht hfailed hroute) (ih hnodup.2 (fun u hu => ?_) hrest)
      obtain ⟨hu', hfailed'⟩ := hrows u (List.mem_cons_of_mem _ hu)
      have hne : u.id ≠ t.id := fun heq => hnodup.1 (heq ▸ List.mem_map_of_mem hu)
      exact ⟨routeOne_kept hroute hu' hne hfailed', hfailed'⟩

theorem repair_statements {batch : Nat} {ids : Uuid → Uuid} {now : Time} {locked : Uuid → Bool}
    {tier : TierName} {rows : List Agent} (htier : cfg.ladder.baseTier = some tier)
    (hrows : ∀ a ∈ rows, db.agent a.id = some a ∧ a.status = .running)
    (h : rows.foldlM (repairOne cfg.ladder tier ids now) db = some db') :
    Statements cfg s (.repair batch ids now locked) db db' := by
  induction rows generalizing db with
  | nil =>
      cases h
      exact .refl
  | cons a rest ih =>
      obtain ⟨ha, hrunning⟩ := hrows a List.mem_cons_self
      rw [List.foldlM_cons, Option.bind_eq_bind, Option.bind_eq_some_iff] at h
      obtain ⟨mid, hmid, hrest⟩ := h
      refine .head (.repair htier ha hrunning hmid) (ih (fun b hb => ?_) hrest)
      obtain ⟨hb', hrunning'⟩ := hrows b (List.mem_cons_of_mem _ hb)
      refine ⟨?_, hrunning'⟩
      rcases repairOne_spec hmid with rfl | ⟨_, -, hinsert⟩
      · exact hb'
      · obtain ⟨-, -, -, ⟨table, rfl⟩, -⟩ := insertTask_spec hinsert
        exact hb'

theorem createAgents_statements {a : Action} {ladder : Ladder} {plan : List Int} {tier : TierName}
    {agentIds : List Uuid} {ids : Uuid → Nat → Uuid} {now : Time}
    (hone : ∀ agentId d d', createAgent ladder plan tier ids now d agentId = some d' →
      Statement cfg s a d d')
    (h : createAgents ladder plan tier agentIds ids now db = some db') :
    Statements cfg s a db db' :=
  Machine.foldlM_related (r := Statements cfg s a) (fun _ => .refl) (fun _ _ _ => .trans)
    (fun d agentId d' hcreate => .single (hone agentId d d' hcreate)) h

end Sweeps

/-- An action runs statements on the database, and nothing else. -/
theorem step_statements {cfg : Config} {s s' : Sys} {a : Action} (h : step cfg s a = some s') :
    Statements cfg s a s.db s'.db := by
  cases a with
  | claim q now started locked =>
      simp only [step] at h
      split at h
      · cases h
        unfold claimTask
        split
        · exact .refl
        · rename_i claimed hclaim
          exact .single (.claim hclaim)
      · cases h
  | load q | run q outcome | confirm q =>
      simp only [step] at h
      repeat' split at h
      all_goals cases h
      all_goals exact .refl
  | begin q now =>
      simp only [step] at h
      split at h
      · cases h
        exact .single (.ledger (beginAction_db ..))
      · cases h
  | settle q now =>
      simp only [step] at h
      split at h
      · cases h
        exact .single (.ledger (settleAction_db ..))
      · cases h
  | checkpoint q now =>
      simp only [step] at h
      split at h
      · rename_i hphase
        split at h
        · cases h
          exact .refl
        · rename_i committed hcommit
          cases h
          exact .single (.checkpoint hphase hcommit)
      · cases h
  | report q now =>
      simp only [step] at h
      split at h
      · rename_i hphase
        cases h
        exact .single (.report hphase rfl)
      · cases h
  | heartbeat q now =>
      simp only [step] at h
      split at h
      · split at h
        · cases h
        · cases h
          exact .single .renew
      · cases h
  | straggle q taskId now =>
      simp only [step] at h
      split at h
      · cases h
        exact .single .renew
      · cases h
  | join q taskId =>
      rw [step_join h]
      exact .refl
  | abandon q | crash q =>
      cases h
      exact .refl
  | reap batch jitter now locked =>
      cases h
      refine reap_statements (expiredLeases_nodup batch now locked s.db) fun t ht => ?_
      obtain ⟨hget, hp⟩ := Table.mem_select.1 (mem_of_mem_orderedBatch ht)
      simp only [Bool.and_eq_true] at hp
      exact ⟨hget, hp.1⟩
  | repair batch ids now locked =>
      cases h
      rw [Sys.setDb_db]
      cases hrepair : repairStalled cfg.ladder batch ids now locked s.db with
      | none => exact .refl
      | some db =>
          unfold repairStalled at hrepair
          split at hrepair
          · cases hrepair
          · rename_i tier htier
            refine repair_statements htier (fun a ha => ?_) hrepair
            obtain ⟨hag, hrunning, -⟩ := mem_stalledAgents ha
            exact ⟨hag, hrunning⟩
  | finalise batch now locked =>
      cases h
      exact .single .finalise
  | classify limit flags now locked =>
      cases h
      rw [Sys.setDb_db]
      cases hclassify : classify cfg.ladder limit flags now locked s.db with
      | none => exact .refl
      | some db =>
          exact classify_statements (takeFailed_nodup limit locked s.db)
            (fun t ht => mem_takeFailed ht) hclassify
  | reconcile afterSeconds batch now locked =>
      cases h
      exact .single (.ledger ⟨_, rfl⟩)
  | submit forceTier plan agentIds ids now =>
      simp only [step] at h
      split at h
      · cases h
        exact .refl
      · rename_i db hsubmit
        cases h
        obtain ⟨-, -, -, tier, htier, hcreate⟩ := submitAgents_spec hsubmit
        exact createAgents_statements (fun _ _ _ => .submit htier) hcreate
  | seed plan agentIds ids now =>
      cases h
      rw [Sys.setDb_db]
      cases hseed : seed cfg.ladder plan agentIds ids now s.db with
      | none => exact .refl
      | some db => exact createAgents_statements (fun _ _ _ => .seed) hseed
  | ledger call =>
      cases h
      exact .single (.ledger (call.perform_db cfg.sha256 s.db))

end ReliableAgents
