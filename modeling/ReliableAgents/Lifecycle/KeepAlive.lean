import ReliableAgents.Lifecycle.Fencing
import ReliableAgents.Lifecycle.Pinned
import ReliableAgents.Lifecycle.PriorContext
import ReliableAgents.Lifecycle.Resolution
import ReliableAgents.Lifecycle.SoleHolder
import ReliableAgents.Lifecycle.SweepChanges

/-!
# A worker whose heartbeat keeps up

The reaper cannot tell a crashed worker from a slow one; it takes back what has not been
renewed within the TTL. A handout that no reap finds so old stays with its worker to the
end, and its outcome is recorded.
-/

namespace ReliableAgents

open Relational

/-- When the lease of worker `p` on the row `taskId` was last written. -/
def renewedAt (p : Nat) (taskId : Uuid) (last : Time) : Action → Time
  | .heartbeat q now => if q = p then now else last
  | .straggle q k now => if q = p ∧ k = taskId then now else last
  | _ => last

def Action.reapsAfter (deadline : Time) : Action → Bool
  | .reap _ _ now _ => deadline < now
  | _ => false

/-- No reap comes later than the TTL after the renewal before it. -/
def Punctual (cfg : Config) (p : Nat) (taskId : Uuid) : Time → List SysTransition → Prop
  | _, [] => True
  | last, c :: rest =>
      c.action.reapsAfter (last + seconds cfg.leaseTtlSeconds) = false ∧
        Punctual cfg p taskId (renewedAt p taskId last c.action) rest

instance Punctual.decidable (cfg : Config) (p : Nat) (taskId : Uuid) :
    ∀ (last : Time) (ts : List SysTransition), Decidable (Punctual cfg p taskId last ts)
  | _, [] => .isTrue trivial
  | last, c :: rest =>
      have := Punctual.decidable cfg p taskId (renewedAt p taskId last c.action) rest
      inferInstanceAs (Decidable (_ ∧ _))

/-- The handout is in hand, and its lease was last written at time `last`. -/
structure Renewed (cfg : Config) (p : Nat) (task : Handout) (last : Time) (s : Sys) : Prop where
  held : (s.workers p).phase.task? = some task
  lost : (s.workers p).lost = false
  row : ∃ t, s.db.task task.id = some t ∧ t.leaseOwner = some (cfg.workerId p) ∧
    t.status = .running ∧ t.leaseExpires = some (last + seconds cfg.leaseTtlSeconds)

/-! ## What touches a running row -/

section Running

variable {cfg : Config} {s s' : Sys} {a : Action} {db db' : Db} {k : Uuid} {t : TaskInstance}

theorem foldlM_route_running {flags : Uuid → Flags} {now : Time} {rows : List TaskInstance}
    (hrows : ∀ u ∈ rows, u.id ≠ k)
    (h : rows.foldlM
      (fun db u => (routeOne cfg.ladder (flags u.id) now u db).map Prod.snd) db = some db')
    (ht : db.task k = some t) (hrunning : t.status = .running) : db'.task k = some t := by
  induction rows generalizing db with
  | nil =>
      cases h
      exact ht
  | cons u rest ih =>
      rw [List.foldlM_cons, Option.bind_eq_bind, Option.bind_eq_some_iff] at h
      obtain ⟨next, hnext, hrest⟩ := h
      obtain ⟨⟨routed, next'⟩, hroute, rfl⟩ := Option.map_eq_some_iff.1 hnext
      obtain ⟨w, hw, rfl⟩ := routeOne_perform hroute
      refine ih (fun u' hu' => hrows u' (List.mem_cons_of_mem _ hu')) hrest ?_
      have hid : t.id ≠ w.task.id := by
        rw [(routeWrite_spec hw).1, Db.id_of_task ht]
        exact (hrows u List.mem_cons_self).symm
      rw [w.perform_task, ht, Option.map_some]
      rcases Write.onTask_other hid with hsame | ⟨-, -, hpending, -⟩
      · rw [hsame]
      · rw [hrunning] at hpending
        cases hpending

/-- Besides its worker, only the reaper touches a running row, and only when it is late. -/
theorem step_running_kept (h : step cfg s a = some s') (ht : s.db.task k = some t)
    (hrunning : t.status = .running) (hwriter : a.writer = none)
    (hreaped : ∀ batch jitter now locked, a = .reap batch jitter now locked →
      expired now t = false) : s'.db.task k = some t := by
  cases a with
  | claim q now started locked =>
      simp only [step] at h
      split at h
      · cases h
        unfold claimTask
        split
        · exact ht
        · rename_i claimed hclaim
          obtain ⟨u, hu, hpending, -, htask⟩ := claimOne_task hclaim
          refine (htask k).trans ?_
          split
          · rename_i heq
            rw [← heq, ht] at hu
            rw [← Option.some.inj hu, hrunning] at hpending
            cases hpending
          · exact ht
      · cases h
  | load q | run q outcome | confirm q =>
      simp only [step] at h
      repeat' split at h
      all_goals cases h
      all_goals exact ht
  | begin q now =>
      simp only [step] at h
      split at h
      · rename_i task started ctx _
        cases h
        obtain ⟨table, hdb⟩ := beginAction_db cfg.sha256 task started ctx now s.db
        rw [Sys.setPhase_db, Sys.setDb_db, hdb]
        exact ht
      · cases h
  | settle q now =>
      obtain ⟨task, started, key, result, -, rfl⟩ := step_settling h
      rw [Sys.setPhase_db, Sys.setDb_db, settleAction_task]
      exact ht
  | join q taskId =>
      rw [step_join h]
      exact ht
  | abandon q | crash q | finalise batch now locked | reconcile afterSeconds batch now locked =>
      cases h
      exact ht
  | reap batch jitter now locked =>
      cases h
      have hrows := (reclaims_takes jitter now (expiredLeases batch now locked s.db) s.db).tasks
      simp only [reapChange, Change.apply, List.append_nil] at hrows
      rw [Sys.setDb_db, reap, Db.task, Table.get?_of_rows_map hrows fun u => by split <;> rfl,
        show s.db.taskInstances.get? k = some t from ht, Option.map_some, if_neg]
      intro hmem
      obtain ⟨u, hu, hid⟩ := List.mem_map.1 hmem
      obtain ⟨hu', hrunning', e, hexpires, hlate⟩ := mem_expiredLeases hu
      rw [hid, Db.id_of_task ht, ht] at hu'
      have hfalse := hreaped batch jitter now locked rfl
      rw [Option.some.inj hu'] at hfalse
      simp [expired, hrunning', hexpires, hlate] at hfalse
  | repair batch ids now locked =>
      cases h
      rw [Sys.setDb_db]
      cases hrepair : repairStalled cfg.ladder batch ids now locked s.db with
      | none => exact ht
      | some db =>
          unfold repairStalled at hrepair
          split at hrepair
          · cases hrepair
          · exact Machine.foldlM_related (r := KeepsTasks) (fun _ _ _ hu => hu)
              (fun _ _ _ hone hmore k t hu => hmore k t (hone k t hu))
              (fun _ _ _ hone => repairOne_keepsTasks hone) hrepair k t ht
  | classify limit flags now locked =>
      cases h
      rw [Sys.setDb_db]
      cases hclassify : classify cfg.ladder limit flags now locked s.db with
      | none => exact ht
      | some db =>
          refine foldlM_route_running (fun u hu heq => ?_) hclassify ht hrunning
          obtain ⟨hu', hfailed⟩ := mem_takeFailed hu
          rw [heq, ht] at hu'
          rw [← Option.some.inj hu', hrunning] at hfailed
          cases hfailed
  | submit forceTier plan agentIds ids now =>
      simp only [step] at h
      split at h
      · cases h
        exact ht
      · rename_i db hsubmit
        cases h
        obtain ⟨-, -, -, tier, -, hcreate⟩ := submitAgents_spec hsubmit
        exact createAgents_keepsTasks hcreate k t ht
  | seed plan agentIds ids now =>
      cases h
      rw [Sys.setDb_db]
      cases hseed : seed cfg.ladder plan agentIds ids now s.db with
      | none => exact ht
      | some db => exact createAgents_keepsTasks hseed k t ht
  | ledger call =>
      cases h
      obtain ⟨table, hdb⟩ := call.perform_db cfg.sha256 s.db
      rw [Sys.setDb_db, hdb]
      exact ht
  | heartbeat | straggle | checkpoint | report => cases hwriter

end Running

/-! ## The lease stays -/

section Renewals

variable {cfg : Config} {s s' : Sys} {a : Action} {p : Nat} {task : Handout} {last : Time}

theorem Renewed.leased (h : Renewed cfg p task last s) :
    Leased (cfg.workerId p) task.id s.db := by
  obtain ⟨t, ht, howner, hrunning, -⟩ := h.row
  exact ⟨t, ht, howner, hrunning⟩

theorem renewSql_lease {taskId : Uuid} {workerId : WorkerId} {ttlSeconds : Int} {now : Time}
    {db : Db} (h : Leased workerId taskId db) :
    ∃ t, (renewSql taskId workerId ttlSeconds now db).1.task taskId = some t ∧
      t.leaseOwner = some workerId ∧ t.status = .running ∧
      t.leaseExpires = some (now + seconds ttlSeconds) := by
  obtain ⟨t, ht, howner, hrunning⟩ := h
  refine ⟨t.renewed ttlSeconds now, ?_, howner, hrunning, rfl⟩
  rw [renewSql, Db.task, get?_update_leasedBy ht howner hrunning, if_pos rfl]

theorem Renewed.step (hids : Function.Injective cfg.workerId) (hI : Renewed cfg p task last s)
    (h : step cfg s a = some s') (hheld : (s'.workers p).phase.task? = some task)
    (hpunctual : a.reapsAfter (last + seconds cfg.leaseTtlSeconds) = false) :
    Renewed cfg p task (renewedAt p task.id last a) s' := by
  have hlost := step_lost h hI.held hI.leased hI.lost
  obtain ⟨t, ht, howner, hrunning, hexpires⟩ := hI.row
  have kept : s'.db.task task.id = s.db.task task.id → renewedAt p task.id last a = last →
      Renewed cfg p task (renewedAt p task.id last a) s' := by
    intro hsame hlast
    rw [hlast]
    exact ⟨hheld, hlost, t, hsame.trans ht, howner, hrunning, hexpires⟩
  -- under distinct names a write that changes the row is by `p`
  have other : ∀ q, a.writer = some q → q ≠ p → s'.db.task task.id = s.db.task task.id := by
    intro q hwriter hne
    by_contra hchanged
    obtain ⟨⟨u, hu, -, howner'⟩, -⟩ := step_writes h hwriter hchanged
    rw [ht] at hu
    rw [← Option.some.inj hu, howner] at howner'
    exact hne (hids (Option.some.inj howner').symm)
  cases hwriter : a.writer with
  | none =>
      have hlast : renewedAt p task.id last a = last := by
        cases a <;> first | rfl | cases hwriter
      refine kept ?_ hlast
      rw [ht]
      refine step_running_kept h ht hrunning hwriter fun batch jitter now locked ha => ?_
      rw [ha] at hpunctual
      have hintime : ¬ last + seconds cfg.leaseTtlSeconds < now := by
        simpa [Action.reapsAfter] using hpunctual
      simp [expired, hexpires, hintime]
  | some q =>
      cases a with
      | heartbeat r now =>
          cases hwriter
          by_cases hq : q = p
          · subst hq
            simp only [ReliableAgents.step, hI.held, hI.lost] at h
            cases h
            refine ⟨hheld, hlost, ?_⟩
            simp only [renewedAt, if_pos]
            exact renewSql_lease hI.leased
          · exact kept (other q rfl hq) (if_neg hq)
      | straggle r k now =>
          cases hwriter
          by_cases hq : q = p
          · subst hq
            simp only [ReliableAgents.step] at h
            split at h
            · cases h
              by_cases hk : k = task.id
              · subst hk
                refine ⟨hheld, hlost, ?_⟩
                simp only [renewedAt, and_self, if_pos]
                exact renewSql_lease hI.leased
              · refine kept ?_ (if_neg fun hboth => hk hboth.2)
                by_contra hchanged
                exact hk (renewSql_changes hchanged).1.symm
            · cases h
          · exact kept (other q rfl hq) (if_neg fun hboth => hq hboth.1)
      | checkpoint r now | report r now =>
          cases hwriter
          refine kept (other q rfl fun hq => ?_) rfl
          have hidle := (step_ended h (by first | exact .inl rfl | exact .inr rfl)).1
          rw [← hq, hidle] at hheld
          cases hheld
      | _ => cases hwriter

/-- As long as it is in hand, a handout whose renewals are in time keeps its lease. -/
theorem Renewed.run (hids : Function.Injective cfg.workerId) {ts : List SysTransition}
    (hI : Renewed cfg p task last s) (hrun : Machine.Run (ReliableAgents.step cfg) s ts s')
    (hheld : ∀ c ∈ ts, (c.after.workers p).phase.task? = some task)
    (hpunctual : Punctual cfg p task.id last ts) :
    (∀ c ∈ ts, Leased (cfg.workerId p) task.id c.before.db) ∧
      ∃ last', Renewed cfg p task last' s' := by
  induction ts generalizing s last with
  | nil =>
      rw [hrun.eq_of_nil]
      exact ⟨fun c hc => (by cases hc), last, hI⟩
  | cons c rest ih =>
      obtain ⟨rfl, hstep, hrest⟩ := hrun.uncons
      have hnext := hI.step hids hstep (hheld c List.mem_cons_self) hpunctual.1
      obtain ⟨hleased, hlast⟩ := ih hnext hrest
        (fun d hd => hheld d (List.mem_cons_of_mem _ hd)) hpunctual.2
      refine ⟨fun d hd => ?_, hlast⟩
      rcases List.mem_cons.1 hd with rfl | hd
      · exact hI.leased
      · exact hleased d hd

end Renewals

/-! ## A reap between two renewals -/

/-- The reaper looks at the lease after its first TTL, of which the heartbeat has made a
second one. -/
def keptAlive : List Action :=
  [submitPlan [1], .claim 0 0 0 unlocked, .load 0, .heartbeat 0 (seconds 20),
    .reap 100 (fun _ => 0) (seconds 45) unlocked, .run 0 solved, .confirm 0,
    .checkpoint 0 (seconds 46)]

def alive : List SysTransition := (ran oneHost keptAlive).1

end ReliableAgents
