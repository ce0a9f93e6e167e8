import ReliableAgents.Lifecycle.Phases

/-!
# The life of one reservation

Four writers reach a row of `idempotency`: `begin` inserts it, `settle` and
`reconcile` close it, `release` drops it while it is open. Every other statement of
the system leaves the table alone, so one inversion lemma says all that a step can
do to one action id.
-/

namespace ReliableAgents

/-! ## Statements that leave the ledger alone -/

theorem foldlM_keeps {α β : Type} {f : β → α → Option β} {I : β → Prop}
    (next : ∀ b x b', I b → f b x = some b' → I b') {xs : List α} {b b' : β} (hb : I b)
    (h : xs.foldlM f b = some b') : I b' := by
  induction xs generalizing b with
  | nil =>
      cases h
      exact hb
  | cons x rest ih =>
      rw [List.foldlM_cons, Option.bind_eq_bind, Option.bind_eq_some_iff] at h
      obtain ⟨mid, hmid, hrest⟩ := h
      exact ih (next b x mid hb hmid) hrest

section Untouched

variable {ladder : Ladder} {db db' : Db}

theorem claimOne_idempotency {poolTier : TierName} {workerId : WorkerId} {ttl : Int} {now : Time}
    {locked : Uuid → Bool} {task : Handout}
    (h : claimOne poolTier workerId ttl now locked db = some (task, db')) :
    db'.idempotency = db.idempotency := by
  obtain ⟨t, -, -, -, rfl⟩ := claimOne_spec h
  rfl

theorem checkpointSuccess_idempotency {task : Handout} {result : PyDict} {cost tokens : Int}
    {started : Time} {workerId : WorkerId} {now : Time} {ok : Bool}
    (h : checkpointSuccess task result cost tokens started workerId now db = some (db', ok)) :
    db'.idempotency = db.idempotency := by
  rcases checkpointSuccess_spec h with ⟨-, rfl⟩ | ⟨_, _, _, -, -, -, -, -, -, -, rfl⟩ <;> rfl

theorem reportFailure_idempotency {task : Handout} {failure : FailureReport} {started : Time}
    {workerId : WorkerId} {now : Time} {ok : Bool}
    (h : reportFailure task failure started workerId now db = (db', ok)) :
    db'.idempotency = db.idempotency := by
  rcases reportFailure_spec h with ⟨-, rfl⟩ | ⟨_, -, -, -, -, rfl⟩ <;> rfl

theorem reap_idempotency (batch : Nat) (jitter : Uuid → Time) (now : Time) (locked : Uuid → Bool)
    (db : Db) : (reap batch jitter now locked db).idempotency = db.idempotency := by
  unfold reap
  generalize expiredLeases batch now locked db = rows
  induction rows generalizing db with
  | nil => rfl
  | cons e rest ih => exact ih _

theorem repairStalled_idempotency {batch : Nat} {ids : Uuid → Uuid} {now : Time}
    {locked : Uuid → Bool} (h : repairStalled ladder batch ids now locked db = some db') :
    db'.idempotency = db.idempotency := by
  unfold repairStalled at h
  split at h
  · cases h
  · refine foldlM_keeps (I := fun d => d.idempotency = db.idempotency) ?_ rfl h
    intro d a d' hd hrepair
    unfold repairOne at hrepair
    split at hrepair
    · cases hrepair
    · split at hrepair
      · cases hrepair
        exact hd
      · obtain ⟨-, -, -, ⟨table, rfl⟩, -⟩ := insertTask_spec hrepair
        exact hd

theorem routeOne_idempotency {flags : Flags} {now : Time} {task : TaskInstance} {routed : Routed}
    (h : routeOne ladder flags now task db = some (routed, db')) :
    db'.idempotency = db.idempotency := by
  have hroute := routeOne_spec h
  split at hroute
  · rw [hroute.2]
    rfl
  · rw [hroute.2]
    rfl
  · obtain ⟨-, reason, hkill⟩ := hroute
    obtain ⟨_, _, _, -, -, -, -, -, -, rfl⟩ := kill_spec hkill
    rfl

theorem classify_idempotency {limit : Nat} {flags : Uuid → Flags} {now : Time}
    {locked : Uuid → Bool} (h : classify ladder limit flags now locked db = some db') :
    db'.idempotency = db.idempotency := by
  refine foldlM_keeps (I := fun d => d.idempotency = db.idempotency) ?_ rfl h
  intro d task d' hd hroute
  obtain ⟨routed, hrouted, rfl⟩ := Option.map_eq_some_iff.1 hroute
  exact (routeOne_idempotency hrouted).trans hd

theorem createAgents_idempotency {plan : List Int} {tier : TierName} {agentIds : List Uuid}
    {ids : Uuid → Nat → Uuid} {now : Time}
    (h : createAgents ladder plan tier agentIds ids now db = some db') :
    db'.idempotency = db.idempotency := by
  refine foldlM_keeps (I := fun d => d.idempotency = db.idempotency) ?_ rfl h
  intro d a d' hd hcreate
  unfold createAgent at hcreate
  obtain ⟨mid, hmid, hplan⟩ := Option.bind_eq_some_iff.1 hcreate
  obtain ⟨-, ⟨agents, rfl⟩, -⟩ := insertAgent_spec hmid
  obtain ⟨⟨table, rfl⟩, -⟩ := insertPlan_spec hplan
  exact hd

end Untouched

/-! ## Calls of the ledger -/

def Begins (s : Sys) (a : Action) (agentId : Uuid) (seq : Nat) (actionType : String) (now : Time) :
    Prop :=
  (∃ p task started ctx, a = .begin p now ∧ (s.workers p).phase = .reserving task started ctx ∧
      agentId = task.agentId ∧ seq = task.seq ∧ actionType = task.actionType) ∨
    a = .ledger (.begin agentId seq actionType now)

def Settles (s : Sys) (a : Action) (key : ActionId) (fields : JsonObject) (now : Time) : Prop :=
  (∃ p task started, a = .settle p now ∧
      (s.workers p).phase = .settling task started key (.json fields)) ∨
    a = .ledger (.settle key (.json fields) now)

def Proceeds (cfg : Config) (c : SysTransition) (key : ActionId) : Prop :=
  ∃ agentId seq actionType now db, Begins c.before c.action agentId seq actionType now ∧
    Ledger.begin cfg.sha256 agentId seq actionType now c.before.db =
      some (.proceed, none, key, db)

def Releases (c : SysTransition) (key : ActionId) : Prop :=
  c.action = .ledger (.release key) ∧ (Ledger.release key c.before.db).2 = true

/-- All that one step can do to the reservation of one id. -/
inductive ReservationStep (cfg : Config) (c : SysTransition) (key : ActionId) :
    Option Reservation → Option Reservation → Prop where
  | keep (r? : Option Reservation) : ReservationStep cfg c key r? r?
  | reserve {agentId : Uuid} {seq : Nat} {actionType : String} {now : Time} :
      Begins c.before c.action agentId seq actionType now →
      key = Ledger.actionId cfg.sha256 agentId.str seq actionType → Proceeds cfg c key →
      ReservationStep cfg c key none (some (Ledger.reserved key agentId seq actionType now))
  | settle {fields : JsonObject} {now : Time} {r : Reservation} :
      Settles c.before c.action key fields now → r.state = .inFlight →
      ReservationStep cfg c key (some r) (some (Ledger.settled fields now r))
  | release {r : Reservation} :
      Releases c key → r.state = .inFlight → ReservationStep cfg c key (some r) none
  | reconcile {afterSeconds : Option Int} {batch : Nat} {now : Time} {locked : ActionId → Bool}
      {r : Reservation} :
      c.action = .reconcile afterSeconds batch now locked → r.state = .inFlight →
      r.createdAt < now - seconds
        (afterSeconds.getD (cfg.leaseTtlSeconds * Ledger.reconcileAfter)) →
      locked key = false →
      ReservationStep cfg c key (some r) (some (Ledger.settled Ledger.unresolved now r))

section Calls

variable {cfg : Config} {s s' : Sys} {a : Action} {key : ActionId}

theorem beginAction_spec {sha256 : String → ActionId} {task : Handout} {started : Time}
    {ctx : TaskContext} {now : Time} {db db' : Db} {phase : Phase}
    (h : beginAction sha256 task started ctx now db = (phase, db')) :
    (phase = .idle ∧ db' = db) ∨
      ∃ status stored key,
        Ledger.begin sha256 task.agentId task.seq task.actionType now db =
          some (status, stored, key, db') ∧
        phase = match status with
          | .proceed => .running task started ctx (some key)
          | .done => .finished task started (.json (stored.getD .nil)) 0 0 true
          | .inFlight => .idle := by
  unfold beginAction at h
  split at h
  · cases h
    exact Or.inl ⟨rfl, rfl⟩
  · rename_i status stored key db'' hbegin
    right
    cases status <;> cases h <;> exact ⟨_, stored, key, hbegin, rfl⟩

/-- What a call of `begin` does to one id. -/
theorem begin_reservation {c : SysTransition} {agentId : Uuid} {seq : Nat} {actionType : String}
    {now : Time} {status : Ledger.Status} {stored : Option JsonObject} {key' : ActionId} {db' : Db}
    (hbegins : Begins c.before c.action agentId seq actionType now)
    (h : Ledger.begin cfg.sha256 agentId seq actionType now c.before.db =
      some (status, stored, key', db')) (key : ActionId) :
    ReservationStep cfg c key (c.before.db.reservation key) (db'.reservation key) := by
  obtain ⟨hkey, ⟨rfl, rfl, hnone, -, -, hread⟩ | ⟨rfl, -⟩⟩ := Ledger.begin_spec h
  · rw [hread]
    split
    · rename_i heq
      subst heq
      rw [hnone]
      exact .reserve hbegins hkey ⟨_, _, _, _, _, hbegins, h⟩
    · exact .keep _
  · exact .keep _

theorem settle_reservation {c : SysTransition} {key' : ActionId} {result : PyDict} {now : Time}
    {db' : Db} {ok : Bool}
    (hsettles : ∀ fields, result = .json fields → Settles c.before c.action key' fields now)
    (h : Ledger.settle key' result now c.before.db = some (db', ok)) (key : ActionId) :
    ReservationStep cfg c key (c.before.db.reservation key) (db'.reservation key) := by
  obtain ⟨fields, hresult, -, -, hread⟩ := Ledger.settle_spec h
  rw [hread]
  cases hr : c.before.db.reservation key with
  | none => exact .keep _
  | some r =>
      rw [Option.map_some]
      split
      · rename_i hopen
        have hkey : key' = key := hopen.1.symm.trans (Relational.Table.key_of_get? hr)
        exact .settle (hkey ▸ hsettles fields hresult) hopen.2
      · exact .keep _

/-- The inversion lemma of the ledger. -/
theorem step_reservation (h : step cfg s a = some s') (key : ActionId) :
    ReservationStep cfg ⟨s, a, s'⟩ key (s.db.reservation key) (s'.db.reservation key) := by
  have untouched : s'.db.idempotency = s.db.idempotency →
      ReservationStep cfg ⟨s, a, s'⟩ key (s.db.reservation key) (s'.db.reservation key) := by
    intro hsame
    unfold Db.reservation
    rw [hsame]
    exact .keep _
  cases a with
  | claim q now started locked =>
      simp only [step] at h
      split at h
      · cases h
        apply untouched
        unfold claimTask
        split
        · rfl
        · rename_i claimed hclaim
          exact claimOne_idempotency hclaim
      · cases h
  | load q | run q outcome | confirm q =>
      apply untouched
      simp only [step] at h
      repeat' split at h
      all_goals cases h
      all_goals rfl
  | begin q now =>
      simp only [step] at h
      split at h
      · rename_i task started ctx hphase
        cases h
        generalize hbegun : beginAction cfg.sha256 task started ctx now s.db = begun
        obtain ⟨phase, db'⟩ := begun
        have hbegins : Begins s (.begin q now) task.agentId task.seq task.actionType now :=
          Or.inl ⟨q, task, started, ctx, rfl, hphase, rfl, rfl, rfl⟩
        rcases beginAction_spec hbegun with ⟨-, rfl⟩ | ⟨status, stored, key', hbegin, -⟩
        · exact .keep _
        · exact begin_reservation (c := ⟨s, .begin q now, _⟩) hbegins hbegin key
      · cases h
  | settle q now =>
      simp only [step] at h
      split at h
      · rename_i task started actionKey result hphase
        cases h
        unfold settleAction
        split
        · exact .keep _
        · rename_i settled hsettle
          refine settle_reservation (c := ⟨s, .settle q now, _⟩) ?_ hsettle key
          rintro fields rfl
          exact Or.inl ⟨q, task, started, rfl, hphase⟩
      · cases h
  | checkpoint q now =>
      apply untouched
      simp only [step] at h
      split at h
      · split at h
        · cases h
          rfl
        · rename_i committed hcommit
          cases h
          exact checkpointSuccess_idempotency hcommit
      · cases h
  | report q now =>
      apply untouched
      simp only [step] at h
      split at h
      · cases h
        exact reportFailure_idempotency rfl
      · cases h
  | heartbeat q now =>
      apply untouched
      simp only [step] at h
      split at h
      · split at h
        · cases h
        · cases h
          rfl
      · cases h
  | straggle q taskId now =>
      apply untouched
      simp only [step] at h
      split at h
      · cases h
        rfl
      · cases h
  | join q taskId =>
      rw [step_join h] at untouched ⊢
      exact untouched rfl
  | abandon q | crash q | finalise batch now locked =>
      cases h
      exact untouched rfl
  | reap batch jitter now locked =>
      cases h
      exact untouched (reap_idempotency batch jitter now locked s.db)
  | repair batch ids now locked =>
      cases h
      apply untouched
      rw [Sys.setDb_db]
      cases hrepair : repairStalled cfg.ladder batch ids now locked s.db with
      | none => rfl
      | some db => exact repairStalled_idempotency hrepair
  | classify limit flags now locked =>
      cases h
      apply untouched
      rw [Sys.setDb_db]
      cases hclassify : classify cfg.ladder limit flags now locked s.db with
      | none => rfl
      | some db => exact classify_idempotency hclassify
  | reconcile afterSeconds batch now locked =>
      cases h
      obtain ⟨-, hread⟩ :=
        Ledger.reconcile_spec cfg.leaseTtlSeconds afterSeconds batch now locked s.db
      rcases hread key with hsame | ⟨r, hr, hopen, hage, hunlocked, hclosed⟩
      · rw [Sys.setDb_db, hsame]
        exact .keep _
      · rw [Sys.setDb_db, hclosed, hr]
        exact .reconcile rfl hopen hage hunlocked
  | submit forceTier plan agentIds ids now =>
      apply untouched
      simp only [step] at h
      split at h
      · cases h
        rfl
      · rename_i db hsubmit
        cases h
        obtain ⟨-, -, -, tier, -, hcreate⟩ := submitAgents_spec hsubmit
        exact createAgents_idempotency hcreate
  | seed plan agentIds ids now =>
      cases h
      apply untouched
      rw [Sys.setDb_db]
      cases hseed : seed cfg.ladder plan agentIds ids now s.db with
      | none => rfl
      | some db => exact createAgents_idempotency hseed
  | ledger call =>
      cases h
      rw [Sys.setDb_db]
      cases call with
      | begin agentId seq actionType now =>
          simp only [LedgerCall.perform]
          split
          · exact .keep _
          · rename_i answer hbegin
            exact begin_reservation (c := ⟨s, .ledger (.begin agentId seq actionType now), _⟩)
              (Or.inr rfl) hbegin key
      | settle key' result now =>
          simp only [LedgerCall.perform]
          split
          · exact .keep _
          · rename_i answer hsettle
            refine settle_reservation (c := ⟨s, .ledger (.settle key' result now), _⟩) ?_ hsettle
              key
            rintro fields rfl
            exact Or.inr rfl
      | release key' =>
          simp only [LedgerCall.perform]
          cases hreleased : Ledger.release key' s.db with
          | mk db' ok =>
              obtain ⟨hok, -, hread⟩ := Ledger.release_spec hreleased
              rw [hread]
              cases hr : s.db.reservation key with
              | none => exact .keep _
              | some r =>
                  rw [Option.filter_some]
                  split
                  · exact .keep _
                  · rename_i hopen
                    simp only [Bool.not_eq_true, Bool.not_eq_false'] at hopen
                    obtain ⟨hkey, hstate⟩ := Ledger.inFlightKey_iff.1 hopen
                    have hsame : key' = key := hkey.symm.trans (Relational.Table.key_of_get? hr)
                    subst hsame
                    refine .release ⟨rfl, ?_⟩ hstate
                    rw [hreleased]
                    exact hok.2 ⟨r, hr, hstate⟩

/-- Every reservation was inserted by a call of `begin` for the action it names. -/
theorem SysRun.reservation_origin {ts : List SysTransition} (h : SysRun cfg ts s)
    {r : Reservation} (hr : s.db.reservation key = some r) :
    ∃ c ∈ ts, ∃ now, Begins c.before c.action r.agentId r.seq r.actionType now ∧
      Proceeds cfg c key ∧ key = Ledger.actionId cfg.sha256 r.agentId.str r.seq r.actionType := by
  induction h generalizing r with
  | nil => cases hr
  | @snoc us u u' a hrun hs ih =>
      have hstep := step_reservation hs key
      rw [hr] at hstep
      have past : ∀ r₀ : Reservation, u.db.reservation key = some r₀ → r₀.agentId = r.agentId →
          r₀.seq = r.seq → r₀.actionType = r.actionType →
          ∃ c ∈ us ++ [⟨u, a, u'⟩], ∃ now,
            Begins c.before c.action r.agentId r.seq r.actionType now ∧ Proceeds cfg c key ∧
              key = Ledger.actionId cfg.sha256 r.agentId.str r.seq r.actionType := by
        intro r₀ hr₀ hagent hseq htype
        obtain ⟨c, hc, now, hbegins, hproceeds, hkey⟩ := ih hr₀
        rw [hagent, hseq, htype] at hbegins hkey
        exact ⟨c, List.mem_append_left _ hc, now, hbegins, hproceeds, hkey⟩
      generalize hbefore : u.db.reservation key = before at hstep
      cases hstep with
      | keep => exact past r hbefore rfl rfl rfl
      | @reserve agentId seq actionType now hbegins hkey hproceeds =>
          exact ⟨⟨u, a, u'⟩, by simp, now, hbegins, hproceeds, hkey⟩
      | @settle _ _ r₀ => exact past r₀ hbefore rfl rfl rfl
      | @reconcile _ _ _ _ r₀ => exact past r₀ hbefore rfl rfl rfl

end Calls

end ReliableAgents
