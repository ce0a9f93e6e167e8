import ReliableAgents.Effects.AtMostOnce

/-!
# Reconciliation and live holders

A heartbeat keeps a lease alive for ever, but nothing refreshes the age of the
reservation, so `reconcile` may close it while its holder is still acting. The
holder's `settle` is recorded as long as no sweep comes later than the grace.
-/

namespace ReliableAgents

/-- Process `p` calls `settle` for the id with a dict that JSONB can hold. -/
def SettlesFor (d : SysTransition) (p : Nat) (task : Handout) (key : ActionId)
    (fields : JsonObject) (now : Time) : Prop :=
  d.action = .settle p now ∧ ∃ started,
    (d.before.workers p).phase = .settling task started key (.json fields)

/-- The row is still the worker's own, with its lease in the future. -/
def LiveHolder (cfg : Config) (d : SysTransition) (p : Nat) (task : Handout) (now : Time) : Prop :=
  ∃ t, d.before.db.task task.id = some t ∧ t.status = .running ∧
    t.leaseOwner = some (cfg.workerId p) ∧ ∃ expires, t.leaseExpires = some expires ∧ now < expires

def Commits (cfg : Config) (e : SysTransition) (p : Nat) (task : Handout) (fields : JsonObject) :
    Prop :=
  ∃ now started cost tokens db, e.action = .checkpoint p now ∧
    (e.before.workers p).phase = .committing task started (.json fields) cost tokens ∧
      checkpointSuccess task (.json fields) cost tokens started (cfg.workerId p) now e.before.db =
        some (db, true)

def StaysWith (p : Nat) (ts : List SysTransition) : Prop :=
  ∀ c ∈ ts, ∀ now started locked, c.action ≠ .claim p now started locked

/-- A sweep that comes at most its grace after `reserved`, or steps past the locked id. -/
def SweepsWithin (cfg : Config) (key : ActionId) (reserved : Time) (e : SysTransition) : Prop :=
  ∀ afterSeconds batch now locked, e.action = .reconcile afterSeconds batch now locked →
    now ≤ reserved + seconds (afterSeconds.getD (cfg.leaseTtlSeconds * Ledger.reconcileAfter)) ∨
      locked key = true

/-- No sweep between the PROCEED of a live holder and its `settle` outlasts the grace. -/
def Prompt (cfg : Config) (ts : List SysTransition) : Prop :=
  ∀ pre c mid d post p task key reserved now fields, ts = pre ++ c :: (mid ++ d :: post) →
    Clears c p task key reserved → SettlesFor d p task key fields now →
    LiveHolder cfg d p task now → ∀ e ∈ mid, SweepsWithin cfg key reserved e

/-- What a worker that keeps its lease may rely on. -/
structure HoldersRecorded (cfg : Config) (ts : List SysTransition) : Prop where
  settles : ∀ pre c mid d post p task key reserved now fields,
    ts = pre ++ c :: (mid ++ d :: post) → Clears c p task key reserved →
    SettlesFor d p task key fields now → LiveHolder cfg d p task now →
    (∃ r, d.before.db.reservation key = some r ∧ r.state = .inFlight) ∧
      (∃ db, Ledger.settle key (.json fields) now d.before.db = some (db, true)) ∧
        ∃ r, d.after.db.reservation key = some r ∧ r.state = .done ∧ r.result = some fields
  commits : ∀ pre c mid d rest e post p task key reserved now fields result,
    ts = pre ++ c :: (mid ++ d :: (rest ++ e :: post)) → Clears c p task key reserved →
    SettlesFor d p task key fields now → LiveHolder cfg d p task now → StaysWith p rest →
    Commits cfg e p task result →
    ∃ r t ag, e.after.db.reservation key = some r ∧ r.state = .done ∧ r.result = some result ∧
      e.after.db.task task.id = some t ∧ t.status = .succeeded ∧ t.result = some result ∧
        e.after.db.agent task.agentId = some ag ∧ ag.context.lookup task.seq = some result

section Open

variable {cfg : Config} {s s' : Sys} {a : Action} {ts : List SysTransition} {key : ActionId}

/-! ## The reservation of a live holder -/

/-- From the clearance on, the reservation is as it was inserted for as long as its
holder holds it open and every sweep comes within the grace. -/
theorem reservation_held {pre mid : List SysTransition} {c : SysTransition} {s' : Sys} {p : Nat}
    {task task' : Handout} {reserved : Time} (hpre : SysRun cfg pre c.before)
    (hs : step cfg c.before c.action = some c.after) (hmid : Machine.Run (step cfg) c.after mid s')
    (hclears : Clears c p task key reserved)
    (hledger : ∀ e ∈ pre ++ c :: mid, ∀ call, e.action ≠ .ledger call)
    (hsweeps : ∀ e ∈ mid, SweepsWithin cfg key reserved e)
    (hopen : (s'.workers p).phase.open? = some (task', key)) :
    s'.db.reservation key =
      some (Ledger.reserved key task.agentId task.seq task.actionType reserved) := by
  have hunreleased : ∀ e ∈ pre ++ c :: mid, ¬ Releases e key :=
    fun e he hreleases => hledger e he _ hreleases.1
  have hall : s'.db.reservation key ≠ none ∧
      ∀ held, (s'.workers p).phase.open? = some (held, key) → s'.db.reservation key =
        some (Ledger.reserved key task.agentId task.seq task.actionType reserved) := by
    refine hmid.invariant_along (I := fun _ u => u.db.reservation key ≠ none ∧
      ∀ held, (u.workers p).phase.open? = some (held, key) → u.db.reservation key =
        some (Ledger.reserved key task.agentId task.seq task.actionType reserved))
      (fun e => e ∈ mid) ?_ ?_ fun e he => he
    · have hinserted := (hclears.reserves hs).2
      exact ⟨by rw [hinserted]; exact nofun, fun _ _ => hinserted⟩
    · rintro us u a u' hrun hpast ⟨hpresent, hheld⟩ hstep hnew
      have hin : (⟨u, a, u'⟩ : SysTransition) ∈ pre ++ c :: mid :=
        List.mem_append_right _ (List.mem_cons_of_mem _ hnew)
      have hkept := hunreleased _ hin
      have hres := step_reservation hstep key
      refine ⟨hres.reserved hpresent hkept, fun held hafter => ?_⟩
      have hbefore : (u.workers p).phase.open? = some (held, key) := by
        rcases step_open hstep hafter with hbefore | ⟨now, hagain⟩
        · exact hbefore
        · exact absurd (hagain.reserves hstep).1 hpresent
      rw [hheld held hbefore] at hres
      generalize hgoal : u'.db.reservation key = after at hres
      cases hres with
      | keep => rfl
      | release hreleases => exact absurd hreleases hkept
      | reconcile ha _ hage hunlocked =>
          rcases hsweeps _ hnew _ _ _ _ ha with hwithin | hlocked
          · exact absurd (lt_sub_iff_add_lt.1 hage) (not_lt.2 hwithin)
          · rw [hunlocked] at hlocked
            cases hlocked
      | settle hsettles _ =>
          -- only the holder could settle, and then it would not hold the id any more
          rcases hsettles with ⟨q, task'', started, ha, hq⟩ | ha
          · have hu : SysRun cfg (pre ++ [c] ++ us) u := (hpre.snoc hs).append hrun
            have hsole : SoleOpen key u := hu.soleOpen fun e he => by
              simp only [List.mem_append, List.mem_singleton] at he
              rcases he with (he | rfl) | he
              · exact hunreleased e (List.mem_append_left _ he)
              · exact hunreleased _ (List.mem_append_right _ List.mem_cons_self)
              · exact hunreleased e
                  (List.mem_append_right _ (List.mem_cons_of_mem _ (hpast e he)))
            have hsame : p = q := hsole.single p q held task'' hbefore (by rw [hq]; rfl)
            simp only at ha
            rw [ha, ← hsame] at hstep
            rw [step_settle hstep] at hafter
            cases hafter
          · exact absurd ha (hledger _ hin _)
  exact hall.2 task' hopen

/-! ## What is committed -/

theorem Context.lookup_merge (context : Context) (seq : Nat) (result : JsonObject) :
    (context.merge seq result).lookup seq = some result := by
  unfold Context.merge
  split
  · rename_i hmem
    induction context with
    | nil => cases hmem
    | cons entry rest ih =>
        rw [List.map_cons]
        by_cases heq : entry.1 = seq
        · rw [if_pos heq, List.lookup_cons_self]
        · have hrest : seq ∈ rest.map Prod.fst := by
            rcases List.mem_cons.1 hmem with hhead | hrest
            · exact absurd hhead.symm heq
            · exact hrest
          rw [if_neg heq, List.lookup_cons]
          simp only [beq_eq_false_iff_ne.2 (Ne.symm heq)]
          exact ih hrest
  · rename_i hfresh
    rw [List.lookup_append, List.lookup_eq_none_iff.2]
    · simp
    · intro entry hentry
      simp only [bne_iff_ne, ne_eq]
      rintro rfl
      exact hfresh (List.mem_map_of_mem hentry)

/-- A holder that was not overtaken by a sweep settles its id. -/
theorem settle_of_prompt {pre mid : List SysTransition} {c d : SysTransition} {p : Nat}
    {task task' : Handout} {reserved now : Time} {fields : JsonObject}
    (hpre : SysRun cfg pre c.before) (hs : step cfg c.before c.action = some c.after)
    (hmid : Machine.Run (step cfg) c.after mid d.before)
    (hclears : Clears c p task key reserved)
    (hledger : ∀ e ∈ pre ++ c :: mid, ∀ call, e.action ≠ .ledger call)
    (hsweeps : ∀ e ∈ mid, SweepsWithin cfg key reserved e)
    (hsettles : SettlesFor d p task' key fields now)
    (hd : step cfg d.before d.action = some d.after) :
    d.before.db.reservation key =
        some (Ledger.reserved key task.agentId task.seq task.actionType reserved) ∧
      (∃ db, Ledger.settle key (.json fields) now d.before.db = some (db, true)) ∧
        d.after.db.reservation key = some (Ledger.settled fields now
          (Ledger.reserved key task.agentId task.seq task.actionType reserved)) := by
  obtain ⟨ha, started, hphase⟩ := hsettles
  have hopen : (d.before.workers p).phase.open? = some (task', key) := by
    rw [hphase]
    rfl
  have hbefore := reservation_held hpre hs hmid hclears hledger hsweeps hopen
  rw [ha] at hd
  simp only [step, hphase, Option.some.injEq] at hd
  obtain ⟨⟨db, ok⟩, hsettle⟩ : ∃ answer, Ledger.settle key (.json fields) now d.before.db =
      some answer := ⟨_, rfl⟩
  obtain ⟨fields', hfields, hok, -, hread⟩ := Ledger.settle_spec hsettle
  cases hfields
  have htrue : ok = true := hok.2 ⟨_, hbefore, rfl⟩
  refine ⟨hbefore, ⟨db, htrue ▸ hsettle⟩, ?_⟩
  rw [← hd, Sys.setPhase_db, Sys.setDb_db, settleAction, hsettle]
  simp only [hread, hbefore, Option.map_some, Ledger.reserved_key, true_and]
  rfl

/-! ## Up to the checkpoint -/

/-- A worker in this phase holds the result for the task, or nothing. -/
def Phase.Carries (task : Handout) (fields : JsonObject) : Phase → Prop
  | .idle => True
  | .finished held _ result _ _ _ | .committing held _ result _ _ =>
      held = task ∧ result = .json fields
  | _ => False

theorem settleAction_carries (ladder : Ladder) (task : Handout) (started : Time) (key : ActionId)
    (fields : JsonObject) (now : Time) (db : Db) :
    (settleAction ladder task started key (.json fields) now db).1.Carries task fields := by
  unfold settleAction finishTask
  split
  · trivial
  · split
    · trivial
    · exact ⟨rfl, rfl⟩

theorem step_carries (h : step cfg s a = some s') {p : Nat} {task : Handout} {fields : JsonObject}
    (hclaims : ∀ now started locked, a ≠ .claim p now started locked)
    (hcarries : (s.workers p).phase.Carries task fields) :
    (s'.workers p).phase.Carries task fields := by
  rcases step_phase h p with hsame | hstep
  · exact hsame ▸ hcarries
  · generalize (s.workers p).phase = before at hstep hcarries
    generalize (s'.workers p).phase = after at hstep
    cases hstep with
    | claim => exact absurd rfl (hclaims _ _ _)
    | load | begin | run | settle => exact hcarries.elim
    | confirm => exact hcarries
    | stop => trivial

/-- What is committed is what was settled. -/
theorem committed_of_settled {rest : List SysTransition} {d e : SysTransition} {p : Nat}
    {task : Handout} {now : Time} {fields result : JsonObject}
    (hsettles : SettlesFor d p task key fields now)
    (hd : step cfg d.before d.action = some d.after)
    (hrest : Machine.Run (step cfg) d.after rest e.before) (hstays : StaysWith p rest)
    (hcommits : Commits cfg e p task result) : result = fields := by
  obtain ⟨ha, started, hphase⟩ := hsettles
  have hcarries : (e.before.workers p).phase.Carries task fields := by
    refine hrest.invariant_of (I := fun u => (u.workers p).phase.Carries task fields)
      (fun c => ∀ now started locked, c.action ≠ .claim p now started locked) ?_ ?_ hstays
    · rw [ha] at hd
      simp only [step, hphase, Option.some.injEq] at hd
      rw [← hd, Sys.setPhase_workers, if_pos rfl]
      exact settleAction_carries cfg.ladder task started key fields now d.before.db
    · intro u a u' hu hs hclaims
      exact step_carries hs hclaims hu
  obtain ⟨_, _, _, _, _, -, hcommitting, -⟩ := hcommits
  rw [hcommitting] at hcarries
  exact PyDict.json.inj hcarries.2

theorem Commits.written {e : SysTransition} {p : Nat} {task : Handout} {fields : JsonObject}
    (h : Commits cfg e p task fields) (he : step cfg e.before e.action = some e.after) :
    ∃ t ag, e.after.db.task task.id = some t ∧ t.status = .succeeded ∧ t.result = some fields ∧
      e.after.db.agent task.agentId = some ag ∧ ag.context.lookup task.seq = some fields := by
  obtain ⟨now, started, cost, tokens, db, ha, hphase, hcommit⟩ := h
  rw [ha] at he
  simp only [step, hphase, hcommit, Option.some.injEq] at he
  rw [← he, Sys.setPhase_db, Sys.setDb_db]
  obtain ⟨hfalse, -⟩ | ⟨_, t, ag, -, hfields, ht, howner, hrunning, hag, hcursor, rfl⟩ :=
    checkpointSuccess_spec hcommit
  · cases hfalse
  · cases hfields
    refine ⟨t.markedSucceeded fields now, ag.advanced task.seq fields cost tokens now, ?_, rfl, rfl,
      ?_, Context.lookup_merge ..⟩
    · rw [Db.task, get?_update_leasedBy ht howner hrunning, if_pos rfl]
    · have hid : ag.id = task.agentId := Relational.Table.key_of_get? hag
      simp only [Db.agent] at hag ⊢
      rw [Relational.Table.get?_update, hag, Option.map_some, if_pos (by simp [hid, hcursor])]

/-- `settle_of_prompt` at a cut of the run. -/
theorem Prompt.recorded (hprompt : Prompt cfg ts) (h : SysRun cfg ts s)
    (hledger : ∀ c ∈ ts, ∀ call, c.action ≠ .ledger call)
    {pre mid post : List SysTransition} {c d : SysTransition} {p : Nat} {task : Handout}
    {reserved now : Time} {fields : JsonObject} (hcut : ts = pre ++ c :: (mid ++ d :: post))
    (hclears : Clears c p task key reserved) (hsettles : SettlesFor d p task key fields now)
    (hlive : LiveHolder cfg d p task now) :
    d.before.db.reservation key =
        some (Ledger.reserved key task.agentId task.seq task.actionType reserved) ∧
      (∃ db, Ledger.settle key (.json fields) now d.before.db = some (db, true)) ∧
        d.after.db.reservation key = some (Ledger.settled fields now
          (Ledger.reserved key task.agentId task.seq task.actionType reserved)) := by
  have hsweeps := hprompt pre c mid d post p task key reserved now fields hcut hclears hsettles
    hlive
  subst hcut
  obtain ⟨hpre, hs, hrest⟩ := Machine.Run.split h
  obtain ⟨hmid, hd, -⟩ := Machine.Run.split hrest
  refine settle_of_prompt hpre hs hmid hclears (fun e he => hledger e ?_) hsweeps hsettles hd
  rw [show pre ++ c :: (mid ++ d :: post) = (pre ++ c :: mid) ++ d :: post by simp]
  exact List.mem_append_left _ he

/-- As long as every sweep between a PROCEED and its `settle` comes within the grace, a
live holder's result is recorded, and it is what its checkpoint commits. -/
theorem holdersRecorded_of_prompt (h : SysRun cfg ts s)
    (hledger : ∀ c ∈ ts, ∀ call, c.action ≠ .ledger call) (hprompt : Prompt cfg ts) :
    HoldersRecorded cfg ts where
  settles := by
    intro pre c mid d post p task key reserved now fields hcut hclears hsettles hlive
    obtain ⟨hbefore, hanswer, hafter⟩ := hprompt.recorded h hledger hcut hclears hsettles hlive
    exact ⟨⟨_, hbefore, rfl⟩, hanswer, ⟨_, hafter, rfl, rfl⟩⟩
  commits := by
    intro pre c mid d rest e post p task key reserved now fields result hcut hclears hsettles hlive
      hstays hcommits
    obtain ⟨-, -, hafter⟩ := hprompt.recorded h hledger hcut hclears hsettles hlive
    subst hcut
    obtain ⟨-, -, hfromC⟩ := Machine.Run.split h
    obtain ⟨-, hd, hfromD⟩ := Machine.Run.split hfromC
    obtain ⟨hrest, he, -⟩ := Machine.Run.split hfromD
    obtain rfl := committed_of_settled hsettles hd hrest hstays hcommits
    obtain ⟨t, ag, ht, hdone, hresult, hag, hcontext⟩ := hcommits.written he
    have hclosed := done_of_run (hrest.snoc he) hafter rfl
    exact ⟨_, t, ag, hclosed, rfl, rfl, ht, hdone, hresult, hag, hcontext⟩

end Open

/-! ## Within the grace, and past it -/

/-- The clocks of a run do not go back. -/
def Timed (ts : List SysTransition) : Prop :=
  ts.Pairwise fun c d => ∀ x ∈ c.action.clock, ∀ y ∈ d.action.clock, x ≤ y

instance : DecidablePred Timed := fun ts =>
  inferInstanceAs
    (Decidable (ts.Pairwise fun c d => ∀ x ∈ c.action.clock, ∀ y ∈ d.action.clock, x ≤ y))

/-- A worker creates a ticket: PROCEED at once, a heartbeat every ten seconds, a sweep,
and the checkpoint as soon as `run` has returned. -/
def longTicket (beats : Nat) (sweep : Time) : List Action :=
  [submitPlan [40], .claim 0 0 0 unlocked, .load 0, .begin 0 0] ++
    (List.range beats).map (fun n => .heartbeat 0 (seconds (10 * (n + 1)))) ++
    [.reconcile none 100 sweep unlocked, .run 0 ticketCreated, .settle 0 (sweep + seconds 1),
      .confirm 0, .checkpoint 0 (sweep + seconds 2)]

def Action.sweeps? : Action → Option (Option Int × Time)
  | .reconcile afterSeconds _ now _ => some (afterSeconds, now)
  | _ => none

def Action.reserves? : Action → Option Time
  | .begin _ now => some now
  | _ => none

theorem prompt_of {cfg : Config} {ts : List SysTransition}
    (h : ∀ c ∈ ts, ∀ reserved ∈ c.action.reserves?, ∀ e ∈ ts, ∀ sweep ∈ e.action.sweeps?,
      sweep.2 ≤ reserved + seconds (sweep.1.getD (cfg.leaseTtlSeconds * Ledger.reconcileAfter))) :
    Prompt cfg ts := by
  rintro pre c mid d post p task key reserved now fields rfl hclears - - e he afterSeconds batch
    sweep locked ha
  left
  refine h c (by simp) reserved (by rw [hclears.1]; rfl) e (by simp [he]) (afterSeconds, sweep) ?_
  rw [ha]
  rfl

theorem holdersRecorded_of_prompt_longTicket :
    ((ran oneHost (longTicket 5 (seconds 59))).2.db.task (rowId firstAgent 0)).map
        TaskInstance.status = some .succeeded ∧
      HoldersRecorded oneHost (ran oneHost (longTicket 5 (seconds 59))).1 :=
  ⟨by decide +kernel,
    holdersRecorded_of_prompt (run_ran oneHost (longTicket 5 (seconds 59)))
      (fun c hc => Action.ne_ledger
        ((by decide +kernel : ∀ c ∈ (ran oneHost (longTicket 5 (seconds 59))).1,
          c.action.callsLedger = false) c hc))
      (prompt_of (by decide +kernel))⟩

/-- A sweep past the grace closes the id of a worker whose lease is good for half a
minute more: `settle` is refused, and the checkpoint commits a ticket that the ledger
has as unresolved. -/
theorem longTicket_overtaken : ∃ ts s, SysRun oneHost ts s ∧ Timed ts ∧
    (∀ c ∈ ts, ∀ call, c.action ≠ .ledger call) ∧ ¬ HoldersRecorded oneHost ts ∧
      (s.db.task (rowId firstAgent 0)).map (fun t => (t.status, t.result)) =
        some (.succeeded, some (.cons "ticket" (.str "PAY-1") .nil)) ∧
      (s.db.reservation (taskKey oneHost firstAgent 0 40)).map Reservation.result =
        some (some Ledger.unresolved) := by
  let ts := (ran oneHost (longTicket 6 (seconds 61))).1
  have hlength : ts.length = 15 := by decide +kernel
  have hledger : ∀ c ∈ ts, c.action.callsLedger = false := by decide +kernel
  refine ⟨ts, _, run_ran oneHost (longTicket 6 (seconds 61)), by decide +kernel,
    fun c hc => Action.ne_ledger (hledger c hc), fun hrecorded => ?_, by decide +kernel,
    by decide +kernel⟩
  have hcut := Machine.cut_at ts (show 12 < ts.length by omega) (show 3 < 12 by omega)
  obtain ⟨-, ⟨db, htrue⟩, -⟩ := hrecorded.settles _ _ _ _ _ 0 _ (taskKey oneHost firstAgent 0 40) 0
    (seconds 62) (.cons "ticket" (.str "PAY-1") .nil) hcut ⟨rfl, 0, _, rfl, rfl⟩ ⟨rfl, 0, rfl⟩
    ⟨_, rfl, rfl, rfl, seconds 90, rfl, by decide⟩
  have hfalse : (Ledger.settle (taskKey oneHost firstAgent 0 40)
      (.json (.cons "ticket" (.str "PAY-1") .nil)) (seconds 62) ts[12].before.db).map Prod.snd =
        some false := by
    decide +kernel
  rw [htrue] at hfalse
  cases hfalse

end ReliableAgents
