import ReliableAgents.Effects.Success
import ReliableAgents.Lifecycle.PriorContext

/-!
# Action ids identify actions

An id is the digest of a text that can be read back, so one id stands for one action,
and one plan position is one row for ever. A refusal or a replay is therefore about the
task's own reservation, as long as no two texts of the run have one digest.
-/

namespace ReliableAgents

/-! ## Texts and digests -/

namespace Ledger

/-- The text of an agent id, a sequence number and an action type. -/
def identityText (action : Uuid × Int × String) : String :=
  actionText action.1.str action.2.1 action.2.2

def identityId (sha256 : String → ActionId) (action : Uuid × Int × String) : ActionId :=
  actionId sha256 action.1.str action.2.1 action.2.2

theorem identityText_injective : Function.Injective identityText := by
  rintro ⟨agentId, seq, actionType⟩ ⟨agentId', seq', actionType'⟩ htext
  obtain ⟨rfl, rfl, rfl⟩ := actionText_inj htext
  rfl

/-- A digest that keeps the texts of some actions apart keeps their ids apart. -/
theorem identityId_injOn {sha256 : String → ActionId} {actions : Set (Uuid × Int × String)}
    (hhash : Set.InjOn sha256 (identityText '' actions)) :
    Set.InjOn (identityId sha256) actions := by
  intro action hmem action' hmem' hid
  have htext : identityText action = identityText action' :=
    hhash (Set.mem_image_of_mem _ hmem) (Set.mem_image_of_mem _ hmem') hid
  exact identityText_injective htext

end Ledger

/-- Every way to compute an id gives the ledger's. -/
theorem KeyContext.keyFor_eq (sha256 : String → ActionId) (agentId : String) (seq : Int)
    (actionType : String) {injected : Option (String → ActionId)}
    (h : injected = none ∨ injected = some (ReliableAgents.idemKey sha256 agentId seq)) :
    KeyContext.keyFor sha256 ⟨agentId, seq, injected⟩ actionType =
      Ledger.actionId sha256 agentId seq actionType := by
  rcases h with rfl | rfl <;> rfl

/-! ## Answers of the ledger -/

/-- `run_task` of `task` on worker `p` calls `begin`. -/
def Asks (c : SysTransition) (p : Nat) (task : Handout) (now : Time) : Prop :=
  c.action = .begin p now ∧ ∃ started ctx, (c.before.workers p).phase = .reserving task started ctx

/-- The call of the task ends here: a twin holds its id. -/
def Refused (c : SysTransition) (p : Nat) : Prop := (c.after.workers p).phase = .idle

def Answered (c : SysTransition) (p : Nat) (task : Handout) (result : JsonObject) : Prop :=
  ∃ started, (c.after.workers p).phase = .finished task started (.json result) 0 0 true

section Answers

variable {cfg : Config} {ts : List SysTransition} {s : Sys}

theorem Asks.begins {c : SysTransition} {p : Nat} {task : Handout} {now : Time}
    (h : Asks c p task now) :
    Begins c.before c.action task.agentId task.seq task.actionType now := by
  obtain ⟨haction, started, ctx, hphase⟩ := h
  exact Or.inl ⟨p, task, started, ctx, haction, hphase, rfl, rfl, rfl⟩

theorem Asks.held {c : SysTransition} {p : Nat} {task : Handout} {now : Time}
    (h : Asks c p task now) : (c.before.workers p).phase.task? = some task := by
  obtain ⟨-, started, ctx, hphase⟩ := h
  rw [hphase]
  rfl

theorem SysRun.rowAt_of_past (h : SysRun cfg ts s) {c : SysTransition} (hc : c ∈ ts) {p : Nat}
    {task : Handout} (hheld : (c.before.workers p).phase.task? = some task) :
    ∃ t, s.db.rowAt task.agentId task.seq = some t ∧ t.id = task.id := by
  obtain ⟨pre, post, -, hpre, hs, hpost⟩ := h.exists_split hc
  have hsound : c.before.Sound := SysRun.sound hpre
  obtain ⟨t, ht, hid, -⟩ := rowAt_of_held hsound hheld ⟨rfl, rfl, rfl⟩
  have hrest : Machine.Run (step cfg) c.before ([c] ++ post) s :=
    (Machine.Run.nil.snoc hs).append hpost
  obtain ⟨-, hmoves⟩ := run_moves hrest hsound (Rules.free_holdAlong cfg _)
  obtain ⟨t', ht', hsame, -⟩ := hmoves.rowAt hsound.db ht
  exact ⟨t', ht', hsame.id.trans hid⟩

theorem Asks.same_row (h : SysRun cfg ts s) (hhash : NoCollision cfg ts) {c d : SysTransition}
    (hc : c ∈ ts) (hd : d ∈ ts) {p q : Nat} {task task' : Handout} {now now' : Time}
    (hasks : Asks c p task now) (hasks' : Asks d q task' now')
    (hid : task.key cfg = task'.key cfg) : task.id = task'.id := by
  obtain ⟨hagent, hseq, -⟩ := hhash.identifies hc hd hasks.begins hasks'.begins hid
  obtain ⟨t, ht, htask⟩ := h.rowAt_of_past hc hasks.held
  obtain ⟨t', ht', htask'⟩ := h.rowAt_of_past hd hasks'.held
  rw [hagent, hseq, ht'] at ht
  cases ht
  exact htask.symm.trans htask'

/-- What `run_task` does next is what the ledger said. -/
theorem Asks.after {c : SysTransition} {p : Nat} {task : Handout} {now : Time}
    (h : Asks c p task now) (hs : step cfg c.before c.action = some c.after) :
    (c.after.workers p).phase = .idle ∨ ∃ status stored key db started ctx,
      Ledger.begin cfg.sha256 task.agentId task.seq task.actionType now c.before.db =
        some (status, stored, key, db) ∧
      (c.after.workers p).phase = match status with
        | .proceed => .running task started ctx (some key)
        | .done => .finished task started (.json (stored.getD .nil)) 0 0 true
        | .inFlight => .idle := by
  obtain ⟨haction, started, ctx, hphase⟩ := h
  rw [haction] at hs
  simp only [step, hphase, Option.some.injEq] at hs
  rw [← hs, Sys.setPhase_workers, if_pos rfl]
  generalize hbegun : beginAction cfg.sha256 task started ctx now c.before.db = begun
  obtain ⟨phase, db⟩ := begun
  rcases beginAction_spec hbegun with ⟨rfl, -⟩ | ⟨status, stored, key, hcall, rfl⟩
  · exact Or.inl rfl
  · refine Or.inr ⟨status, stored, key, db, started, ctx, hcall, ?_⟩
    cases status <;> rfl

theorem Refused.row {c : SysTransition} {p : Nat} {task : Handout} {now : Time}
    (h : Refused c p) (hasks : Asks c p task now)
    (hs : step cfg c.before c.action = some c.after) :
    ∃ r, c.before.db.reservation (task.key cfg) = some r ∧ r.state = .inFlight := by
  obtain ⟨haction, started, ctx, hphase⟩ := hasks
  rw [haction] at hs
  simp only [step, hphase, Option.some.injEq] at hs
  rw [Refused, ← hs, Sys.setPhase_workers, if_pos rfl] at h
  obtain ⟨r, hr, hopen⟩ := (Option.any_eq_true _ _).1 (beginAction_idle.1 h)
  exact ⟨r, hr, of_decide_eq_true hopen⟩

theorem Answered.row {c : SysTransition} {p : Nat} {task : Handout} {now : Time}
    {result : JsonObject} (h : Answered c p task result) (hasks : Asks c p task now)
    (hs : step cfg c.before c.action = some c.after) :
    ∃ r, c.before.db.reservation (task.key cfg) = some r ∧ r.state = .done ∧
      result = r.result.getD .nil := by
  obtain ⟨started, hfinished⟩ := h
  rcases hasks.after hs with hidle | ⟨status, stored, key, db, _, _, hcall, hphase⟩
  · rw [hfinished] at hidle
    cases hidle
  · rw [hfinished] at hphase
    cases status with
    | proceed | inFlight => cases hphase
    | done =>
        cases hphase
        obtain ⟨rfl, ⟨hproceed, -⟩ | ⟨-, r, hr, ⟨-, hdone, rfl⟩ | ⟨hopen, -⟩⟩⟩ :=
          Ledger.begin_spec hcall
        · cases hproceed
        · exact ⟨r, hr, hdone, rfl⟩
        · cases hopen

/-- The id was reserved for the action by an earlier call that got PROCEED. -/
def ReservedEarlier (cfg : Config) (pre : List SysTransition) (agentId : Uuid) (seq : Nat)
    (actionType : String) : Prop :=
  ∃ d ∈ pre, ∃ now, Begins d.before d.action agentId seq actionType now ∧
    Proceeds cfg d (Ledger.actionId cfg.sha256 agentId.str seq actionType)

/-- What the ids of a run that has reached `s` stand for. -/
structure OwnAnswers (cfg : Config) (ts : List SysTransition) (s : Sys) : Prop where
  identifies : ∀ c ∈ ts, ∀ d ∈ ts, ∀ agentId seq actionType now agentId' seq' actionType' now',
    Begins c.before c.action agentId seq actionType now →
    Begins d.before d.action agentId' seq' actionType' now' →
    Ledger.actionId cfg.sha256 agentId.str seq actionType =
      Ledger.actionId cfg.sha256 agentId'.str seq' actionType' →
    agentId = agentId' ∧ seq = seq' ∧ actionType = actionType'
  rows : ∀ c ∈ ts, ∀ d ∈ ts, ∀ p q task task' now now', Asks c p task now → Asks d q task' now' →
    task.key cfg = task'.key cfg → task.id = task'.id
  answers : ∀ pre c post agentId seq actionType now status stored key db,
    ts = pre ++ c :: post → Begins c.before c.action agentId seq actionType now →
    Ledger.begin cfg.sha256 agentId seq actionType now c.before.db =
      some (status, stored, key, db) → status ≠ .proceed →
    ∃ r, c.before.db.reservation key = some r ∧
      (r.agentId = agentId ∧ r.seq = seq ∧ r.actionType = actionType) ∧
      ReservedEarlier cfg pre agentId seq actionType
  refused : ∀ pre c post p task now, ts = pre ++ c :: post → Asks c p task now →
    Refused c p →
    ∃ r, c.before.db.reservation (task.key cfg) = some r ∧ r.state = .inFlight ∧
      r.For task.agentId task.seq task.taskDefId ∧
      ReservedEarlier cfg pre task.agentId task.seq task.actionType
  answered : ∀ pre c post p task now result, ts = pre ++ c :: post → Asks c p task now →
    Answered c p task result →
    ∃ r, c.before.db.reservation (task.key cfg) = some r ∧ r.state = .done ∧
      result = r.result.getD .nil ∧ r.For task.agentId task.seq task.taskDefId ∧
      ReservedEarlier cfg pre task.agentId task.seq task.actionType
  keys : ∀ p task ctx actionType, (s.workers p).phase.task? = some task →
    (s.workers p).phase.context? = some ctx →
    (ctx.keyed cfg.sha256).keyFor cfg.sha256 actionType =
      Ledger.actionId cfg.sha256 task.agentId.str task.seq actionType

/-- A reservation that is found was made for the action, by an earlier call. -/
theorem own_reservation (h : SysRun cfg ts s) (hhash : NoCollision cfg ts)
    {pre post : List SysTransition} {c : SysTransition} (hcut : ts = pre ++ c :: post)
    {agentId : Uuid} {seq : Nat} {actionType : String} {now : Time}
    (hbegins : Begins c.before c.action agentId seq actionType now) {r : Reservation}
    (hr : c.before.db.reservation (Ledger.actionId cfg.sha256 agentId.str seq actionType) =
      some r) :
    (r.agentId = agentId ∧ r.seq = seq ∧ r.actionType = actionType) ∧
      ReservedEarlier cfg pre agentId seq actionType := by
  subst hcut
  obtain ⟨hpre, -, -⟩ := Machine.Run.split h
  have hown := own_of_reservation hpre hhash (fun d hd => List.mem_append_left _ hd)
    (List.mem_append_right _ List.mem_cons_self) hbegins hr
  obtain ⟨d, hd, now', hbegins', hproceeds, -⟩ := SysRun.reservation_origin hpre hr
  obtain ⟨hagent, hseq, htype⟩ := hown
  refine ⟨⟨hagent, hseq, htype⟩, d, hd, now', ?_, hproceeds⟩
  rw [hagent, hseq, htype] at hbegins'
  exact hbegins'

/-- Every task that is refused or answered meets its own reservation. -/
theorem SysRun.ownAnswers (h : SysRun cfg ts s) (hhash : NoCollision cfg ts) :
    OwnAnswers cfg ts s where
  identifies := by
    intro c hc d hd agentId seq actionType now agentId' seq' actionType' now' hbegins hbegins' hid
    exact hhash.identifies hc hd hbegins hbegins' hid
  rows := by
    intro c hc d hd p q task task' now now' hasks hasks' hid
    exact hasks.same_row h hhash hc hd hasks' hid
  answers := by
    intro pre c post agentId seq actionType now status stored key db hcut hbegins hcall hstatus
    obtain ⟨rfl, ⟨hproceed, -⟩ | ⟨-, r, hr, -⟩⟩ := Ledger.begin_spec hcall
    · exact absurd hproceed hstatus
    · exact ⟨r, hr, own_reservation h hhash hcut hbegins hr⟩
  refused := by
    intro pre c post p task now hcut hasks hrefused
    have hs : step cfg c.before c.action = some c.after := h.step_of_mem (by simp [hcut])
    obtain ⟨r, hr, hopen⟩ := hrefused.row hasks hs
    exact ⟨r, hr, hopen, own_reservation h hhash hcut hasks.begins hr⟩
  answered := by
    intro pre c post p task now result hcut hasks hanswered
    have hs : step cfg c.before c.action = some c.after := h.step_of_mem (by simp [hcut])
    obtain ⟨r, hr, hdone, hresult⟩ := hanswered.row hasks hs
    exact ⟨r, hr, hdone, hresult, own_reservation h hhash hcut hasks.begins hr⟩
  keys := by
    intro p task ctx actionType hheld hctx
    obtain ⟨hagent, hseq⟩ := h.context_names hheld hctx
    rw [← hagent, ← hseq]
    exact KeyContext.keyFor_eq _ _ _ _ (Or.inr rfl)

end Answers

/-- The text of an id is equal for two actions only if they are one, so an id identifies
its action as long as digests do not collide, however it is computed; in a run no task is
refused or answered because of a reservation of another one. -/
theorem action_ids_identify :
    Function.Injective Ledger.identityText ∧
      (∀ (sha256 : String → ActionId) (actions : Set (Uuid × Int × String)),
        Set.InjOn sha256 (Ledger.identityText '' actions) →
          Set.InjOn (Ledger.identityId sha256) actions) ∧
      (∀ (sha256 : String → ActionId) (agentId : String) (seq : Int) (actionType : String),
        idemKey sha256 agentId seq actionType = Ledger.actionId sha256 agentId seq actionType ∧
          KeyContext.keyFor sha256 { agentId, seq } actionType =
            Ledger.actionId sha256 agentId seq actionType ∧
          KeyContext.keyFor sha256
              { agentId, seq, idemKey := some (idemKey sha256 agentId seq) } actionType =
            Ledger.actionId sha256 agentId seq actionType) ∧
      ∀ (cfg : Config) (ts : List SysTransition) (s : Sys), SysRun cfg ts s →
        NoCollision cfg ts → OwnAnswers cfg ts s := by
  refine ⟨Ledger.identityText_injective, fun sha256 actions hhash => ?_,
    fun sha256 agentId seq actionType => ⟨rfl, ?_, ?_⟩, fun cfg ts s h hhash => ?_⟩
  · exact Ledger.identityId_injOn hhash
  · exact KeyContext.keyFor_eq _ _ _ _ (Or.inl rfl)
  · exact KeyContext.keyFor_eq _ _ _ _ (Or.inr rfl)
  · exact h.ownAnswers hhash

theorem action_ids_identify_crashAfterSuccess :
    ((ran oneHost crashAfterSuccess).2.db.reservation (taskKey oneHost firstAgent 0 40)).map
        Reservation.state = some .done ∧
      OwnAnswers oneHost (ran oneHost crashAfterSuccess).1 (ran oneHost crashAfterSuccess).2 := by
  refine ⟨by decide +kernel, action_ids_identify.2.2.2 _ _ _ (run_ran oneHost crashAfterSuccess) ?_⟩
  intro c _ d _ agentId seq actionType now agentId' seq' actionType' now' _ _ hsame
  exact hsame

end ReliableAgents
