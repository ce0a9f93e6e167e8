import ReliableAgents.Effects.ActionText
import ReliableAgents.Effects.AtMostOnce
import ReliableAgents.Lifecycle.SoleHolder

/-!
# Success means the action happened

Without a lost lease a task is handed out again only after a failure it reported. A
side-effecting task that has reserved its id must therefore not fail in a way that is
retried: its next handout could only be answered with what `reconcile` made up. As
long as no invocation ends so, the id is asked for once, and what is committed is
what the one invocation returned.
-/

namespace ReliableAgents

def TaskFailure.retryable (failure : TaskFailure) : Bool :=
  failure.report?.any fun report => report.failureClass ≠ .poison

def RunOutcome.retryable : RunOutcome → Bool
  | .raised failure => failure.retryable
  | .crashed typeName message => (crashFailure typeName message).retryable
  | .returned _ => false

/-- No two action texts hashed in the run have one digest. -/
def NoCollision (cfg : Config) (ts : List SysTransition) : Prop :=
  ∀ c ∈ ts, ∀ d ∈ ts, ∀ agentId seq actionType now agentId' seq' actionType' now',
    Begins c.before c.action agentId seq actionType now →
    Begins d.before d.action agentId' seq' actionType' now' →
    Ledger.actionId cfg.sha256 agentId.str seq actionType =
      Ledger.actionId cfg.sha256 agentId'.str seq' actionType' →
    Ledger.actionText agentId.str seq actionType = Ledger.actionText agentId'.str seq' actionType'

/-- No lease expires, only `run_task` and `reconcile` use the ledger, and the digests
do not collide. -/
structure Undisturbed (cfg : Config) (ts : List SysTransition) : Prop where
  leases : ∀ c ∈ ts, LeasesHold c
  ledger : ∀ c ∈ ts, ∀ call, c.action ≠ .ledger call
  hashes : NoCollision cfg ts

def Handout.For (task : Handout) (agentId : Uuid) (seq : Nat) (taskDefId : Int) : Prop :=
  task.agentId = agentId ∧ task.seq = seq ∧ task.taskDefId = taskDefId

def Reservation.For (r : Reservation) (agentId : Uuid) (seq : Nat) (taskDefId : Int) : Prop :=
  r.agentId = agentId ∧ r.seq = seq ∧ r.actionType = "task:" ++ toString taskDefId

/-- The id of the task was reserved for the task. -/
def Reserved (cfg : Config) (agentId : Uuid) (seq : Nat) (taskDefId : Int) (s : Sys) : Prop :=
  ∃ r, s.db.reservation (taskKey cfg agentId seq taskDefId) = some r ∧
    r.For agentId seq taskDefId

def Returned (ts : List SysTransition) (agentId : Uuid) (seq : Nat) (taskDefId : Int)
    (fields : JsonObject) : Prop :=
  ∃ c ∈ ts, Invokes c agentId seq taskDefId (.returned (.dict (.json fields)))

/-- A worker that has the task in hand is past asking for its id. -/
def Phase.Past (agentId : Uuid) (seq : Nat) (taskDefId : Int) : Phase → Prop
  | .claimed task _ => ¬ task.For agentId seq taskDefId
  | .reserving task _ _ => ¬ task.For agentId seq taskDefId
  | .failing task _ failure => task.For agentId seq taskDefId → failure.failureClass = .poison
  | _ => True

/-- A result in hand for the task was returned by an invocation. -/
def Phase.Earned (ts : List SysTransition) (agentId : Uuid) (seq : Nat) (taskDefId : Int) :
    Phase → Prop
  | .settling task _ _ result | .finished task _ result _ _ _ | .committing task _ result _ _ =>
      task.For agentId seq taskDefId →
        ∀ fields, result = .json fields → Returned ts agentId seq taskDefId fields
  | _ => True

structure Effective (cfg : Config) (agentId : Uuid) (seq : Nat) (taskDefId : Int)
    (ts : List SysTransition) (s : Sys) : Prop where
  row : Reserved cfg agentId seq taskDefId s → ∃ t, s.db.rowAt agentId seq = some t ∧
    t.taskDefId = taskDefId ∧ t.status ≠ .pending ∧
      (t.status = .failed → t.failureClass = some .poison)
  past : Reserved cfg agentId seq taskDefId s →
    ∀ p, (s.workers p).phase.Past agentId seq taskDefId
  earned : ∀ p, (s.workers p).phase.Earned ts agentId seq taskDefId
  committed : ∀ t, s.db.rowAt agentId seq = some t → t.taskDefId = taskDefId →
    t.status = .succeeded → ∃ fields, t.result = some fields ∧
      Returned ts agentId seq taskDefId fields

/-! ## The row -/

/-- What one step may do to the row: `reserved` tells whether the id is. -/
def earning (ts : List SysTransition) (agentId : Uuid) (seq : Nat) (taskDefId : Int)
    (reserved : Prop) : Rules :=
  { Rules.free with
    commit := fun _ _ task fields _ _ =>
      task.For agentId seq taskDefId → Returned ts agentId seq taskDefId fields
    report := fun _ _ task failure =>
      reserved → task.For agentId seq taskDefId → failure.failureClass = .poison
    reclaim := fun _ => False }

section Row

variable {ladder : Ladder} {ts : List SysTransition} {agentId : Uuid} {seq : Nat} {taskDefId : Int}
  {reserved : Prop} {v v' : TaskView}

theorem Handout.Of.for {task : Handout} {t : TaskInstance} (h : task.Of t)
    (hagent : t.agentId = agentId) (hseq : t.seq = seq) (hdef : t.taskDefId = taskDefId) :
    task.For agentId seq taskDefId :=
  ⟨h.agentId.trans hagent, h.seq.trans hseq, h.taskDefId.trans hdef⟩

/-- The row of a reserved id never returns to the queue. -/
theorem TaskPath.never_requeued
    (h : TaskPath ladder (earning ts agentId seq taskDefId reserved) v v')
    (hreserved : reserved) (hagent : v.row.agentId = agentId) (hseq : v.row.seq = seq)
    (hdef : v.row.taskDefId = taskDefId) (hpending : v.row.status ≠ .pending)
    (hfailed : v.row.status = .failed → v.row.failureClass = some .poison) :
    v'.row.status ≠ .pending ∧ (v'.row.status = .failed → v'.row.failureClass = some .poison) := by
  induction h with
  | refl => exact ⟨hpending, hfailed⟩
  | @tail w w' hpath hs ih =>
      obtain ⟨hwPending, hwFailed⟩ := ih
      have hsame : v.row.Same w.row := TaskPath.same hpath
      have dead : ∀ {flags : Flags}, w.row.status = .failed →
          w.verdict ladder flags = .deadLetter := by
        intro flags hw
        simp [TaskView.verdict, verdict, hwFailed hw]
      cases hs with
      | claim _ _ _ hw => exact absurd hw hwPending
      | row hrow =>
          cases hrow with
          | renew => exact ⟨hwPending, hwFailed⟩
          | report task failure _ _ _ _ _ hof hrule =>
              refine ⟨nofun, fun _ => congrArg some (hrule hreserved (hof.for ?_ ?_ ?_))⟩
              · exact hsame.agentId.trans hagent
              · exact hsame.seq.trans hseq
              · exact hsame.taskDefId.trans hdef
          | reclaim _ _ _ hrule => exact hrule.elim
          | retry flags _ _ hw _ hverdict | promote flags _ _ hw _ hverdict =>
              rw [dead hw] at hverdict
              cases hverdict
      | commit | kill | cancel => exact ⟨nofun, nofun⟩

theorem TaskPath.earned (h : TaskPath ladder (earning ts agentId seq taskDefId reserved) v v')
    (hagent : v.row.agentId = agentId) (hseq : v.row.seq = seq)
    (hdef : v.row.taskDefId = taskDefId)
    (hbefore : v.row.status = .succeeded → ∃ fields, v.row.result = some fields ∧
      Returned ts agentId seq taskDefId fields)
    (hafter : v'.row.status = .succeeded) :
    ∃ fields, v'.row.result = some fields ∧ Returned ts agentId seq taskDefId fields := by
  induction h with
  | refl => exact hbefore hafter
  | @tail w w' hpath hs ih =>
      have hsame : v.row.Same w.row := TaskPath.same hpath
      cases hs with
      | row hrow =>
          cases hrow with
          | renew _ _ hrunning => exact ih hafter
          | report | reclaim | retry | promote => cases hafter
      | commit _ task fields _ _ _ _ _ _ _ hof hrule =>
          refine ⟨fields, rfl, hrule (hof.for ?_ ?_ ?_)⟩
          · exact hsame.agentId.trans hagent
          · exact hsame.seq.trans hseq
          · exact hsame.taskDefId.trans hdef
      | claim | kill | cancel => cases hafter

end Row

/-! ## One step -/

theorem Db.Moves.rowAt {ladder : Ladder} {rules : Rules} {db db' : Db}
    (hmoves : db.Moves ladder rules db') (hsound : db.Sound) {agentId : Uuid} {seq : Nat}
    {t : TaskInstance} (ht : db.rowAt agentId seq = some t) :
    ∃ t', db'.rowAt agentId seq = some t' ∧ t.Same t' ∧
      TaskPath ladder rules (db.taskView t) (db'.taskView t') := by
  obtain ⟨htask, hagent, hseq⟩ := Db.task_of_rowAt ht
  obtain ⟨t', ht', hpath⟩ := hmoves.task hsound htask
  have hsame : t.Same t' := hpath.same
  have hrow := Db.rowAt_of_task ht'
  rw [hsame.agentId, hagent, hsame.seq, hseq] at hrow
  exact ⟨t', hrow, hsame, hpath⟩

section Step

variable {cfg : Config} {ts us : List SysTransition} {s s' : Sys} {a : Action} {agentId : Uuid}
  {seq : Nat} {taskDefId : Int}

theorem Returned.mono {c : SysTransition} {fields : JsonObject}
    (h : Returned us agentId seq taskDefId fields) :
    Returned (us ++ [c]) agentId seq taskDefId fields := by
  obtain ⟨d, hd, hinvokes⟩ := h
  exact ⟨d, List.mem_append_left _ hd, hinvokes⟩

theorem Phase.Earned.mono {phase : Phase} {c : SysTransition}
    (h : phase.Earned us agentId seq taskDefId) :
    phase.Earned (us ++ [c]) agentId seq taskDefId := by
  cases phase with
  | settling | finished | committing =>
      exact fun hfor fields hfields => (h hfor fields hfields).mono
  | idle | claimed | reserving | running | failing => trivial

theorem Phase.past_of_not_for {phase : Phase}
    (h : ∀ task, phase.task? = some task → ¬ task.For agentId seq taskDefId) :
    phase.Past agentId seq taskDefId := by
  cases phase with
  | claimed task | reserving task => exact h task rfl
  | failing task => exact fun hfor => absurd hfor (h task rfl)
  | idle | running | settling | finished | committing => trivial

theorem taskDefId_of_actionType {task : Handout}
    (h : task.actionType = "task:" ++ toString taskDefId) : task.taskDefId = taskDefId := by
  have hdigits : toString task.taskDefId = toString taskDefId := by
    simpa [Handout.actionType] using h
  exact Int.repr_injective hdigits

/-- The id of a task becomes reserved for it by the `run_task` of one of its handouts. -/
theorem step_reserved (h : step cfg s a = some s') (hledger : ∀ call, a ≠ .ledger call)
    (hreserved : Reserved cfg agentId seq taskDefId s') :
    Reserved cfg agentId seq taskDefId s ∨
      ∃ q now task started ctx, a = .begin q now ∧
        (s.workers q).phase = .reserving task started ctx ∧ task.For agentId seq taskDefId := by
  obtain ⟨r, hr, hfor⟩ := hreserved
  have hstep := step_reservation h (taskKey cfg agentId seq taskDefId)
  rw [hr] at hstep
  generalize hbefore : s.db.reservation (taskKey cfg agentId seq taskDefId) = before at hstep
  cases hstep with
  | keep => exact Or.inl ⟨r, hbefore, hfor⟩
  | settle | reconcile => exact Or.inl ⟨_, hbefore, hfor⟩
  | reserve hbegins hkey hproceeds =>
      rcases hbegins with ⟨q, task, started, ctx, ha, hphase, rfl, rfl, rfl⟩ | ha
      · exact Or.inr ⟨q, _, task, started, ctx, ha, hphase, hfor.1, hfor.2.1,
          taskDefId_of_actionType hfor.2.2⟩
      · exact absurd ha (hledger _)

theorem rowAt_of_held (hsound : s.Sound) {p : Nat} {task : Handout}
    (hheld : (s.workers p).phase.task? = some task) (hfor : task.For agentId seq taskDefId) :
    ∃ t, s.db.rowAt agentId seq = some t ∧ t.id = task.id ∧ t.taskDefId = taskDefId := by
  obtain ⟨t, ht, hof⟩ := hsound.handouts p task hheld
  obtain ⟨hagent, hseq, hdef⟩ := hfor
  have hrow := Db.rowAt_of_task ht
  rw [← hof.agentId, hagent, ← hof.seq, hseq] at hrow
  exact ⟨t, hrow, hof.id.symm, hof.taskDefId.symm.trans hdef⟩

theorem Sole.rowAt_running (hsole : Sole s) (hsound : s.Sound) {p : Nat} {task : Handout}
    (hheld : (s.workers p).phase.task? = some task) (hfor : task.For agentId seq taskDefId) :
    ∃ t, s.db.rowAt agentId seq = some t ∧ t.taskDefId = taskDefId ∧ t.status = .running := by
  obtain ⟨t, ht, hid, hdef⟩ := rowAt_of_held hsound hheld hfor
  obtain ⟨u, hu, hrunning⟩ := hsole.running p task hheld
  rw [← hid, (Db.task_of_rowAt ht).1] at hu
  cases hu
  exact ⟨t, ht, hdef, hrunning⟩

theorem holder_unique (hsound : s.Sound) (hsole : Sole s) {p q : Nat} {task task' : Handout}
    (hp : (s.workers p).phase.task? = some task) (hq : (s.workers q).phase.task? = some task')
    (hfor : task.For agentId seq taskDefId) (hfor' : task'.For agentId seq taskDefId) : p = q := by
  obtain ⟨t, ht, hid, -⟩ := rowAt_of_held hsound hp hfor
  obtain ⟨t', ht', hid', -⟩ := rowAt_of_held hsound hq hfor'
  rw [ht] at ht'
  cases ht'
  exact hsole.single p q task task' hp hq (hid.symm.trans hid')

theorem step_begin_other {p q : Nat} {now : Time} (h : step cfg s (.begin q now) = some s')
    (hne : p ≠ q) :
    (s'.workers p).phase = (s.workers p).phase ∨ (s'.workers p).phase = .idle := by
  rcases step_phase h p with hsame | hstep
  · exact Or.inl hsame
  · generalize (s.workers p).phase = before at hstep
    generalize (s'.workers p).phase = after at hstep
    cases hstep with
    | begin => exact absurd rfl hne
    | stop => exact Or.inr rfl

/-- Two calls under one id are calls for one action. -/
theorem NoCollision.identifies (hhash : NoCollision cfg ts) {c d : SysTransition} (hc : c ∈ ts)
    (hd : d ∈ ts) {agentId agentId' : Uuid} {seq seq' : Nat} {actionType actionType' : String}
    {now now' : Time} (hbegins : Begins c.before c.action agentId seq actionType now)
    (hbegins' : Begins d.before d.action agentId' seq' actionType' now')
    (hid : Ledger.actionId cfg.sha256 agentId.str seq actionType =
      Ledger.actionId cfg.sha256 agentId'.str seq' actionType') :
    agentId = agentId' ∧ seq = seq' ∧ actionType = actionType' := by
  have htexts := hhash c hc d hd _ _ _ _ _ _ _ _ hbegins hbegins' hid
  obtain ⟨hagent, hseq, htype⟩ := Ledger.actionText_inj htexts
  exact ⟨hagent, by exact_mod_cast hseq, htype⟩

/-- Whoever asks for an id finds it reserved for the action in question, or not at all. -/
theorem own_of_reservation (h : SysRun cfg us s) (hhash : NoCollision cfg ts)
    (hpast : ∀ c ∈ us, c ∈ ts) {c : SysTransition} (hc : c ∈ ts) {actionType : String} {now : Time}
    (hbegins : Begins c.before c.action agentId seq actionType now) {r : Reservation}
    (hr : s.db.reservation (Ledger.actionId cfg.sha256 agentId.str seq actionType) = some r) :
    r.agentId = agentId ∧ r.seq = seq ∧ r.actionType = actionType := by
  obtain ⟨d, hd, now', hbegins', -, hkey⟩ := h.reservation_origin hr
  exact hhash.identifies (hpast d hd) hc hbegins' hbegins hkey.symm

theorem reserved_of_reservation (h : SysRun cfg us s) (hhash : NoCollision cfg ts)
    (hpast : ∀ c ∈ us, c ∈ ts) {c : SysTransition} (hc : c ∈ ts) {task : Handout} {now : Time}
    (hbegins : Begins c.before c.action task.agentId task.seq task.actionType now)
    (hfor : task.For agentId seq taskDefId) {r : Reservation}
    (hr : s.db.reservation (taskKey cfg agentId seq taskDefId) = some r) :
    Reserved cfg agentId seq taskDefId s := by
  obtain ⟨rfl, rfl, rfl⟩ := hfor
  exact ⟨r, hr, own_of_reservation h hhash hpast hc hbegins hr⟩

/-- The rules of the row hold of a step that keeps the leases. -/
theorem Effective.earning_hold (he : Effective cfg agentId seq taskDefId us s)
    (hleases : LeasesHold ⟨s, a, s'⟩) :
    (earning us agentId seq taskDefId (Reserved cfg agentId seq taskDefId s)).Hold cfg s a where
  claim := by intros; trivial
  commit := by
    intro p now task started fields cost tokens t ag _ hphase _ _ _ _ hfor
    have hearned := he.earned p
    rw [hphase] at hearned
    exact hearned hfor fields rfl
  report := by
    intro p now task started failure t ag _ hphase _ _ _ _ hreserved hfor
    have hpast := he.past hreserved p
    rw [hphase] at hpast
    exact hpast hfor
  reclaim := by
    intro batch jitter now locked t ha htaken
    rw [hleases.expiredLeases ha] at htaken
    cases htaken
  route := by intros; trivial

theorem Effective.step_row (he : Effective cfg agentId seq taskDefId us s) (hsound : s.Sound)
    (hsole : Sole s) (h : step cfg s a = some s') (hleases : LeasesHold ⟨s, a, s'⟩)
    (hledger : ∀ call, a ≠ .ledger call) (hreserved : Reserved cfg agentId seq taskDefId s') :
    ∃ t, s'.db.rowAt agentId seq = some t ∧ t.taskDefId = taskDefId ∧ t.status ≠ .pending ∧
      (t.status = .failed → t.failureClass = some .poison) := by
  have hmoves := step_moves hsound h (he.earning_hold hleases)
  rcases step_reserved h hledger hreserved with
    hbefore | ⟨q, now, task, started, ctx, rfl, hphase, hfor⟩
  · obtain ⟨t, ht, hdef, hpending, hfailed⟩ := he.row hbefore
    obtain ⟨t', ht', hsame, hpath⟩ := hmoves.rowAt hsound.db ht
    obtain ⟨-, hagent, hseq⟩ := Db.task_of_rowAt ht
    have hdef' : t'.taskDefId = taskDefId := hsame.taskDefId.trans hdef
    exact ⟨t', ht', hdef', hpath.never_requeued hbefore hagent hseq hdef hpending hfailed⟩
  · have hheld : (s.workers q).phase.task? = some task := by
      rw [hphase]
      rfl
    obtain ⟨t, ht, hdef, hrunning⟩ := hsole.rowAt_running hsound hheld hfor
    have hrow : s'.db.rowAt agentId seq = s.db.rowAt agentId seq := by
      simp only [step, hphase, Option.some.injEq] at h
      subst h
      obtain ⟨table, htable⟩ := beginAction_db cfg.sha256 task started ctx now s.db
      simp only [Sys.setPhase_db, Sys.setDb_db, htable]
      rfl
    exact ⟨t, hrow.trans ht, hdef, by simp [hrunning], by simp [hrunning]⟩

theorem failTask_past {task : Handout} {started : Time} {failure : TaskFailure}
    (hretry : task.For agentId seq taskDefId → failure.retryable = false) :
    (failTask task started failure).Past agentId seq taskDefId := by
  refine failTask_of trivial fun report hreport hfor => ?_
  have hclass := hretry hfor
  rw [TaskFailure.retryable, hreport] at hclass
  simpa using hclass

theorem notADict_not_retryable (task : Handout) (typeName : String) :
    (notADict task typeName).retryable = false := by
  cases hreport : (notADict task typeName).report? with
  | none => rw [TaskFailure.retryable, hreport, Option.any_none]
  | some report =>
      have hclass := Option.some.inj (TaskFailure.report?_class hreport)
      rw [TaskFailure.retryable, hreport, Option.any_some, ← hclass]
      rfl

theorem afterRun_past {ladder : Ladder} {task : Handout} {started : Time}
    {actionKey : Option ActionId} {outcome : RunOutcome}
    (hruns : task.For agentId seq taskDefId → outcome.retryable = false) :
    (afterRun ladder task started actionKey outcome).Past agentId seq taskDefId := by
  unfold afterRun finishTask
  split
  · exact failTask_past hruns
  · exact failTask_past hruns
  · -- only the class of this one matters, its text need not be computed
    rename_i typeName
    have hpoison := notADict_not_retryable task typeName
    generalize notADict task typeName = failure at hpoison ⊢
    exact failTask_past fun _ => hpoison
  · repeat' split
    all_goals trivial

theorem settleAction_past {ladder : Ladder} {task : Handout} {started : Time} {key : ActionId}
    {result : PyDict} {now : Time} {db : Db} :
    (settleAction ladder task started key result now db).1.Past agentId seq taskDefId := by
  unfold settleAction finishTask
  repeat' split
  all_goals trivial

theorem Effective.step_past (he : Effective cfg agentId seq taskDefId us s) (hsound : s.Sound)
    (hsole : Sole s) (h : step cfg s a = some s') (hledger : ∀ call, a ≠ .ledger call)
    (hruns : ∀ outcome, Invokes ⟨s, a, s'⟩ agentId seq taskDefId outcome →
      outcome.retryable = false)
    (hreserved : Reserved cfg agentId seq taskDefId s') (p : Nat) :
    (s'.workers p).phase.Past agentId seq taskDefId := by
  by_cases hbefore : Reserved cfg agentId seq taskDefId s
  · have hp := he.past hbefore p
    rcases step_phase h p with hsame | hstep
    · exact hsame ▸ hp
    · generalize hphase : (s.workers p).phase = before at hstep hp
      generalize (s'.workers p).phase = after at hstep ⊢
      cases hstep with
      | claim hclaim =>
          intro hfor
          obtain ⟨t, ht, hpending, rfl, -⟩ := claimOne_task hclaim
          obtain ⟨t₀, ht₀, -, hqueued, -⟩ := he.row hbefore
          have hrow := Db.rowAt_of_task ht
          rw [show t.agentId = agentId from hfor.1, show t.seq = seq from hfor.2.1, ht₀] at hrow
          cases hrow
          exact hqueued hpending
      | load =>
          refine Phase.past_of_not_for fun task hheld => ?_
          rw [startTask_task?] at hheld
          cases hheld
          exact hp
      | begin hbegin =>
          refine Phase.past_of_not_for fun task hheld => ?_
          rw [show after = _ from (congrArg Prod.fst hbegin).symm] at hheld
          rw [beginAction_task? hheld]
          exact hp
      | run =>
          refine afterRun_past fun hfor => hruns _ ?_
          exact ⟨p, _, _, _, _, rfl, hphase, hfor⟩
      | settle hsettle =>
          rw [show after = _ from (congrArg Prod.fst hsettle).symm]
          exact settleAction_past
      | confirm | stop => trivial
  · obtain ⟨q, now, task, started, ctx, rfl, hphase, hfor⟩ :=
      (step_reserved h hledger hreserved).resolve_left hbefore
    by_cases hpq : p = q
    · subst hpq
      simp only [step, hphase, Option.some.injEq] at h
      subst h
      rw [Sys.setPhase_workers, if_pos rfl]
      generalize hbegun : beginAction cfg.sha256 task started ctx now s.db = begun at hreserved ⊢
      obtain ⟨phase, db'⟩ := begun
      rcases beginAction_spec hbegun with ⟨rfl, -⟩ | ⟨status, stored, key, hcall, rfl⟩
      · trivial
      · cases status with
        | proceed | done => trivial
        | inFlight =>
            obtain ⟨-, ⟨hproceed, -⟩ | ⟨rfl, -⟩⟩ := Ledger.begin_spec hcall
            · cases hproceed
            · exact absurd hreserved hbefore
    · have hheld : (s.workers q).phase.task? = some task := by
        rw [hphase]
        rfl
      rcases step_begin_other h hpq with hsame | hidle
      · rw [hsame]
        exact Phase.past_of_not_for fun task' hheld' hfor' =>
          hpq (holder_unique hsound hsole hheld' hheld hfor' hfor)
      · rw [hidle]
        trivial

theorem startTask_earned {registry : Int → Option TaskDef} {task : Handout} {started : Time}
    {db : Db} : (startTask registry task started db).Earned us agentId seq taskDefId := by
  unfold startTask
  dsimp only
  repeat' split
  all_goals trivial

theorem finishTask_earned {ladder : Ladder} {task : Handout} {started : Time} {result : PyDict}
    (h : task.For agentId seq taskDefId →
      ∀ fields, result = .json fields → Returned us agentId seq taskDefId fields) :
    (finishTask ladder task started result).Earned us agentId seq taskDefId := by
  unfold finishTask
  split
  · trivial
  · exact h

theorem Effective.step_earned (he : Effective cfg agentId seq taskDefId us s)
    (hguarded : ∀ p, (s.workers p).phase.Guarded cfg) (heffect : SideEffecting cfg taskDefId)
    (h : step cfg s a = some s')
    (hasked : ∀ q task started ctx now r, a = .begin q now →
      (s.workers q).phase = .reserving task started ctx → task.For agentId seq taskDefId →
      s.db.reservation (taskKey cfg agentId seq taskDefId) = some r →
      Reserved cfg agentId seq taskDefId s) (p : Nat) :
    (s'.workers p).phase.Earned (us ++ [⟨s, a, s'⟩]) agentId seq taskDefId := by
  have hp := he.earned p
  have hg := hguarded p
  rcases step_phase h p with hsame | hstep
  · exact hsame ▸ hp.mono
  · generalize hphase : (s.workers p).phase = before at hstep hp hg
    generalize (s'.workers p).phase = after at hstep ⊢
    cases hstep with
    | claim | stop => trivial
    | load => exact startTask_earned
    | @begin task started now ctx phase hbegin =>
        rcases beginAction_spec hbegin with ⟨rfl, -⟩ | ⟨status, stored, key, hcall, rfl⟩
        · trivial
        · cases status with
          | proceed | inFlight => trivial
          | done =>
              -- nobody asks for the id of this task a second time
              intro hfor
              obtain ⟨hkey, ⟨hproceed, -⟩ | ⟨-, row, hrow, -⟩⟩ := Ledger.begin_spec hcall
              · cases hproceed
              · have hthis : s.db.reservation (taskKey cfg agentId seq taskDefId) = some row := by
                  rw [← hfor.1, ← hfor.2.1, ← hfor.2.2]
                  subst hkey
                  exact hrow
                have hreserved := hasked p task started ctx now row rfl hphase hfor hthis
                have hpast := he.past hreserved p
                rw [hphase] at hpast
                exact absurd hfor hpast
    | @run task started ctx actionKey outcome =>
        have hfails (failure : TaskFailure) : (failTask task started failure).Earned
            (us ++ [⟨s, .run p outcome, s'⟩]) agentId seq taskDefId :=
          failTask_of trivial fun _ _ => trivial
        unfold afterRun
        split
        · exact hfails _
        · exact hfails _
        · exact hfails _
        · split
          · intro hfor fields hfields
            subst hfields
            exact ⟨_, List.mem_append_right _ List.mem_cons_self, p, _, _, _, _, rfl, hphase, hfor⟩
          · refine finishTask_earned fun hfor => ?_
            have hnot : ¬ SideEffecting cfg task.taskDefId := hg
            rw [hfor.2.2] at hnot
            exact absurd heffect hnot
    | @settle task started now actionKey result phase hsettle =>
        rw [show after = _ from (congrArg Prod.fst hsettle).symm]
        unfold settleAction
        split
        · trivial
        · exact finishTask_earned fun hfor fields hfields => (hp hfor fields hfields).mono
    | confirm => exact fun hfor fields hfields => (hp hfor fields hfields).mono

theorem Effective.step_committed (he : Effective cfg agentId seq taskDefId us s)
    (hsound : s.Sound) (h : step cfg s a = some s') (hleases : LeasesHold ⟨s, a, s'⟩)
    {t' : TaskInstance} (ht' : s'.db.rowAt agentId seq = some t') (hdef : t'.taskDefId = taskDefId)
    (hdone : t'.status = .succeeded) :
    ∃ fields, t'.result = some fields ∧
      Returned (us ++ [⟨s, a, s'⟩]) agentId seq taskDefId fields := by
  obtain ⟨htask', hagent', hseq'⟩ := Db.task_of_rowAt ht'
  cases hold : s.db.task t'.id with
  | none =>
      obtain ⟨⟨_, _, _, _, _, _, -, rfl⟩, -⟩ := step_created hsound h hold htask'
      cases hdone
  | some t =>
      obtain ⟨u, hu, hpath⟩ :=
        (step_moves hsound h (he.earning_hold hleases)).task hsound.db hold
      rw [htask'] at hu
      cases hu
      have hsame : t.Same t' := hpath.same
      have hagent : t.agentId = agentId := hsame.agentId.symm.trans hagent'
      have hseq : t.seq = seq := hsame.seq.symm.trans hseq'
      have hrow := Db.rowAt_of_task hold
      rw [hagent, hseq] at hrow
      obtain ⟨fields, hresult, hreturned⟩ := hpath.earned hagent hseq
        (hsame.taskDefId.symm.trans hdef)
        (fun hbefore => he.committed t hrow (hsame.taskDefId.symm.trans hdef) hbefore) hdone
      exact ⟨fields, hresult, hreturned.mono⟩

end Step

/-! ## Runs -/

section Runs

variable {cfg : Config} {ts : List SysTransition} {s : Sys} {agentId : Uuid} {seq : Nat}
  {taskDefId : Int}

theorem SysRun.effective (h : SysRun cfg ts s) (hquiet : Undisturbed cfg ts)
    (heffect : SideEffecting cfg taskDefId)
    (hruns : ∀ c ∈ ts, ∀ outcome, Invokes c agentId seq taskDefId outcome →
      outcome.retryable = false) :
    Effective cfg agentId seq taskDefId ts s := by
  refine h.invariant_along (I := Effective cfg agentId seq taskDefId) (fun c => c ∈ ts) ?_ ?_
    fun c hc => hc
  · refine ⟨?_, ?_, fun p => trivial, fun t ht => by cases ht⟩
    · rintro ⟨r, hr, -⟩
      cases hr
    · rintro ⟨r, hr, -⟩
      cases hr
  · intro us u a u' hrun hpast he hs hnew
    have hsound : u.Sound := SysRun.sound hrun
    have hsole : Sole u := SysRun.sole hrun fun c hc => hquiet.leases c (hpast c hc)
    have hleases := hquiet.leases _ hnew
    have hledger := hquiet.ledger _ hnew
    refine ⟨he.step_row hsound hsole hs hleases hledger,
      he.step_past hsound hsole hs hledger (hruns _ hnew), ?_,
      fun t => he.step_committed hsound hs hleases⟩
    refine he.step_earned (SysRun.guarded hrun) heffect hs ?_
    intro q task started ctx now r ha hphase hfor hr
    have hbegins : Begins u a task.agentId task.seq task.actionType now :=
      Or.inl ⟨q, task, started, ctx, ha, hphase, rfl, rfl, rfl⟩
    exact reserved_of_reservation hrun hquiet.hashes hpast hnew hbegins hfor hr

/-- A side-effecting task that succeeded committed what its invocation returned exactly
when none of its invocations ended in a failure that is retried. -/
theorem success_iff_no_retryable_failure (h : SysRun cfg ts s) (hquiet : Undisturbed cfg ts)
    {k : Uuid} {t : TaskInstance} (ht : s.db.task k = some t) (hdone : t.status = .succeeded)
    (heffect : SideEffecting cfg t.taskDefId) :
    (∃ fields, t.result = some fields ∧ Returned ts t.agentId t.seq t.taskDefId fields) ↔
      ∀ c ∈ ts, ∀ outcome, Invokes c t.agentId t.seq t.taskDefId outcome →
        outcome.retryable = false := by
  constructor
  · rintro ⟨fields, -, c, hc, hreturned⟩ d hd outcome hinvokes
    have hunreleased : ∀ e ∈ ts, ¬ Releases e (taskKey cfg t.agentId t.seq t.taskDefId) :=
      fun e he hreleases => hquiet.ledger e he _ hreleases.1
    have honce := (at_most_once h).invocations
    have earlier : ∀ {pre mid post : List SysTransition} {x y e : SysTransition},
        ts = pre ++ x :: (mid ++ y :: post) → e ∈ pre ++ x :: mid → e ∈ ts := by
      rintro pre mid post x y e rfl he
      rw [show pre ++ x :: (mid ++ y :: post) = (pre ++ x :: mid) ++ y :: post by simp]
      exact List.mem_append_left _ he
    rcases Machine.eq_or_split hc hd with rfl | ⟨pre, mid, post, hcut⟩ | ⟨pre, mid, post, hcut⟩
    · obtain ⟨_, _, _, _, _, ha, -⟩ := hreturned
      obtain ⟨_, _, _, _, _, ha', -⟩ := hinvokes
      rw [ha] at ha'
      cases ha'
      rfl
    · obtain ⟨e, he, hreleases⟩ := honce _ _ _ _ _ _ _ _ _ _ heffect hcut hreturned hinvokes
      exact absurd hreleases (hunreleased e (earlier hcut he))
    · obtain ⟨e, he, hreleases⟩ := honce _ _ _ _ _ _ _ _ _ _ heffect hcut hinvokes hreturned
      exact absurd hreleases (hunreleased e (earlier hcut he))
  · intro hruns
    exact (h.effective hquiet heffect hruns).committed t (Db.rowAt_of_task ht) rfl hdone

end Runs

/-! ## A ticket that is created, and one that is not -/

def Action.stopsWorker : Action → Bool
  | .crash _ | .abandon _ => true
  | _ => false

def Action.outcome? : Action → Option RunOutcome
  | .run _ outcome => some outcome
  | _ => none

theorem undisturbed_of {ts : List SysTransition} (hleases : ∀ c ∈ ts, LeasesHold c)
    (hledger : ∀ c ∈ ts, c.action.callsLedger = false) : Undisturbed oneHost ts where
  leases := hleases
  ledger := fun c hc => Action.ne_ledger (hledger c hc)
  hashes := fun _ _ _ _ _ _ _ _ _ _ _ _ _ _ hsame => hsame

def createTicket : List Action :=
  [submitPlan [40], .claim 0 0 0 unlocked, .load 0, .begin 0 0, .run 0 ticketCreated,
    .settle 0 (seconds 1), .confirm 0, .checkpoint 0 (seconds 1)]

theorem success_iff_no_retryable_failure_createTicket :
    ∃ t, (ran oneHost createTicket).2.db.task (rowId firstAgent 0) = some t ∧
      t.status = .succeeded ∧
        ((∃ fields, t.result = some fields ∧
            Returned (ran oneHost createTicket).1 t.agentId t.seq t.taskDefId fields) ↔
          ∀ c ∈ (ran oneHost createTicket).1, ∀ outcome,
            Invokes c t.agentId t.seq t.taskDefId outcome → outcome.retryable = false) := by
  have hrow : ((ran oneHost createTicket).2.db.task (rowId firstAgent 0)).map
      (fun t => (t.status, t.taskDefId)) = some (.succeeded, 40) := by
    decide +kernel
  obtain ⟨t, ht, hread⟩ := Option.map_eq_some_iff.1 hrow
  obtain ⟨hdone, hdef⟩ := Prod.mk.inj hread
  refine ⟨t, ht, hdone, success_iff_no_retryable_failure (run_ran oneHost createTicket)
    (undisturbed_of (by decide +kernel) (by decide +kernel)) ht hdone ?_⟩
  rw [hdef]
  exact ⟨_, rfl, rfl⟩

/-- Creating the ticket fails once, and nothing is ever created; the retry comes after
`reconcile` has closed the reservation. -/
def lostTicket : List Action :=
  [submitPlan [40], .claim 0 0 0 unlocked, .load 0, .begin 0 0,
    .run 0 (.raised jiraDown)] ++ reported 0 (seconds 1) ++
    [.reconcile none 100 (seconds 61) unlocked, .claim 0 (seconds 62) (seconds 62) unlocked,
      .load 0, .begin 0 (seconds 62), .confirm 0, .checkpoint 0 (seconds 62)]

/-- No worker dies and no lease expires, and yet a task succeeds with the marker that no
invocation returned. -/
theorem lostTicket_unresolved : ∃ ts s k t, SysRun oneHost ts s ∧
    (∀ c ∈ ts, LeasesHold c ∧ c.action.stopsWorker = false) ∧ s.db.task k = some t ∧
      t.status = .succeeded ∧ SideEffecting oneHost t.taskDefId ∧
        t.result = some Ledger.unresolved ∧
          ¬ ∃ fields, t.result = some fields ∧
            Returned ts t.agentId t.seq t.taskDefId fields := by
  have hrow : ((ran oneHost lostTicket).2.db.task (rowId firstAgent 0)).map
      (fun t => (t.status, t.taskDefId, t.result)) =
        some (.succeeded, 40, some Ledger.unresolved) := by
    decide +kernel
  obtain ⟨t, ht, hread⟩ := Option.map_eq_some_iff.1 hrow
  obtain ⟨hdone, hread⟩ := Prod.mk.inj hread
  obtain ⟨hdef, hresult⟩ := Prod.mk.inj hread
  have houtcomes : ∀ c ∈ (ran oneHost lostTicket).1, ∀ outcome ∈ c.action.outcome?,
      outcome = .raised jiraDown := by
    decide +kernel
  refine ⟨_, _, _, t, run_ran oneHost lostTicket, by decide +kernel, ht, hdone, ?_, hresult, ?_⟩
  · rw [hdef]
    exact ⟨_, rfl, rfl⟩
  · rintro ⟨fields, -, c, hc, p, _, _, _, _, ha, -⟩
    have hraised := houtcomes c hc _ (by rw [ha]; rfl)
    cases hraised

end ReliableAgents
