import ReliableAgents.Api.Admission
import ReliableAgents.Deployment
import ReliableAgents.Lifecycle.Statements

/-!
# The admission bound

No transition revives an agent, so the count a lock holder has read bounds the
number of running agents until it commits; and nobody else can commit an agent
before that.
-/

namespace ReliableAgents

open Relational

/-! ## Nobody is revived -/

def NoneRevived (db db' : Db) : Prop :=
  ∀ a ag', db'.agent a = some ag' → ag'.status = .running →
    ∃ ag, db.agent a = some ag ∧ ag.status = .running

section Revival

variable {ladder : Ladder} {db db' db'' : Db}

theorem NoneRevived.refl (db : Db) : NoneRevived db db := fun _ ag hag hrunning =>
  ⟨ag, hag, hrunning⟩

theorem NoneRevived.trans (h : NoneRevived db db') (h' : NoneRevived db' db'') :
    NoneRevived db db'' := by
  intro a ag hag hrunning
  obtain ⟨ag', hag', hrunning'⟩ := h' a ag hag hrunning
  exact h a ag' hag' hrunning'

theorem noneRevived_of_agents (h : db'.agents = db.agents) : NoneRevived db db' := by
  intro a ag hag hrunning
  exact ⟨ag, by rwa [Db.agent, ← h], hrunning⟩

theorem noneRevived_of_update {p : Agent → Bool} {f : Agent → Agent}
    (hkey : ∀ a, (f a).id = a.id) (huniq : ∀ a, (f a).id = a.id)
    (hstatus : ∀ a, (f a).status = .running → a.status = .running)
    (h : db'.agents = db.agents.update p f hkey huniq) : NoneRevived db db' := by
  intro a ag' hag' hrunning
  rw [Db.agent, h, Table.get?_update, Option.map_eq_some_iff] at hag'
  obtain ⟨ag, hag, rfl⟩ := hag'
  refine ⟨ag, hag, ?_⟩
  split at hrunning
  · exact hstatus ag hrunning
  · exact hrunning

theorem activeAgents_eq (db : Db) :
    activeAgents db = ((db.agents.select fun a => a.status = .running).map Agent.id).length := by
  rw [activeAgents, Table.count, List.countP_eq_length_filter, List.length_map, Table.select]

theorem NoneRevived.activeAgents_le (h : NoneRevived db db') :
    activeAgents db' ≤ activeAgents db := by
  rw [activeAgents_eq, activeAgents_eq]
  refine (Table.select_map_nodup _ _).length_le_of_subset fun a ha => ?_
  obtain ⟨ag', hmem, rfl⟩ := List.mem_map.1 ha
  obtain ⟨hag', hrunning'⟩ := Table.mem_select.1 hmem
  obtain ⟨ag, hag, hrunning⟩ := h _ ag' hag' (of_decide_eq_true hrunning')
  rw [← Db.id_of_agent hag]
  refine List.mem_map_of_mem (Table.mem_select.2 ⟨?_, decide_eq_true hrunning⟩)
  exact Table.get?_of_mem _ (Table.mem_of_get? hag)

theorem Statement.noneRevived {cfg : Config} {s : Sys} {a : Action} (hcreates : a.creates = false)
    (h : Statement cfg s a db db') : NoneRevived db db' := by
  cases h with
  | submit | seed => cases hcreates
  | renew | reclaim => exact noneRevived_of_agents rfl
  | claim hclaim =>
      obtain ⟨-, -, -, -, rfl⟩ := claimOne_spec hclaim
      exact noneRevived_of_agents rfl
  | ledger hledger =>
      obtain ⟨table, rfl⟩ := hledger
      exact noneRevived_of_agents rfl
  | @checkpoint _ now _ task _ cost tokens _ _ _ _ hcommit =>
      rcases checkpointSuccess_spec hcommit with ⟨-, rfl⟩ | ⟨fields, -, -, -, -, -, -, -, -, -, rfl⟩
      · exact .refl _
      · refine noneRevived_of_update (f := Agent.advanced task.seq fields cost tokens now)
          (fun _ => rfl) (fun _ => rfl) (fun ag hrunning => ?_) rfl
        -- a checkpoint completes the agent or leaves its status
        rw [Agent.advanced_status] at hrunning
        split at hrunning
        · cases hrunning
        · exact hrunning
  | report _ hreport =>
      rcases reportFailure_spec hreport with ⟨-, rfl⟩ | ⟨-, -, -, -, -, rfl⟩
      · exact .refl _
      · exact noneRevived_of_agents rfl
  | repair _ _ _ hrepair =>
      rcases repairOne_spec hrepair with rfl | ⟨_, -, hinsert⟩
      · exact .refl _
      · obtain ⟨-, -, -, ⟨table, rfl⟩, -⟩ := insertTask_spec hinsert
        exact noneRevived_of_agents rfl
  | @finalise _ now =>
      refine noneRevived_of_update (f := Agent.finalised now) (fun _ => rfl) (fun _ => rfl) ?_ rfl
      intro ag hrunning
      cases hrunning
  | @route _ _ now _ _ _ _ _ _ _ hroute =>
      have hspec := routeOne_spec hroute
      split at hspec
      · rw [hspec.2]
        exact noneRevived_of_agents rfl
      · rw [hspec.2]
        exact noneRevived_of_agents rfl
      · obtain ⟨-, reason, hkill⟩ := hspec
        obtain ⟨-, -, -, -, -, -, -, -, -, rfl⟩ := kill_spec hkill
        refine noneRevived_of_update (f := Agent.markedFailed now) (fun _ => rfl) (fun _ => rfl) ?_
          rfl
        intro ag hrunning
        cases hrunning

theorem step_noneRevived {cfg : Config} {s s' : Sys} {a : Action} (hcreates : a.creates = false)
    (h : step cfg s a = some s') : NoneRevived s.db s'.db :=
  Machine.closure_invariant (I := NoneRevived s.db)
    (fun _ _ hpast hs => hpast.trans (hs.noneRevived hcreates)) (.refl _) (step_statements h)

end Revival

/-! ## What an accepted request adds -/

/-- `db'` is `db` with the agents of a request and one row for each of their plan positions. -/
structure Adds (r : Request) (tier : TierName) (db db' : Db) : Prop where
  count : r.agentIds.length = r.count
  fresh : ∀ a ∈ r.agentIds, db.agent a = none
  nodup : r.agentIds.Nodup
  agents : ∀ a, db'.agent a =
    if a ∈ r.agentIds then some (.fresh a r.plan r.now) else db.agent a
  rows : ∀ a i, db'.rowAt a i =
    if a ∈ r.agentIds ∧ i < r.plan.length then
      (r.plan[i]?).map fun taskDefId => .fresh (r.ids a i) a i taskDefId tier r.now
    else db.rowAt a i

section Creation

variable {ladder : Ladder} {plan : List Int} {tier : TierName} {ids : Uuid → Nat → Uuid}
  {now : Time} {db db' : Db}

theorem createAgent_active {agentId : Uuid}
    (h : createAgent ladder plan tier ids now db agentId = some db') :
    activeAgents db' = activeAgents db + 1 := by
  unfold createAgent at h
  rw [Option.bind_eq_some_iff] at h
  obtain ⟨mid, hmid, hplan⟩ := h
  obtain ⟨⟨table, hdb'⟩, -⟩ := insertPlan_spec hplan
  obtain ⟨agents, hagents, rfl⟩ := Option.map_eq_some_iff.1 hmid
  obtain ⟨-, -, hrows⟩ := Table.insert?_eq_some hagents
  rw [hdb', activeAgents, activeAgents, Table.count, Table.count]
  simp [hrows]

theorem createAgents_active {agentIds : List Uuid}
    (h : createAgents ladder plan tier agentIds ids now db = some db') :
    activeAgents db' = activeAgents db + agentIds.length := by
  unfold createAgents at h
  induction agentIds generalizing db with
  | nil =>
      cases h
      rfl
  | cons a rest ih =>
      rw [List.foldlM_cons, Option.bind_eq_bind, Option.bind_eq_some_iff] at h
      obtain ⟨mid, hmid, hrest⟩ := h
      rw [ih hrest, createAgent_active hmid, List.length_cons]
      omega

theorem createAgents_adds {agentIds : List Uuid}
    (h : createAgents ladder plan tier agentIds ids now db = some db') :
    (∀ a ∈ agentIds, db.agent a = none) ∧ agentIds.Nodup ∧
      (∀ a, db'.agent a = if a ∈ agentIds then some (.fresh a plan now) else db.agent a) ∧
      ∀ a i, db'.rowAt a i =
        if a ∈ agentIds ∧ i < plan.length then
          (plan[i]?).map fun taskDefId => .fresh (ids a i) a i taskDefId tier now
        else db.rowAt a i := by
  unfold createAgents at h
  induction agentIds generalizing db with
  | nil =>
      cases h
      simp
  | cons b rest ih =>
      rw [List.foldlM_cons, Option.bind_eq_bind, Option.bind_eq_some_iff] at h
      obtain ⟨mid, hmid, hrest⟩ := h
      obtain ⟨hnone, -, -, hagent, -, -, hrow⟩ := createAgent_spec hmid
      obtain ⟨hfresh, hnodup, hagents, hrows⟩ := ih hrest
      have hb : b ∉ rest := by
        intro hmem
        have hsome := hfresh b hmem
        rw [hagent, if_pos rfl] at hsome
        cases hsome
      refine ⟨fun a ha => ?_, List.nodup_cons.2 ⟨hb, hnodup⟩, fun a => ?_, fun a i => ?_⟩
      · rcases List.mem_cons.1 ha with rfl | ha
        · exact hnone
        · have hmid := hfresh a ha
          have hne : a ≠ b := fun heq => hb (heq ▸ ha)
          rwa [hagent, if_neg hne] at hmid
      · rw [hagents, hagent]
        by_cases ha : a = b
        · simp [ha, hb]
        · simp [ha]
      · rw [hrows, hrow]
        by_cases ha : a = b
        · simp [ha, hb]
        · simp [ha]

end Creation

/-! ## Steps of the front -/

/-- What each action finds and leaves. -/
inductive FrontStep (cfg : Config) (f : Front) : FrontAction → Front → Prop where
  | arrive {c : Nat} {r : Request} :
      f.clients c = .idle → FrontStep cfg f (.arrive c r) (f.setClient c (arrive cfg r))
  | lock {c : Nat} {r : Request} {tier : TierName} :
      f.clients c = .waiting r tier → f.lock = none →
      FrontStep cfg f (.lock c) { f.setClient c (.locked r tier) with lock := some c }
  | count {c : Nat} {r : Request} {tier : TierName} :
      f.clients c = .locked r tier →
      FrontStep cfg f (.count c) (f.setClient c (countRunning cfg r tier f.sys.db))
  | insert {c : Nat} {r : Request} {tier : TierName} {written left : List Insert}
      {statement : Insert} :
      f.clients c = .inserting r tier written (statement :: left) →
      FrontStep cfg f (.insert c)
        (f.setClient c (.inserting r tier (written ++ [statement]) left))
  | insertRaises {c : Nat} {r : Request} {tier : TierName} {written left : List Insert} :
      f.clients c = .inserting r tier written left →
      FrontStep cfg f (.insert c) (f.setClient c (.unwinding r .aborted))
  | commit {c : Nat} {r : Request} {tier : TierName} {written : List Insert} {db : Db} :
      f.clients c = .inserting r tier written [] →
      replay cfg.ladder written f.sys.db = some db →
      FrontStep cfg f (.commit c) { f.finish c (.accepted r) with sys := f.sys.setDb db }
  | commitRaises {c : Nat} {r : Request} {tier : TierName} {written : List Insert} :
      f.clients c = .inserting r tier written [] →
      FrontStep cfg f (.commit c) (f.finish c (.rejected r .aborted))
  | rollback {c : Nat} {r : Request} {reason : Rejection} :
      f.clients c = .unwinding r reason →
      FrontStep cfg f (.rollback c) (f.finish c (.rejected r reason))
  | abort {c : Nat} {r : Request} :
      (f.clients c).open? = some r → FrontStep cfg f (.abort c) (f.finish c (.rejected r .aborted))
  | other {a : Action} {sys : Sys} :
      a.creates = false → step cfg f.sys a = some sys →
      FrontStep cfg f (.other a) { f with sys := sys }

theorem serve_step {cfg : Config} {f f' : Front} {act : FrontAction}
    (h : serve cfg f act = some f') : FrontStep cfg f act f' := by
  cases act with
  | arrive c r =>
      simp only [serve] at h
      split at h
      · rename_i hidle
        cases h
        exact .arrive hidle
      · cases h
  | lock c =>
      simp only [serve] at h
      split at h
      · rename_i r tier hwaiting
        split at h
        · rename_i hfree
          cases h
          exact .lock hwaiting hfree
        · cases h
      · cases h
  | count c =>
      simp only [serve] at h
      split at h
      · rename_i r tier hlocked
        cases h
        exact .count hlocked
      · cases h
  | insert c =>
      simp only [serve] at h
      split at h
      · rename_i r tier written statement left hinserting
        split at h
        · cases h
          exact .insert hinserting
        · cases h
          exact .insertRaises hinserting
      · cases h
  | commit c =>
      simp only [serve] at h
      split at h
      · rename_i r tier written hinserting
        split at h
        · cases h
          exact .commitRaises hinserting
        · rename_i db hreplay
          cases h
          exact .commit hinserting hreplay
      · cases h
  | rollback c =>
      simp only [serve] at h
      split at h
      · rename_i r reason hunwinding
        cases h
        exact .rollback hunwinding
      · cases h
  | abort c =>
      simp only [serve] at h
      split at h
      · rename_i r hopen
        cases h
        exact .abort hopen
      · cases h
  | other a =>
      simp only [serve] at h
      split at h
      · cases h
      · rename_i hcreates
        obtain ⟨sys, hstep, rfl⟩ := Option.map_eq_some_iff.1 h
        exact .other (by simpa using hcreates) hstep

/-! ## The lock holder's count -/

/-- The body passed its checks, at this tier. -/
structure Request.Admissible (cfg : Config) (r : Request) (tier : TierName) : Prop where
  known : ∀ tid ∈ r.plan, tid ∈ cfg.taskDefs
  plan : r.plan ≠ []
  tier : r.forceTier.or cfg.ladder.baseTier = some tier

/-- Whoever has the lock is the one it belongs to, and has room for its agents from its
count until its commit. -/
structure HoldsRoom (cfg : Config) (f : Front) : Prop where
  bound : activeAgents f.sys.db ≤ cfg.maxActiveAgents
  holder : ∀ c, (f.clients c).holds = true → f.lock = some c
  checked : ∀ c r tier, (f.clients c).serving? = some (r, tier) → r.Admissible cfg tier
  room : ∀ c r tier written left, f.clients c = .inserting r tier written left →
    activeAgents f.sys.db + r.count ≤ cfg.maxActiveAgents ∧ written ++ left = r.inserts tier

theorem arrive_admissible {cfg : Config} {r r' : Request} {tier : TierName}
    (h : (arrive cfg r).serving? = some (r', tier)) : r'.Admissible cfg tier := by
  unfold arrive at h
  dsimp only at h
  split at h
  · cases h
  rename_i hunknown
  split at h
  · cases h
  rename_i hplan
  split at h
  · cases h
  rename_i htier
  cases h
  refine ⟨fun tid htid => ?_, hplan, htier⟩
  by_contra hnot
  exact hunknown fun hnil =>
    absurd (hnil ▸ List.mem_filter.2 ⟨htid, by simpa using hnot⟩) List.not_mem_nil

theorem arrive_holds (cfg : Config) (r : Request) : (arrive cfg r).holds = false := by
  unfold arrive
  dsimp only
  repeat' split
  all_goals rfl

section Guard

variable {cfg : Config} {f f' : Front} {act : FrontAction}

theorem HoldsRoom.setClient (h : HoldsRoom cfg f) {c : Nat} {client : Client} {lock : Option Nat}
    (hmine : client.holds = true → lock = some c)
    (hothers : ∀ d, d ≠ c → f.lock = some d → lock = some d)
    (hchecked : ∀ r tier, client.serving? = some (r, tier) → r.Admissible cfg tier)
    (hroom : ∀ r tier written left, client = .inserting r tier written left →
      activeAgents f.sys.db + r.count ≤ cfg.maxActiveAgents ∧ written ++ left = r.inserts tier) :
    HoldsRoom cfg { f.setClient c client with lock := lock } where
  bound := h.bound
  holder := by
    intro d hd
    rw [show (_ : Front).clients d = _ from Front.setClient_clients] at hd
    split at hd
    · rename_i heq
      rw [heq]
      exact hmine hd
    · rename_i hne
      exact hothers d hne (h.holder d hd)
  checked := by
    intro d r tier hd
    rw [show (_ : Front).clients d = _ from Front.setClient_clients] at hd
    split at hd
    · exact hchecked r tier hd
    · exact h.checked d r tier hd
  room := by
    intro d r tier written left hd
    rw [show (_ : Front).clients d = _ from Front.setClient_clients] at hd
    split at hd
    · exact hroom r tier written left hd
    · exact h.room d r tier written left hd

theorem HoldsRoom.finish (h : HoldsRoom cfg f) (c : Nat) {client : Client}
    (hclosed : client.open? = none) : HoldsRoom cfg (f.finish c client) := by
  have hlock : ∀ d, d ≠ c → f.lock = some d →
      (if f.lock = some c then none else f.lock) = some d := by
    intro d hd hlock
    rw [hlock, if_neg (fun heq => hd (Option.some.inj heq))]
  cases client with
  | waiting | locked | inserting | unwinding => cases hclosed
  | idle | rejected | accepted =>
      exact h.setClient (fun hholds => by cases hholds) hlock
        (fun _ _ hserving => by cases hserving) (fun _ _ _ _ hinserting => by cases hinserting)

theorem FrontStep.holdsRoom (h : HoldsRoom cfg f) (hs : FrontStep cfg f act f') : HoldsRoom cfg f' := by
  cases hs with
  | @arrive c r hidle =>
      refine h.setClient (fun hholds => ?_) (fun _ _ hlock => hlock)
        (fun _ _ hserving => arrive_admissible hserving) (fun r' tier written left harrive => ?_)
      · rw [arrive_holds] at hholds
        cases hholds
      · have hholds := arrive_holds cfg r
        rw [harrive] at hholds
        cases hholds
  | @lock c r tier hwaiting hfree =>
      refine h.setClient (fun _ => rfl) (fun d _ hlock => ?_) (fun r' tier' hserving => ?_)
        (fun _ _ _ _ hinserting => by cases hinserting)
      · rw [hfree] at hlock
        cases hlock
      · exact h.checked c r' tier' (hwaiting ▸ hserving)
  | @count c r tier hlocked =>
      have hmine : f.lock = some c := h.holder c (by rw [hlocked]; rfl)
      unfold countRunning
      split
      · exact h.setClient (fun _ => hmine) (fun _ _ hlock => hlock)
          (fun _ _ hserving => by cases hserving) (fun _ _ _ _ hinserting => by cases hinserting)
      · rename_i hroom
        refine h.setClient (fun _ => hmine) (fun _ _ hlock => hlock)
          (fun r' tier' hserving => h.checked c r' tier' (hlocked ▸ hserving)) ?_
        rintro r' tier' written left hinserting
        cases hinserting
        exact ⟨not_lt.1 hroom, rfl⟩
  | @insert c r tier written left statement hinserting =>
      have hmine : f.lock = some c := h.holder c (by rw [hinserting]; rfl)
      obtain ⟨hroom, hprogram⟩ := h.room c r tier _ _ hinserting
      refine h.setClient (fun _ => hmine) (fun _ _ hlock => hlock)
        (fun r' tier' hserving => h.checked c r' tier' (hinserting ▸ hserving)) ?_
      rintro r' tier' written' left' hnext
      cases hnext
      exact ⟨hroom, by simpa using hprogram⟩
  | @insertRaises c r tier written left hinserting =>
      have hmine : f.lock = some c := h.holder c (by rw [hinserting]; rfl)
      exact h.setClient (fun _ => hmine) (fun _ _ hlock => hlock)
        (fun _ _ hserving => by cases hserving) (fun _ _ _ _ hnext => by cases hnext)
  | commitRaises => exact h.finish _ rfl
  | rollback => exact h.finish _ rfl
  | abort => exact h.finish _ rfl
  | @commit c r tier written db hinserting hreplay =>
      have hfinished : HoldsRoom cfg (f.finish c (.accepted r)) := h.finish c rfl
      have hmine : f.lock = some c := h.holder c (by rw [hinserting]; rfl)
      obtain ⟨hroom, hprogram⟩ := h.room c r tier _ _ hinserting
      rw [List.append_nil] at hprogram
      rw [hprogram, replay_inserts] at hreplay
      have hactive := createAgents_active hreplay
      simp only [Request.agentIds, List.length_map, List.length_range] at hactive
      refine ⟨?_, hfinished.holder, hfinished.checked, fun d r' tier' written' left hd => ?_⟩
      · rw [Sys.setDb_db, hactive]
        exact hroom
      · -- nobody else has the lock that inserting takes
        have hd' := hd
        rw [show (_ : Front).clients d = _ from Front.finish_clients] at hd'
        split at hd'
        · cases hd'
        · rename_i hne
          have hlock := h.holder d (by rw [hd']; rfl)
          rw [hmine] at hlock
          exact absurd (Option.some.inj hlock).symm hne
  | other hcreates hstep =>
      have hle := (step_noneRevived hcreates hstep).activeAgents_le
      refine ⟨hle.trans h.bound, h.holder, h.checked, fun c r tier written left hc => ?_⟩
      obtain ⟨hroom, hprogram⟩ := h.room c r tier written left hc
      exact ⟨(Nat.add_le_add_right hle _).trans hroom, hprogram⟩

end Guard

/-! ## What became of a request -/

/-- Transition `t` commits the request `r` of client `c`, as one submission. -/
structure CommitsRequest (cfg : Config) (t : FrontTransition) (c : Nat) (r : Request) : Prop where
  action : t.action = .commit c
  submits : submitAgents cfg.ladder cfg.taskDefs cfg.maxActiveAgents r.forceTier r.plan r.agentIds
    r.ids r.now t.before.sys.db = .ok t.after.sys.db
  adds : ∃ tier, r.forceTier.or cfg.ladder.baseTier = some tier ∧
    Adds r tier t.before.sys.db t.after.sys.db

/-- What client `c` does leaves no trace in the database. -/
def Silent (ts : List FrontTransition) (c : Nat) : Prop :=
  ∀ t ∈ ts, t.action.client? = some c → t.after.sys.db = t.before.sys.db

/-- An accepted request wrote once, at its commit; any other has written nothing. -/
def Wrote (cfg : Config) (ts : List FrontTransition) (c : Nat) : Client → Prop
  | .accepted r =>
      ∃ pre t post, ts = pre ++ t :: post ∧ CommitsRequest cfg t c r ∧ Silent pre c ∧ Silent post c
  | _ => Silent ts c

def Client.reason? : Client → Option (Request × Rejection)
  | .unwinding r reason | .rejected r reason => some (r, reason)
  | .idle | .waiting _ _ | .locked _ _ | .inserting _ _ _ _ | .accepted _ => none

/-- The count that refused `r` was over the cap. -/
def CountedOver (cfg : Config) (ts : List FrontTransition) (c : Nat) (r : Request)
    (active requested : Nat) : Prop :=
  ∃ t ∈ ts, t.action = .count c ∧ active = activeAgents t.before.sys.db ∧ requested = r.count ∧
    cfg.maxActiveAgents < active + requested

section Outcomes

variable {cfg : Config} {ts : List FrontTransition} {f f' : Front} {act : FrontAction} {c : Nat}

theorem Silent.snoc (h : Silent ts c) {t : FrontTransition}
    (ht : t.action.client? = some c → t.after.sys.db = t.before.sys.db) :
    Silent (ts ++ [t]) c := by
  intro u hu hc
  rcases List.mem_append.1 hu with hu | hu
  · exact h u hu hc
  · rw [List.mem_singleton.1 hu] at hc ⊢
    exact ht hc

theorem Wrote.snoc {client : Client} (h : Wrote cfg ts c client) {t : FrontTransition}
    (ht : t.action.client? = some c → t.after.sys.db = t.before.sys.db) :
    Wrote cfg (ts ++ [t]) c client := by
  cases client with
  | accepted r =>
      obtain ⟨pre, u, post, rfl, hcommits, hpre, hpost⟩ := h
      exact ⟨pre, u, post ++ [t], by simp, hcommits, hpre, hpost.snoc ht⟩
  | _ => exact Silent.snoc h ht

theorem Wrote.silent {client : Client} {r : Request} (h : Wrote cfg ts c client)
    (hopen : client.open? = some r) : Silent ts c := by
  cases client with
  | accepted => cases hopen
  | _ => exact h

theorem wrote_of_silent {client : Client} (h : Silent ts c) (hclient : ∀ r, client ≠ .accepted r) :
    Wrote cfg ts c client := by
  cases client with
  | accepted r => exact absurd rfl (hclient r)
  | _ => exact h

/-- A commit is the atomic submission, whatever happened since the count. -/
theorem HoldsRoom.commitsRequest (h : HoldsRoom cfg f) {r : Request} {tier : TierName} {written : List Insert}
    {db : Db} (hinserting : f.clients c = .inserting r tier written [])
    (hreplay : replay cfg.ladder written f.sys.db = some db) :
    CommitsRequest cfg ⟨f, .commit c, { f.finish c (.accepted r) with sys := f.sys.setDb db }⟩ c r := by
  obtain ⟨hroom, hprogram⟩ := h.room c r tier _ _ hinserting
  obtain ⟨hknown, hplan, htier⟩ := h.checked c r tier (by rw [hinserting]; rfl)
  rw [List.append_nil] at hprogram
  rw [hprogram, replay_inserts] at hreplay
  obtain ⟨hfresh, hnodup, hagents, hrows⟩ := createAgents_adds hreplay
  refine ⟨rfl, ?_, tier, htier, by simp [Request.agentIds], hfresh, hnodup, hagents, hrows⟩
  refine submitAgents_eq_ok hplan hknown ?_ htier hreplay
  simpa [Request.agentIds] using hroom

theorem FrontStep.clients_other (hs : FrontStep cfg f act f') (hc : act.client? ≠ some c) :
    f'.clients c = f.clients c := by
  have hset : ∀ {d : Nat} {client : Client}, some d ≠ some c →
      (f.setClient d client).clients c = f.clients c := by
    intro d client hd
    rw [Front.setClient_clients, if_neg fun heq => hd (congrArg some heq.symm)]
  cases hs with
  | other => rfl
  | arrive | lock | count | insert | insertRaises | commit | commitRaises | rollback | abort =>
      exact hset hc

theorem FrontStep.wrote (hguard : HoldsRoom cfg f) (hs : FrontStep cfg f act f')
    (h : Wrote cfg ts c (f.clients c)) : Wrote cfg (ts ++ [⟨f, act, f'⟩]) c (f'.clients c) := by
  by_cases hc : act.client? = some c
  · -- the client acts itself: it has not been accepted yet, and only its commit writes
    have own : ∀ {client : Client}, f'.clients c = client → f'.sys.db = f.sys.db →
        (∀ r, client ≠ .accepted r) → Silent ts c →
          Wrote cfg (ts ++ [⟨f, act, f'⟩]) c (f'.clients c) := by
      intro client hclient hdb hnot hsilent
      rw [hclient]
      exact wrote_of_silent (hsilent.snoc fun _ => hdb) hnot
    cases hs with
    | other => cases hc
    | @arrive d r hidle =>
        cases hc
        rw [hidle] at h
        refine own (if_pos rfl) rfl (fun r' harrive => ?_) h
        unfold ReliableAgents.arrive at harrive
        dsimp only at harrive
        repeat' split at harrive
        all_goals cases harrive
    | @count d r tier hlocked =>
        cases hc
        refine own (if_pos rfl) rfl (fun r' hcounted => ?_) (h.silent (by rw [hlocked]; rfl))
        unfold countRunning at hcounted
        split at hcounted <;> cases hcounted
    | lock hphase | insert hphase | insertRaises hphase | commitRaises hphase | rollback hphase =>
        cases hc
        exact own (if_pos rfl) rfl (by simp) (h.silent (by rw [hphase]; rfl))
    | abort hopen =>
        cases hc
        exact own (if_pos rfl) rfl (by simp) (h.silent hopen)
    | @commit d r tier written db hinserting hreplay =>
        cases hc
        have hclient : (f.finish c (.accepted r)).clients c = .accepted r := by
          rw [Front.finish_clients, if_pos rfl]
        rw [show (_ : Front).clients c = _ from hclient]
        refine ⟨ts, _, [], rfl, hguard.commitsRequest hinserting hreplay, ?_, fun _ ht => by cases ht⟩
        exact h.silent (by rw [hinserting]; rfl)
  · rw [hs.clients_other hc]
    exact h.snoc fun hmine => absurd hmine hc

theorem CountedOver.snoc {r : Request} {active requested : Nat}
    (h : CountedOver cfg ts c r active requested) (t : FrontTransition) :
    CountedOver cfg (ts ++ [t]) c r active requested := by
  obtain ⟨u, hu, hrest⟩ := h
  exact ⟨u, List.mem_append_left _ hu, hrest⟩

/-- Every refusal at capacity goes back to a count. -/
theorem FrontStep.countedOver (hs : FrontStep cfg f act f')
    (h : ∀ r active requested,
      (f.clients c).reason? = some (r, .refused (.atCapacity active requested)) →
        CountedOver cfg ts c r active requested)
    {r : Request} {active requested : Nat}
    (hreason : (f'.clients c).reason? = some (r, .refused (.atCapacity active requested))) :
    CountedOver cfg (ts ++ [⟨f, act, f'⟩]) c r active requested := by
  by_cases hc : act.client? = some c
  · have own : ∀ {client : Client}, f'.clients c = client →
        client.reason? = some (r, .refused (.atCapacity active requested)) := by
      intro client hclient
      rw [← hclient, hreason]
    cases hs with
    | other => cases hc
    | @arrive d r' hidle =>
        cases hc
        have harrive := own (if_pos rfl)
        unfold ReliableAgents.arrive at harrive
        dsimp only at harrive
        repeat' split at harrive
        all_goals cases harrive
    | @count d r' tier hlocked =>
        cases hc
        have hcounted := own (if_pos rfl)
        unfold countRunning at hcounted
        split at hcounted
        · rename_i hover
          cases hcounted
          exact ⟨_, List.mem_append_right _ (List.mem_singleton_self _), rfl, rfl, rfl, hover⟩
        · cases hcounted
    | lock | insert | insertRaises | commitRaises | abort | commit =>
        cases hc
        cases own (if_pos rfl)
    | @rollback d r' reason hunwinding =>
        cases hc
        have hsame := own (if_pos rfl)
        refine (h r active requested ?_).snoc _
        rw [hunwinding]
        exact hsame
  · rw [hs.clients_other hc] at hreason
    exact (h r active requested hreason).snoc _

end Outcomes

/-- However many requests race with each other, with the workers and with the
orchestrators: the cap holds, a request is refused at capacity only for what it counted,
and it has written all of its rows in one commit or none. -/
theorem admission_bound {cfg : Config} {ts : List FrontTransition} {f₀ f : Front}
    (hroom : activeAgents f₀.sys.db ≤ cfg.maxActiveAgents) (hidle : ∀ c, f₀.clients c = .idle)
    (h : Machine.Run (serve cfg) f₀ ts f) :
    activeAgents f.sys.db ≤ cfg.maxActiveAgents ∧
      (∀ c r active requested,
        f.clients c = .rejected r (.refused (.atCapacity active requested)) →
          CountedOver cfg ts c r active requested) ∧
      (∀ c r reason, f.clients c = .rejected r reason → Silent ts c) ∧
      ∀ c r, f.clients c = .accepted r →
        ∃ pre t post, ts = pre ++ t :: post ∧ CommitsRequest cfg t c r ∧ Silent pre c ∧ Silent post c := by
  have hinv : HoldsRoom cfg f ∧ (∀ c, Wrote cfg ts c (f.clients c)) ∧
      ∀ c r active requested,
        (f.clients c).reason? = some (r, .refused (.atCapacity active requested)) →
          CountedOver cfg ts c r active requested := by
    refine h.invariant_along (I := fun us u => HoldsRoom cfg u ∧
      (∀ c, Wrote cfg us c (u.clients c)) ∧ ∀ c r active requested,
        (u.clients c).reason? = some (r, .refused (.atCapacity active requested)) →
          CountedOver cfg us c r active requested) (fun _ => True) ⟨?_, ?_, ?_⟩ ?_
      (fun _ _ => trivial)
    · refine ⟨hroom, fun c hc => ?_, fun c _ _ hc => ?_, fun c _ _ _ _ hc => ?_⟩
      all_goals
        rw [hidle] at hc
        cases hc
    · intro c
      rw [hidle]
      exact fun _ ht => by cases ht
    · intro c r active requested hreason
      rw [hidle] at hreason
      cases hreason
    · rintro us u act u' - - ⟨hguard, hwrote, hcounted⟩ hstep -
      have hs := serve_step hstep
      exact ⟨hs.holdsRoom hguard, fun c => hs.wrote hguard (hwrote c),
        fun c r active requested hreason => hs.countedOver (hcounted c) hreason⟩
  obtain ⟨hguard, hwrote, hcounted⟩ := hinv
  refine ⟨hguard.bound, fun c r active requested hc => hcounted c r active requested ?_,
    fun c r reason hc => ?_, fun c r hc => ?_⟩
  · rw [hc]
    rfl
  · have hsilent := hwrote c
    rw [hc] at hsilent
    exact hsilent
  · have haccepted := hwrote c
    rw [hc] at haccepted
    exact haccepted

def roomForOne : Config := { oneHost with maxActiveAgents := 1 }

def quiet : Front where
  sys := .init
  clients := fun _ => .idle
  lock := none

def oneAgent (n : Nat) : Request where
  plan := [20, 1]
  count := 1
  forceTier := none
  agentId := fun i => ⟨BitVec.ofNat 128 (n + i + 1)⟩
  ids := rowId
  now := 0

/-- Both requests arrive before either has counted. -/
def race : List FrontAction :=
  [.arrive 0 (oneAgent 0), .arrive 1 (oneAgent 1), .lock 0, .count 0, .insert 0, .insert 0,
    .insert 0, .commit 0, .lock 1, .count 1, .rollback 1]

theorem admission_bound_race :
    let ran := Machine.performed (serve roomForOne) quiet race
    activeAgents ran.2.sys.db = 1 ∧ activeAgents ran.2.sys.db ≤ 1 ∧
      CountedOver roomForOne ran.1 1 (oneAgent 1) 1 1 := by
  have hbound := @admission_bound roomForOne _ quiet _ (by decide) (fun _ => rfl)
    (Machine.run_performed (serve roomForOne) quiet race)
  exact ⟨by decide +kernel, hbound.1, hbound.2.1 1 (oneAgent 1) 1 1 rfl⟩

end ReliableAgents
