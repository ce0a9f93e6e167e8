import ReliableAgents.Common.Runtime
import ReliableAgents.Deployment
import ReliableAgents.Lifecycle.Refinement
import ReliableAgents.Orchestrator.Routing
import ReliableAgents.Orchestrator.Transactions

/-!
# When a toggle takes effect

Each orchestrator reads the flags through a cache of its own, while clients change the
table. A classification therefore routes each row by flags of which every one is from
another moment; but what has been in the table for `CACHE_SECONDS` is all that any of
them still sees.
-/

namespace ReliableAgents

open Machine Relational

/-- One call of `flags()`: the monotonic clock it reads, and when it queries if it does. -/
structure FlagCall where
  now : Time
  queried : Time
deriving DecidableEq, Repr

/-- `now` is read before the query, and is the stamp. -/
def FlagCall.timed (call : FlagCall) : TimedRead Time where
  now := call.now
  queried := call.queried
  stamped := call.now

/-- An orchestrator's cache, until when it has read, and the calls of `flags()` that its
classification is still to make. -/
structure FlagReader where
  cache : FlagCache := none
  last : Time := 0
  calls : List FlagCall := []
deriving DecidableEq

namespace FlagReader

/-- The next call of `flags()`, after everything read before. -/
def call (table : Time → RuntimeConfig) (r : FlagReader) : Option (RuntimeConfig × FlagReader) :=
  match r.calls with
  | [] => none
  | next :: rest =>
      if r.last ≤ next.now ∧ next.now ≤ next.queried then
        let answer := readFlags table false next.timed r.cache
        some (answer.1, { cache := answer.2, last := next.queried, calls := rest })
      else none

/-- The branches of `route_one`, with a call of `flags()` wherever it reads a flag.
`force_tier()` is called again for the text of the reason, which may by then say `None`. -/
def decision (str : Json → String) (ladder : Ladder) (table : Time → RuntimeConfig)
    (task : TaskInstance) (evidence : List Attempt) (r : FlagReader) :
    Option (Decision × FlagReader) :=
  let fc := task.failureClass.getD .infra
  let spent := budgets task.tier evidence
  if fc = .poison then some (.dlq "poison -- no tier can fix this", r)
  else if task.attempt ≥ maxTotalAttempts then
    some (.dlq ("handed to a worker " ++ toString task.attempt ++ "x without completing"), r)
  else
    match r.call table with
    | none => none
    | some (flags, r) =>
        if !retriesEnabled flags then some (.dlq "retries disabled", r)
        else if fc = .infra then
          if spent.infra ≥ maxInfraAttempts then
            some (.dlq ("infra failed " ++ toString spent.infra ++ "x"), r)
          else some (.retry, r)
        else if (spent.capability : Int) < task.maxAttemptsPerTier then some (.retry, r)
        else
          match r.call table with
          | none => none
          | some (flags, r) =>
              if !escalationEnabled flags then
                some (.dlq "escalation disabled -- would have promoted", r)
              else
                match r.call table with
                | none => none
                | some (flags, r) =>
                    match forceTier str flags with
                    | some _ =>
                        match r.call table with
                        | none => none
                        | some (flags, r) =>
                            let pinned := (forceTier str flags).getD "None"
                            some (.dlq ("tier pinned to " ++ pinned ++ " -- cannot escalate"), r)
                    | none =>
                        match ladder.nextTier task.tier with
                        | none =>
                            some (.dlq ("capability exhausted at top tier " ++ task.tier), r)
                        | some tier => some (.promote tier, r)

/-- `classify` on the captured rows: `none` for the database when a statement raises. -/
def classifyRows (str : Json → String) (ladder : Ladder) (table : Time → RuntimeConfig)
    (now : Time) : List TaskInstance → Db → FlagReader → Option (Option Db × FlagReader)
  | [], db, r => some (some db, r)
  | task :: rest, db, r =>
      match r.decision str ladder table task (db.evidence task.id) with
      | none => none
      | some (d, r) =>
          match d.perform now task db with
          | none => some (none, r)
          | some routed => classifyRows str ladder table now rest routed.2 r

end FlagReader

/-- The system, with what each orchestrator has cached. -/
structure Flagged where
  sys : Sys
  readers : Nat → FlagReader

inductive FlaggedAction where
  /-- Anything but a classification. -/
  | act (a : Action)
  | classify (o limit : Nat) (calls : List FlagCall) (now : Time) (locked : Uuid → Bool)
  /-- Another process takes the orchestrator's place, with an empty cache. -/
  | restart (o : Nat)

def FlaggedAction.calls : FlaggedAction → List FlagCall
  | .classify _ _ calls _ _ => calls
  | _ => []

namespace Flagged

def init : Flagged where
  sys := .init
  readers := fun _ => {}

def setReader (s : Flagged) (o : Nat) (r : FlagReader) : Nat → FlagReader :=
  Function.update s.readers o { r with calls := [] }

def step (cfg : Config) (str : Json → String) (table : Time → RuntimeConfig) (s : Flagged) :
    FlaggedAction → Option Flagged
  | .act a =>
      if a.classifies then none
      else (ReliableAgents.step cfg s.sys a).map fun sys => { s with sys := sys }
  | .classify o limit calls now locked =>
      (FlagReader.classifyRows str cfg.ladder table now (takeFailed limit locked s.sys.db) s.sys.db
        { s.readers o with calls := calls }).map fun answer =>
          { sys := s.sys.setDb (answer.1.getD s.sys.db)
            readers := s.setReader o answer.2 }
  | .restart o => some { s with readers := s.setReader o { s.readers o with cache := none } }

end Flagged

abbrev FlaggedTransition := Machine.Transition Flagged FlaggedAction

/-- The same transition of the system when the rows are routed by the flags `seen`; the
caches are not part of it. -/
def plain (seen : Uuid → Flags) (c : FlaggedTransition) : List SysTransition :=
  match c.action with
  | .act a => [⟨c.before.sys, a, c.after.sys⟩]
  | .classify _ limit _ now locked =>
      [⟨c.before.sys, .classify limit seen now locked, c.after.sys⟩]
  | .restart _ => []

/-! ## One reader -/

namespace FlagReader

variable {str : Json → String} {ladder : Ladder} {table : Time → RuntimeConfig}
  {r r' : FlagReader} {flags : RuntimeConfig} {task : TaskInstance} {evidence : List Attempt}
  {d : Decision} {f : Flags} {a b : Time}

/-- The cache is what the table held at some time since its stamp. -/
def Holds (table : Time → RuntimeConfig) (r : FlagReader) : Prop :=
  HeldAt (fun t => mergedFlags (table t)) 0 r.last r.cache

/-- Every call of the reader falls into a window that began a lifetime ago. -/
def Within (a b : Time) (r : FlagReader) : Prop :=
  ∀ c ∈ r.calls, a + cacheSeconds ≤ c.now ∧ c.queried ≤ b

/-- Throughout the window the table says `f`. -/
def Settled (str : Json → String) (table : Time → RuntimeConfig) (f : Flags) (a b : Time) : Prop :=
  ∀ t, a ≤ t → t ≤ b → routingFlags str (mergedFlags (table t)) = f

structure Reads (table : Time → RuntimeConfig) (r r' : FlagReader) : Prop where
  holds : r.Holds table → r'.Holds table
  calls : r'.calls ⊆ r.calls

theorem Reads.refl (r : FlagReader) : Reads table r r := ⟨id, List.Subset.refl _⟩

theorem Reads.trans {r'' : FlagReader} (h : Reads table r r') (h' : Reads table r' r'') :
    Reads table r r'' :=
  ⟨fun hr => h'.holds (h.holds hr), List.Subset.trans h'.calls h.calls⟩

theorem Reads.within (h : Reads table r r') (hr : r.Within a b) : r'.Within a b :=
  fun c hc => hr c (h.calls hc)

theorem call_spec (str : Json → String) (f : Flags) (a b : Time)
    (h : r.call table = some (flags, r')) :
    Reads table r r' ∧ (r.Holds table → Settled str table f a b → r.Within a b →
      routingFlags str flags = f) := by
  unfold call at h
  split at h
  · cases h
  rename_i next rest hcalls
  split at h
  · rename_i horder
    cases h
    have hin : next.timed.InOrder 0 r.last :=
      ⟨horder.1, horder.2, (sub_zero _).trans_le horder.2⟩
    refine ⟨⟨fun hr => HeldAt.readThrough hr hin, ?_⟩, fun hr hsettled hwithin => ?_⟩
    · rw [hcalls]
      exact List.subset_cons_self _ _
    · obtain ⟨hlate, hearly⟩ := hwithin next (hcalls ▸ List.mem_cons_self)
      exact HeldAt.settled hr hin (by decide) le_rfl hsettled (by rwa [add_zero]) hearly
  · cases h

/-- A decision does nothing to its reader but call `flags()`. -/
theorem decision_keeps {I : FlagReader → Prop}
    (hcall : ∀ {u u' : FlagReader} {flags : RuntimeConfig}, I u → u.call table = some (flags, u') →
      I u')
    (hr : I r) (h : r.decision str ladder table task evidence = some (d, r')) : I r' := by
  unfold FlagReader.decision at h
  dsimp only at h
  split at h
  · cases h
    exact hr
  split at h
  · cases h
    exact hr
  split at h
  · cases h
  rename_i hcall₁
  have hr₁ := hcall hr hcall₁
  split at h
  · cases h
    exact hr₁
  split at h
  · split at h <;> cases h <;> exact hr₁
  split at h
  · cases h
    exact hr₁
  split at h
  · cases h
  rename_i hcall₂
  have hr₂ := hcall hr₁ hcall₂
  split at h
  · cases h
    exact hr₂
  split at h
  · cases h
  rename_i hcall₃
  have hr₃ := hcall hr₂ hcall₃
  split at h
  · split at h
    · cases h
    rename_i hcall₄
    cases h
    exact hcall hr₃ hcall₄
  · split at h <;> cases h <;> exact hr₃

/-- Whatever moments the flags are from, the decision is that of some flags; and of `f`,
when the table has said `f` for long enough. -/
theorem decision_spec (h : r.decision str ladder table task evidence = some (d, r')) :
    Reads table r r' ∧ (∃ seen, d = ReliableAgents.decision ladder seen task evidence) ∧
      (r.Holds table → Settled str table f a b → r.Within a b →
        d = ReliableAgents.decision ladder f task evidence) := by
  refine ⟨decision_keeps (I := Reads table r)
    (fun hu hcall => hu.trans (call_spec str f a b hcall).1) (.refl r) h, ?_⟩
  unfold FlagReader.decision at h
  dsimp only at h
  by_cases hpoison : task.failureClass.getD .infra = .poison
  · rw [if_pos hpoison] at h
    cases h
    exact ⟨⟨f, by simp [ReliableAgents.decision, hpoison]⟩,
      fun _ _ _ => by simp [ReliableAgents.decision, hpoison]⟩
  rw [if_neg hpoison] at h
  by_cases hguard : task.attempt ≥ maxTotalAttempts
  · rw [if_pos hguard] at h
    cases h
    exact ⟨⟨f, by simp [ReliableAgents.decision, hpoison, hguard]⟩,
      fun _ _ _ => by simp [ReliableAgents.decision, hpoison, hguard]⟩
  rw [if_neg hguard] at h
  split at h
  · cases h
  rename_i flags₁ r₁ hcall₁
  obtain ⟨hreads₁, hsettled₁⟩ := call_spec str f a b hcall₁
  by_cases hretries : retriesEnabled flags₁ = false
  · rw [hretries, Bool.not_false, if_pos rfl] at h
    cases h
    refine ⟨⟨⟨false, true, none⟩, by simp [ReliableAgents.decision, hpoison, hguard]⟩,
      fun hr hs hw => ?_⟩
    have hoff : f.retriesEnabled = false := hsettled₁ hr hs hw ▸ hretries
    simp [ReliableAgents.decision, hpoison, hguard, hoff]
  rw [Bool.not_eq_false] at hretries
  rw [hretries, Bool.not_true, if_neg Bool.false_ne_true] at h
  have hon : r.Holds table → Settled str table f a b → r.Within a b → f.retriesEnabled = true :=
    fun hr hs hw => hsettled₁ hr hs hw ▸ hretries
  by_cases hinfra : task.failureClass.getD .infra = .infra
  · rw [if_pos hinfra] at h
    split at h
    · rename_i hspent
      cases h
      exact ⟨⟨{}, by simp [ReliableAgents.decision, hguard, hinfra, hspent]⟩,
        fun hr hs hw => by
          simp [ReliableAgents.decision, hguard, hinfra, hspent, hon hr hs hw]⟩
    · rename_i hspent
      cases h
      exact ⟨⟨{}, by simp [ReliableAgents.decision, hguard, hinfra, hspent]⟩,
        fun hr hs hw => by
          simp [ReliableAgents.decision, hguard, hinfra, hspent, hon hr hs hw]⟩
  rw [if_neg hinfra] at h
  split at h
  · rename_i hleft
    cases h
    exact ⟨⟨{}, by simp [ReliableAgents.decision, hpoison, hguard, hinfra, hleft]⟩,
      fun hr hs hw => by
        simp [ReliableAgents.decision, hpoison, hguard, hinfra, hleft, hon hr hs hw]⟩
  rename_i hleft
  split at h
  · cases h
  rename_i flags₂ r₂ hcall₂
  obtain ⟨hreads₂, hsettled₂⟩ := call_spec str f a b hcall₂
  have hsees₂ : r.Holds table → Settled str table f a b → r.Within a b →
      routingFlags str flags₂ = f :=
    fun hr hs hw => hsettled₂ (hreads₁.holds hr) hs (hreads₁.within hw)
  by_cases hescalation : escalationEnabled flags₂ = false
  · rw [hescalation, Bool.not_false, if_pos rfl] at h
    cases h
    refine ⟨⟨⟨true, false, none⟩, by
      simp [ReliableAgents.decision, hpoison, hguard, hinfra, hleft]⟩, fun hr hs hw => ?_⟩
    have hoff : f.escalationEnabled = false := hsees₂ hr hs hw ▸ hescalation
    simp [ReliableAgents.decision, hpoison, hguard, hinfra, hleft, hon hr hs hw, hoff]
  rw [Bool.not_eq_false] at hescalation
  rw [hescalation, Bool.not_true, if_neg Bool.false_ne_true] at h
  have hup : r.Holds table → Settled str table f a b → r.Within a b →
      f.escalationEnabled = true :=
    fun hr hs hw => hsees₂ hr hs hw ▸ hescalation
  split at h
  · cases h
  rename_i flags₃ r₃ hcall₃
  obtain ⟨hreads₃, hsettled₃⟩ := call_spec str f a b hcall₃
  have hreads : Reads table r r₃ := (hreads₁.trans hreads₂).trans hreads₃
  have hsees₃ : r.Holds table → Settled str table f a b → r.Within a b →
      routingFlags str flags₃ = f :=
    fun hr hs hw => hsettled₃ ((hreads₁.trans hreads₂).holds hr) hs
      ((hreads₁.trans hreads₂).within hw)
  cases hpinned : forceTier str flags₃ with
  | some pinned =>
      simp only [hpinned] at h
      split at h
      · cases h
      rename_i flags₄ r₄ hcall₄
      have hsettled₄ := (call_spec str f a b hcall₄).2
      cases h
      refine ⟨⟨⟨true, true, some ((forceTier str flags₄).getD "None")⟩, by
        simp [ReliableAgents.decision, hpoison, hguard, hinfra, hleft]⟩, fun hr hs hw => ?_⟩
      have hthird : f.forceTier = some pinned := hsees₃ hr hs hw ▸ hpinned
      have hfourth : forceTier str flags₄ = some pinned := by
        rw [← hthird, ← hsettled₄ (hreads.holds hr) hs (hreads.within hw)]
        rfl
      simp [ReliableAgents.decision, hpoison, hguard, hinfra, hleft, hon hr hs hw, hup hr hs hw,
        hthird, hfourth]
  | none =>
      simp only [hpinned] at h
      have hfree : r.Holds table → Settled str table f a b → r.Within a b → f.forceTier = none :=
        fun hr hs hw => hsees₃ hr hs hw ▸ hpinned
      cases hnext : ladder.nextTier task.tier with
      | none =>
          simp only [hnext] at h
          cases h
          exact ⟨⟨{}, by
            simp [ReliableAgents.decision, hpoison, hguard, hinfra, hleft, hnext]⟩,
            fun hr hs hw => by
              simp [ReliableAgents.decision, hpoison, hguard, hinfra, hleft, hnext, hon hr hs hw,
                hup hr hs hw, hfree hr hs hw]⟩
      | some tier =>
          simp only [hnext] at h
          cases h
          exact ⟨⟨{}, by
            simp [ReliableAgents.decision, hpoison, hguard, hinfra, hleft, hnext]⟩,
            fun hr hs hw => by
              simp [ReliableAgents.decision, hpoison, hguard, hinfra, hleft, hnext, hon hr hs hw,
                hup hr hs hw, hfree hr hs hw]⟩

/-- A classification is the classification by the flags its rows were routed by; and by `f`
alone, when the table has said `f` for long enough. -/
theorem classifyRows_spec {now : Time} {rows : List TaskInstance} {db : Db} {db? : Option Db}
    (hnodup : (rows.map TaskInstance.id).Nodup)
    (h : classifyRows str ladder table now rows db r = some (db?, r')) :
    Reads table r r' ∧
      (∃ seen : Uuid → Flags, ∀ flags : Uuid → Flags, (∀ t ∈ rows, flags t.id = seen t.id) →
        db? = rows.foldlM
          (fun db task => (routeOne ladder (flags task.id) now task db).map Prod.snd) db) ∧
      (r.Holds table → Settled str table f a b → r.Within a b →
        db? = rows.foldlM (fun db task => (routeOne ladder f now task db).map Prod.snd) db) := by
  induction rows generalizing db r with
  | nil =>
      cases h
      exact ⟨.refl _, ⟨fun _ => f, fun _ _ => rfl⟩, fun _ _ _ => rfl⟩
  | cons task rest ih =>
      simp only [List.map_cons, List.nodup_cons] at hnodup
      simp only [classifyRows] at h
      split at h
      · cases h
      rename_i d r₁ hdecision
      obtain ⟨hreads, ⟨fl, hfl⟩, hsettled⟩ :=
        decision_spec (f := f) (a := a) (b := b) hdecision
      -- the first row is routed by the decision, and the others by what the rest reads
      have hone : ∀ g : Flags, d = ReliableAgents.decision ladder g task (db.evidence task.id) →
          routeOne ladder g now task db = d.perform now task db := by
        rintro g rfl
        exact routeOne_eq_perform ladder g now task db
      split at h
      · rename_i hraises
        cases h
        refine ⟨hreads, ⟨fun _ => fl, fun flags hflags => ?_⟩, fun hr hs hw => ?_⟩
        · rw [List.foldlM_cons, hflags task List.mem_cons_self, hone fl hfl, hraises]
          rfl
        · rw [List.foldlM_cons, hone f (hsettled hr hs hw), hraises]
          rfl
      · rename_i routed hperform
        obtain ⟨hmore, ⟨seen, hseen⟩, hrest⟩ := ih hnodup.2 h
        refine ⟨hreads.trans hmore, ⟨Function.update seen task.id fl, fun flags hflags => ?_⟩,
          fun hr hs hw => ?_⟩
        · have hfirst : flags task.id = fl := by
            rw [hflags task List.mem_cons_self, Function.update_self]
          rw [List.foldlM_cons, hfirst, hone fl hfl, hperform]
          refine hseen flags fun t ht => ?_
          rw [hflags t (List.mem_cons_of_mem _ ht), Function.update_of_ne]
          rintro heq
          exact hnodup.1 (heq ▸ List.mem_map_of_mem ht)
        · rw [List.foldlM_cons, hone f (hsettled hr hs hw), hperform]
          exact hrest (hreads.holds hr) hs (hreads.within hw)

end FlagReader

/-! ## Runs -/

namespace Flagged

variable {cfg : Config} {str : Json → String} {table : Time → RuntimeConfig} {s s' : Flagged}
  {ts us : List FlaggedTransition} {f : Flags} {a b : Time} {act : FlaggedAction}

/-- Every cache is what the table held since its stamp. -/
def Holds (table : Time → RuntimeConfig) (s : Flagged) : Prop := ∀ o, (s.readers o).Holds table

theorem Holds.setReader (h : s.Holds table) {o : Nat} {r : FlagReader} (hr : r.Holds table) :
    ∀ p, (s.setReader o r p).Holds table := by
  intro p
  unfold Flagged.setReader
  by_cases hp : p = o
  · rw [hp, Function.update_self]
    exact hr
  · rw [Function.update_of_ne hp]
    exact h p

theorem step_holds (h : Flagged.step cfg str table s act = some s') (hs : s.Holds table) :
    s'.Holds table := by
  cases act with
  | act a =>
      simp only [step] at h
      split at h
      · cases h
      · obtain ⟨sys, -, rfl⟩ := Option.map_eq_some_iff.1 h
        exact hs
  | classify o limit calls now locked =>
      obtain ⟨⟨db?, r⟩, hrows, rfl⟩ := Option.map_eq_some_iff.1 h
      have hspec := FlagReader.classifyRows_spec (f := {}) (a := 0) (b := 0)
        (orderedBatch_map_nodup _ _ _ (Table.select_map_nodup _ _)) hrows
      exact hs.setReader (hspec.1.holds (hs o))
  | restart o =>
      cases h
      exact hs.setReader heldAt_none

theorem run_holds (h : Machine.Run (Flagged.step cfg str table) .init ts s) : s.Holds table :=
  h.invariant (fun _ => heldAt_none) fun _ _ _ hs hstep => step_holds hstep hs

/-- Whatever the caches hold, a step is one of the system. -/
theorem step_plain (h : Flagged.step cfg str table s act = some s') :
    ∃ seen, Machine.Run (ReliableAgents.step cfg) s.sys (plain seen ⟨s, act, s'⟩) s'.sys := by
  cases act with
  | act a =>
      simp only [step] at h
      split at h
      · cases h
      · obtain ⟨sys, hsys, rfl⟩ := Option.map_eq_some_iff.1 h
        exact ⟨fun _ => {}, Machine.Run.nil.snoc hsys⟩
  | classify o limit calls now locked =>
      obtain ⟨⟨db?, r⟩, hrows, rfl⟩ := Option.map_eq_some_iff.1 h
      obtain ⟨-, ⟨seen, hseen⟩, -⟩ := FlagReader.classifyRows_spec (f := {}) (a := 0) (b := 0)
        (orderedBatch_map_nodup _ _ _ (Table.select_map_nodup _ _)) hrows
      refine ⟨seen, Machine.Run.nil.snoc ?_⟩
      rw [hseen seen fun _ _ => rfl]
      rfl
  | restart o =>
      cases h
      exact ⟨fun _ => {}, .nil⟩

theorem run_plain (h : Machine.Run (Flagged.step cfg str table) .init ts s) :
    ∃ seen : FlaggedTransition → Uuid → Flags,
      SysRun cfg (ts.flatMap fun c => plain (seen c) c) s.sys := by
  have hplain : ∀ c : FlaggedTransition, ∃ seen,
      Flagged.step cfg str table c.before c.action = some c.after →
        Machine.Run (ReliableAgents.step cfg) c.before.sys (plain seen c) c.after.sys := by
    intro c
    by_cases hstep : Flagged.step cfg str table c.before c.action = some c.after
    · obtain ⟨seen, hrun⟩ := step_plain hstep
      exact ⟨seen, fun _ => hrun⟩
    · exact ⟨fun _ => {}, fun h => absurd h hstep⟩
  choose seen hseen using hplain
  refine ⟨seen, ?_⟩
  induction h with
  | nil => exact .nil
  | @snoc past u u' act _ hstep ih =>
      rw [List.flatMap_append, List.flatMap_singleton]
      exact ih.append (hseen ⟨u, act, u'⟩ hstep)

/-- In a window that began a lifetime ago, every step is the plain one. -/
theorem step_settled (h : Flagged.step cfg str table s act = some s') (hs : s.Holds table)
    (hsettled : FlagReader.Settled str table f a b)
    (hcalls : ∀ c ∈ act.calls, a + cacheSeconds ≤ c.now ∧ c.queried ≤ b) :
    Machine.Run (ReliableAgents.step cfg) s.sys (plain (fun _ => f) ⟨s, act, s'⟩) s'.sys := by
  cases act with
  | act a =>
      simp only [step] at h
      split at h
      · cases h
      · obtain ⟨sys, hsys, rfl⟩ := Option.map_eq_some_iff.1 h
        exact Machine.Run.nil.snoc hsys
  | classify o limit calls now locked =>
      obtain ⟨⟨db?, r⟩, hrows, rfl⟩ := Option.map_eq_some_iff.1 h
      obtain ⟨-, -, hflags⟩ := FlagReader.classifyRows_spec (f := f) (a := a) (b := b)
        (orderedBatch_map_nodup _ _ _ (Table.select_map_nodup _ _)) hrows
      refine Machine.Run.nil.snoc ?_
      rw [hflags (hs o) hsettled hcalls]
      rfl
  | restart o =>
      cases h
      exact .nil

theorem run_settled (h : Machine.Run (Flagged.step cfg str table) s us s') (hs : s.Holds table)
    (hsettled : FlagReader.Settled str table f a b)
    (hcalls : ∀ c ∈ us, ∀ call ∈ c.action.calls, a + cacheSeconds ≤ call.now ∧ call.queried ≤ b) :
    s'.Holds table ∧
      Machine.Run (ReliableAgents.step cfg) s.sys (us.flatMap (plain fun _ => f)) s'.sys := by
  induction h with
  | nil => exact ⟨hs, .nil⟩
  | @snoc past u u' act _ hstep ih =>
      obtain ⟨hu, hrun⟩ := ih fun c hc => hcalls c (List.mem_append_left _ hc)
      have hlast := hcalls ⟨u, act, u'⟩ (List.mem_append_right _ List.mem_cons_self)
      refine ⟨step_holds hstep hu, ?_⟩
      rw [List.flatMap_append, List.flatMap_singleton]
      exact hrun.append (step_settled hstep hu hsettled hlast)

end Flagged

/-! ## What the flags switch off -/

def flaggedBy (f : Flags) : Rules :=
  { Rules.free with route := fun flags _ => flags = f }

section Controls

variable {ladder : Ladder} {f : Flags} {v v' : TaskView}

theorem verdict_ne_promote {fc : FailureClass} {task : TaskInstance} {spent : Budgets}
    (hoff : f.retriesEnabled = false ∨ f.escalationEnabled = false ∨ f.forceTier ≠ none)
    (tier : TierName) : verdict ladder f fc task spent ≠ .promote tier := by
  unfold verdict
  split
  · simp
  rename_i hretries
  split
  · split <;> simp
  split
  · simp
  split
  · simp
  rename_i hescalation
  rcases hoff with hoff | hoff | hoff
  · exact absurd (Or.inr (Or.inr hoff)) hretries
  · exact absurd (Or.inl hoff) hescalation
  · exact absurd (Or.inr hoff) hescalation

theorem verdict_of_noRetries {fc : FailureClass} {task : TaskInstance} {spent : Budgets}
    (hoff : f.retriesEnabled = false) : verdict ladder f fc task spent = .deadLetter :=
  if_pos (Or.inr (Or.inr hoff))

/-- With no way up, a row keeps its tier whatever happens to it. -/
theorem TaskPath.tier_of_noPromotion
    (hoff : f.retriesEnabled = false ∨ f.escalationEnabled = false ∨ f.forceTier ≠ none)
    (h : TaskPath ladder (flaggedBy f) v v') : v'.row.tier = v.row.tier := by
  refine Machine.closure_invariant (I := fun w => w.row.tier = v.row.tier) ?_ rfl h
  intro w w' hw hs
  cases hs with
  | row hrow =>
      cases hrow with
      | promote flags tier now _ hroute hverdict =>
          cases hroute
          exact absurd hverdict (verdict_ne_promote hoff tier)
      | renew | report | reclaim | retry => exact hw
  | claim | commit | kill | cancel => exact hw

/-- Without retries a failed row is dead-lettered, or still waits for that. -/
theorem TaskPath.failed_of_noRetries (hoff : f.retriesEnabled = false)
    (h : TaskPath ladder (flaggedBy f) v v') (hfailed : v.row.status = .failed) :
    v'.row.status = .failed ∨ v'.row.status = .dead := by
  refine Machine.closure_invariant (I := fun w => w.row.status = .failed ∨ w.row.status = .dead)
    ?_ (Or.inl hfailed) h
  intro w w' hw hs
  cases hs with
  | row hrow =>
      cases hrow with
      | renew _ _ hstatus | report _ _ _ _ _ hstatus | reclaim _ _ hstatus =>
          rcases hw with hw | hw <;> rw [hstatus] at hw <;> cases hw
      | retry flags backoff now _ hroute hverdict =>
          cases hroute
          rw [TaskView.verdict, verdict_of_noRetries hoff] at hverdict
          cases hverdict
      | promote flags tier now _ hroute hverdict =>
          cases hroute
          exact absurd hverdict (verdict_ne_promote (Or.inl hoff) tier)
  | claim _ _ _ hstatus | commit _ _ _ _ _ _ _ _ hstatus | cancel _ _ hstatus =>
      rcases hw with hw | hw <;> rw [hstatus] at hw <;> cases hw
  | kill => exact Or.inr rfl

end Controls

theorem plain_flaggedBy {cfg : Config} {str : Json → String} {table : Time → RuntimeConfig}
    {s s' : Flagged} {us : List FlaggedTransition} {f : Flags}
    (h : Machine.Run (Flagged.step cfg str table) s us s') :
    (flaggedBy f).HoldAlong cfg (us.flatMap (plain fun _ => f)) := by
  intro c hc
  obtain ⟨d, hd, hplain⟩ := List.mem_flatMap.1 hc
  refine ⟨?_, ?_, ?_, ?_, ?_⟩
  · intros
    trivial
  · intros
    trivial
  · intros
    trivial
  · intros
    trivial
  · intro limit flags now locked t hclassify _
    have hstep := h.step_of_mem hd
    unfold plain at hplain
    split at hplain
    · rename_i a haction
      simp only [List.mem_singleton] at hplain
      subst hplain
      simp only at hclassify
      subst hclassify
      rw [haction] at hstep
      simp [Flagged.step, Action.classifies] at hstep
    · simp only [List.mem_singleton] at hplain
      subst hplain
      cases hclassify
      rfl
    · cases hplain

theorem toggle_takes_effect {cfg : Config} {str : Json → String} {table : Time → RuntimeConfig}
    {s s' : Flagged} {ts us : List FlaggedTransition} {f : Flags} {a b : Time}
    (h : Machine.Run (Flagged.step cfg str table) .init ts s)
    (hsettled : FlagReader.Settled str table f a b)
    (h' : Machine.Run (Flagged.step cfg str table) s us s')
    (hcalls : ∀ c ∈ us, ∀ call ∈ c.action.calls, a + cacheSeconds ≤ call.now ∧ call.queried ≤ b) :
    (∃ seen : FlaggedTransition → Uuid → Flags,
        SysRun cfg (ts.flatMap fun c => plain (seen c) c) s.sys) ∧
      Machine.Run (step cfg) s.sys (us.flatMap (plain fun _ => f)) s'.sys ∧
      ∀ k t, s.sys.db.task k = some t → ∃ t', s'.sys.db.task k = some t' ∧
        (f.retriesEnabled = false ∨ f.escalationEnabled = false ∨ f.forceTier ≠ none →
          t'.tier = t.tier) ∧
        (f.retriesEnabled = false → t.status = .failed →
          t'.status = .failed ∨ t'.status = .dead) := by
  obtain ⟨seen, hseen⟩ := Flagged.run_plain h
  have hrun := (Flagged.run_settled h' (Flagged.run_holds h) hsettled hcalls).2
  refine ⟨⟨seen, hseen⟩, hrun, fun k t ht => ?_⟩
  have hsound : s.sys.Sound := SysRun.sound hseen
  obtain ⟨-, hmoves⟩ := run_moves hrun hsound (plain_flaggedBy h')
  obtain ⟨t', ht', hpath⟩ := hmoves.task hsound.db ht
  exact ⟨t', ht', fun hoff => TaskPath.tier_of_noPromotion hoff hpath,
    fun hoff => TaskPath.failed_of_noRetries hoff hpath⟩

def switchedOff : Time → RuntimeConfig :=
  configHistory oneHost.ladder schemaConfig
    [{ committedAt := seconds 5
       body := { escalationEnabled := some (some false) } }]

def failedAttempt (now : Time) : List FlaggedAction :=
  (handout 0 now (.raised tooHard) ++ [Action.report 0 (now + seconds 1)]).map .act

def beforeSwitch : List FlaggedAction :=
  .act (submitPlan [20]) :: failedAttempt 0 ++
    .classify 0 50 [⟨seconds 1, seconds 1⟩] (seconds 1) unlocked :: failedAttempt (seconds 10)

def afterSwitch : List FlaggedAction :=
  [.classify 0 50 [⟨seconds 11, seconds 11⟩, ⟨seconds 12, seconds 12⟩] (seconds 11) unlocked]

def flaggedRan (s : Flagged) (actions : List FlaggedAction) : List FlaggedTransition × Flagged :=
  Machine.performed (Flagged.step oneHost (fun _ => "") switchedOff) s actions

theorem toggle_takes_effect_switchedOff :
    ∃ t, (flaggedRan (flaggedRan .init beforeSwitch).2 afterSwitch).2.sys.db.task
        (rowId firstAgent 0) = some t ∧ t.status = .dead ∧ t.tier = "junior" := by
  have hsettled : FlagReader.Settled (fun _ => "") switchedOff ⟨true, false, none⟩ (seconds 5)
      (seconds 100) := by
    intro t hafter _
    rw [switchedOff, configHistory_eq_of_none hafter fun q hq => Or.inl (by
      rw [List.mem_singleton.1 hq])]
    decide +kernel
  have hfailed : ((flaggedRan .init beforeSwitch).2.sys.db.task (rowId firstAgent 0)).map
      (fun t => (t.status, t.tier)) = some (.failed, "junior") := by
    decide +kernel
  have hdead : ((flaggedRan (flaggedRan .init beforeSwitch).2 afterSwitch).2.sys.db.task
      (rowId firstAgent 0)).map TaskInstance.status = some .dead := by
    decide +kernel
  obtain ⟨t, ht, hstatus⟩ := Option.map_eq_some_iff.1 hfailed
  simp only [Prod.mk.injEq] at hstatus
  obtain ⟨-, -, hkept⟩ := toggle_takes_effect
    (Machine.run_performed _ Flagged.init beforeSwitch) hsettled
    (Machine.run_performed _ (flaggedRan .init beforeSwitch).2 afterSwitch) (by
      intro c hc call hcall
      have haction := Machine.action_mem_performed hc
      simp only [afterSwitch, List.mem_singleton] at haction
      rw [haction] at hcall
      simp only [FlaggedAction.calls, List.mem_cons, List.not_mem_nil, or_false] at hcall
      rcases hcall with rfl | rfl <;> decide)
  obtain ⟨t', ht', htier, -⟩ := hkept (rowId firstAgent 0) t ht
  change (flaggedRan (flaggedRan .init beforeSwitch).2 afterSwitch).2.sys.db.task
    (rowId firstAgent 0) = some t' at ht'
  rw [ht'] at hdead
  exact ⟨t', ht', Option.some.inj hdead, (htier (Or.inr (Or.inl rfl))).trans hstatus.2⟩

end ReliableAgents
