import Mathlib.Data.List.Nodup
import Mathlib.Logic.Relation

/-!
# Importing modules

A process that imports modules by name through a module cache: a body runs when its module
is first imported, with the module already in the cache, and a body that raises takes the
module out again. What a body does besides importing is left open.
-/

namespace Imports

inductive Statement (α : Type) where
  | importModule (name : String)
  | run (a : α)
deriving DecidableEq, Repr

structure Module (α : Type) where
  name : String
  body : List (Statement α)
deriving DecidableEq, Repr

/-- The module cache of a process, and the state its statements work on. -/
structure Interpreter (σ : Type) where
  loaded : List String := []
  state : σ
deriving DecidableEq, Repr

section Semantics

variable {α σ : Type}

def find (dir : List (Module α)) (name : String) : Option (Module α) :=
  dir.find? fun m => m.name = name

/-- One statement of the module `here`; `exec` raises with `none`. -/
def execute (exec : String → α → σ → Option σ)
    (importing : String → Interpreter σ → Interpreter σ × Bool) (here : String) :
    Statement α → Interpreter σ → Interpreter σ × Bool
  | .importModule name, s => importing name s
  | .run a, s =>
      match exec here a s.state with
      | some state => ({ s with state }, true)
      | none => (s, false)

/-- Statements in order, up to one that raises. -/
def runBody (step : Statement α → Interpreter σ → Interpreter σ × Bool) :
    List (Statement α) → Interpreter σ → Interpreter σ × Bool
  | [], s => (s, true)
  | stmt :: rest, s =>
      match step stmt s with
      | (s', true) => runBody step rest s'
      | (s', false) => (s', false)

/-- `import name`, and whether it succeeds; `depth` bounds the imports under way. -/
def importModule (dir : List (Module α)) (exec : String → α → σ → Option σ) :
    Nat → String → Interpreter σ → Interpreter σ × Bool
  | 0, _, s => (s, false)
  | depth + 1, name, s =>
      if name ∈ s.loaded then (s, true)
      else
        match find dir name with
        | none => (s, false)
        | some m =>
            match runBody (execute exec (importModule dir exec depth) m.name) m.body
                { s with loaded := name :: s.loaded } with
            | (s', true) => (s', true)
            | (s', false) => ({ s' with loaded := s'.loaded.erase name }, false)

/-- Imports each name, whether or not the ones before succeeded. -/
def importEach (importing : String → Interpreter σ → Interpreter σ × Bool) :
    List String → Interpreter σ → Interpreter σ
  | [], s => s
  | name :: rest, s => importEach importing rest (importing name s).1

end Semantics

/-! ## What was run -/

section Extension

variable {α σ : Type} {dir : List (Module α)} {exec : String → α → σ → Option σ}
  {roots : List String} {here : String} {s s₁ s₂ : Interpreter σ}

def bodyOf (dir : List (Module α)) (name : String) : List (Statement α) :=
  ((find dir name).map Module.body).getD []

def Mentions (dir : List (Module α)) (n n' : String) : Prop :=
  .importModule n' ∈ bodyOf dir n

def Reaches (dir : List (Module α)) (roots : List String) (n : String) : Prop :=
  ∃ root ∈ roots, Relation.ReflTransGen (Mentions dir) root n

theorem reaches_mentions {n n' : String} (h : Reaches dir roots n) (hmentions : Mentions dir n n') :
    Reaches dir roots n' := by
  obtain ⟨root, hroot, hpath⟩ := h
  exact ⟨root, hroot, hpath.tail hmentions⟩

/-- From `s` to `s'` a process ran some statements of the module `here`, and the bodies of
the modules it newly loaded, each once. -/
structure Extends (dir : List (Module α)) (exec : String → α → σ → Option σ)
    (roots : List String) (here : String) (body : List (Statement α)) (s s' : Interpreter σ) :
    Prop where
  loaded : ∀ n ∈ s.loaded, n ∈ s'.loaded
  ran : ∃ trace : List (String × α),
    trace.foldlM (fun state e => exec e.1 e.2 state) s.state = some s'.state ∧
      ∀ n a, (n, a) ∈ trace ↔
        (n = here ∧ .run a ∈ body) ∨ (n ∈ s'.loaded ∧ n ∉ s.loaded ∧ .run a ∈ bodyOf dir n)
  imported : ∀ n, .importModule n ∈ body → n ∈ s'.loaded
  closed : ∀ n ∈ s'.loaded, n ∈ s.loaded ∨ ∀ n', Mentions dir n n' → n' ∈ s'.loaded
  reached : ∀ n ∈ s'.loaded, n ∈ s.loaded ∨ Reaches dir roots n

theorem Extends.refl : Extends dir exec roots here [] s s where
  loaded := fun _ hn => hn
  ran := ⟨[], rfl, fun n a => by
    by_cases hn : n ∈ s.loaded <;> simp [hn]⟩
  imported := by simp
  closed := fun _ hn => .inl hn
  reached := fun _ hn => .inl hn

theorem Extends.trans {body₁ body₂ : List (Statement α)}
    (h₁ : Extends dir exec roots here body₁ s s₁)
    (h₂ : Extends dir exec roots here body₂ s₁ s₂) :
    Extends dir exec roots here (body₁ ++ body₂) s s₂ where
  loaded := fun n hn => h₂.loaded n (h₁.loaded n hn)
  ran := by
    obtain ⟨trace₁, hfold₁, hmem₁⟩ := h₁.ran
    obtain ⟨trace₂, hfold₂, hmem₂⟩ := h₂.ran
    refine ⟨trace₁ ++ trace₂, ?_, fun n a => ?_⟩
    · rw [List.foldlM_append, hfold₁]
      exact hfold₂
    · have hmono₁ := h₁.loaded n
      have hmono₂ := h₂.loaded n
      rw [List.mem_append, hmem₁, hmem₂, List.mem_append]
      by_cases hn : n ∈ s₁.loaded
      · have hn₂ := hmono₂ hn
        tauto
      · have hn₁ : n ∉ s.loaded := fun h => hn (hmono₁ h)
        tauto
  imported := fun n hn => by
    rcases List.mem_append.1 hn with hn | hn
    · exact h₂.loaded n (h₁.imported n hn)
    · exact h₂.imported n hn
  closed := fun n hn => by
    rcases h₂.closed n hn with hold | hclosed
    · rcases h₁.closed n hold with hold | hclosed
      · exact .inl hold
      · exact .inr fun n' hn' => h₂.loaded n' (hclosed n' hn')
    · exact .inr hclosed
  reached := fun n hn => by
    rcases h₂.reached n hn with hold | hreached
    · exact h₁.reached n hold
    · exact .inr hreached

theorem Extends.run {a : α} {state : σ} (h : exec here a s.state = some state) :
    Extends dir exec roots here [.run a] s { s with state } where
  loaded := fun _ hn => hn
  ran := ⟨[(here, a)], by simp [h], fun n b => by
    by_cases hn : n ∈ s.loaded <;> simp [hn]⟩
  imported := by simp
  closed := fun _ hn => .inl hn
  reached := fun _ hn => .inl hn

theorem Extends.importing {name : String} (h : Extends dir exec roots here [] s s₁)
    (hname : name ∈ s₁.loaded) : Extends dir exec roots here [.importModule name] s s₁ where
  loaded := h.loaded
  ran := by simpa using h.ran
  imported := fun n hn => by
    obtain rfl : n = name := by simpa using hn
    exact hname
  closed := h.closed
  reached := h.reached

theorem Extends.complete {name : String} (hname : name ∉ s.loaded)
    (hreaches : Reaches dir roots name)
    (h : Extends dir exec roots name (bodyOf dir name)
      { s with loaded := name :: s.loaded } s₁) :
    Extends dir exec roots here [] s s₁ ∧ name ∈ s₁.loaded := by
  have hloaded : name ∈ s₁.loaded := h.loaded name List.mem_cons_self
  refine ⟨⟨fun n hn => h.loaded n (List.mem_cons_of_mem _ hn), ?_, by simp, ?_, ?_⟩, hloaded⟩
  · obtain ⟨trace, hfold, hmem⟩ := h.ran
    refine ⟨trace, hfold, fun n a => ?_⟩
    rw [hmem, List.mem_cons]
    by_cases hn : n = name
    · subst hn
      simp [hloaded, hname]
    · simp [hn]
  · intro n hn
    rcases h.closed n hn with hold | hclosed
    · rcases List.mem_cons.1 hold with rfl | hold
      · exact .inr h.imported
      · exact .inl hold
    · exact .inr hclosed
  · intro n hn
    rcases h.reached n hn with hold | hreached
    · rcases List.mem_cons.1 hold with rfl | hold
      · exact .inr hreaches
      · exact .inl hold
    · exact .inr hreached

/-- A fresh process that has imported its roots has loaded what they reach. -/
theorem Extends.loaded_iff (h : Extends dir exec roots here [] s s₁) (hfresh : s.loaded = [])
    (hroots : ∀ name ∈ roots, name ∈ s₁.loaded) (n : String) :
    n ∈ s₁.loaded ↔ Reaches dir roots n := by
  have hnone : n ∉ s.loaded := by simp [hfresh]
  constructor
  · intro hn
    exact (h.reached n hn).resolve_left hnone
  · intro hreaches
    obtain ⟨root, hroot, hpath⟩ := hreaches
    clear hnone
    induction hpath with
    | refl => exact hroots root hroot
    | tail hprevious hmentions ih =>
        rcases h.closed _ ih with hold | hclosed
        · rw [hfresh] at hold
          cases hold
        · exact hclosed _ hmentions

theorem importModule_of_loaded {depth : Nat} {name : String} (h : name ∈ s.loaded) :
    importModule dir exec (depth + 1) name s = (s, true) := by
  rw [importModule, if_pos h]

end Extension

/-! ## When nothing raises -/

section Success

variable {α σ : Type} {dir : List (Module α)} {exec : String → α → σ → Option σ}
  {roots : List String} {here : String} {s s₁ : Interpreter σ} {I : σ → Prop}

/-- Every import of a module finds its file. -/
def Resolves (dir : List (Module α)) : Prop :=
  ∀ n n', Mentions dir n n' → (find dir n').isSome

/-- Under `I`, which they keep, no statement of a module raises. -/
def Safe (dir : List (Module α)) (exec : String → α → σ → Option σ) (I : σ → Prop) : Prop :=
  ∀ n a state, .run a ∈ bodyOf dir n → I state → ∃ state', exec n a state = some state' ∧ I state'

def unloaded (dir : List (Module α)) (s : Interpreter σ) : Nat :=
  dir.countP fun m => m.name ∉ s.loaded

theorem unloaded_le (h : ∀ n ∈ s.loaded, n ∈ s₁.loaded) : unloaded dir s₁ ≤ unloaded dir s := by
  refine List.countP_mono_left fun m _ hm => ?_
  rw [decide_eq_true_eq] at hm ⊢
  exact fun hold => hm (h m.name hold)

theorem name_of_find {name : String} {m : Module α} (h : find dir name = some m) :
    m.name = name := by
  have hname := List.find?_some h
  exact of_decide_eq_true hname

theorem find_isSome {name : String} (h : name ∈ dir.map Module.name) : (find dir name).isSome := by
  obtain ⟨m, hm, rfl⟩ := List.mem_map.1 h
  exact List.find?_isSome.2 ⟨m, hm, decide_eq_true rfl⟩

theorem find_of_mem (hnamed : (dir.map Module.name).Nodup) {m : Module α} (hm : m ∈ dir) :
    find dir m.name = some m := by
  obtain ⟨found, hfound⟩ := Option.isSome_iff_exists.1 (find_isSome (List.mem_map_of_mem hm))
  have hname := name_of_find hfound
  rw [hfound, List.inj_on_of_nodup_map hnamed (List.mem_of_find?_eq_some hfound) hm hname]

theorem unloaded_lt {name : String} {m : Module α} (hfind : find dir name = some m)
    (hname : name ∉ s.loaded) :
    unloaded dir { s with loaded := name :: s.loaded } < unloaded dir s := by
  have hm := List.mem_of_find?_eq_some hfind
  have hmname := name_of_find hfind
  obtain ⟨front, back, rfl⟩ := List.append_of_mem hm
  have hmono : ∀ part : List (Module α),
      unloaded part { s with loaded := name :: s.loaded } ≤ unloaded part s :=
    fun part => unloaded_le fun n hn => List.mem_cons_of_mem name hn
  have hfront := hmono front
  have hback := hmono back
  unfold unloaded at hfront hback ⊢
  rw [List.countP_append, List.countP_append, List.countP_cons, List.countP_cons]
  simp only [hmname, List.mem_cons, true_or, not_true_eq_false, decide_false, hname,
    not_false_eq_true, decide_true, if_true] at hfront hback ⊢
  simp only [Bool.false_eq_true, if_false]
  omega

theorem bodyOf_of_find {name : String} {m : Module α} (h : find dir name = some m) :
    bodyOf dir name = m.body := by
  rw [bodyOf, h]
  rfl

theorem mem_bodyOf {name : String} {stmt : Statement α} (h : stmt ∈ bodyOf dir name) :
    ∃ m ∈ dir, stmt ∈ m.body := by
  unfold bodyOf at h
  cases hfind : find dir name with
  | none =>
      rw [hfind] at h
      cases h
  | some m =>
      rw [hfind] at h
      exact ⟨m, List.mem_of_find?_eq_some hfind, h⟩

/-- What an import does as long as no statement raises. -/
def Imported (dir : List (Module α)) (exec : String → α → σ → Option σ) (I : σ → Prop)
    (roots : List String) (name : String) (s : Interpreter σ)
    (r : Interpreter σ × Bool) : Prop :=
  ∃ s', r = (s', true) ∧ I s'.state ∧ name ∈ s'.loaded ∧
    ∀ here, Extends dir exec roots here [] s s'

theorem runBody_extends {importing : String → Interpreter σ → Interpreter σ × Bool}
    (hsafe : Safe dir exec I) {bound : Nat}
    (himporting : ∀ name s, Mentions dir here name → I s.state → unloaded dir s < bound →
      Imported dir exec I roots name s (importing name s))
    (body : List (Statement α)) (hbody : ∀ stmt ∈ body, stmt ∈ bodyOf dir here)
    (s : Interpreter σ) (hI : I s.state) (hbound : unloaded dir s < bound) :
    ∃ s', runBody (execute exec importing here) body s = (s', true) ∧ I s'.state ∧
      Extends dir exec roots here body s s' := by
  induction body generalizing s with
  | nil => exact ⟨s, rfl, hI, .refl⟩
  | cons stmt rest ih =>
      have hrest : ∀ stmt ∈ rest, stmt ∈ bodyOf dir here :=
        fun stmt h => hbody stmt (List.mem_cons_of_mem _ h)
      have hstmt := hbody stmt List.mem_cons_self
      have hfirst : ∃ s₁, execute exec importing here stmt s = (s₁, true) ∧ I s₁.state ∧
          Extends dir exec roots here [stmt] s s₁ := by
        cases stmt with
        | importModule name =>
            obtain ⟨s₁, himport, hI₁, hname, hextends⟩ := himporting name s hstmt hI hbound
            exact ⟨s₁, himport, hI₁, (hextends here).importing hname⟩
        | run a =>
            obtain ⟨state, hexec, hI₁⟩ := hsafe here a s.state hstmt hI
            exact ⟨{ s with state }, by simp [execute, hexec], hI₁, .run hexec⟩
      obtain ⟨s₁, hstep, hI₁, hextends₁⟩ := hfirst
      have hbound₁ : unloaded dir s₁ < bound :=
        Nat.lt_of_le_of_lt (unloaded_le hextends₁.loaded) hbound
      obtain ⟨s₂, hrun, hI₂, hextends₂⟩ := ih hrest s₁ hI₁ hbound₁
      refine ⟨s₂, ?_, hI₂, hextends₁.trans hextends₂⟩
      rw [runBody, hstep]
      exact hrun

/-- If every import finds its file and no statement raises, an import succeeds. -/
theorem importModule_imported (hresolves : Resolves dir) (hsafe : Safe dir exec I) (depth : Nat)
    {name : String} (hfound : (find dir name).isSome) (hreaches : Reaches dir roots name)
    (s : Interpreter σ) (hI : I s.state) (hdepth : unloaded dir s < depth) :
    Imported dir exec I roots name s (importModule dir exec depth name s) := by
  induction depth generalizing name s with
  | zero => omega
  | succ depth ih =>
      rw [importModule]
      by_cases hname : name ∈ s.loaded
      · rw [if_pos hname]
        exact ⟨s, rfl, hI, hname, fun _ => .refl⟩
      · rw [if_neg hname]
        obtain ⟨m, hm⟩ := Option.isSome_iff_exists.1 hfound
        have hlt := unloaded_lt hm hname
        have himporting : ∀ n s, Mentions dir name n → I s.state → unloaded dir s < depth →
            Imported dir exec I roots n s (importModule dir exec depth n s) :=
          fun n s hn hI hs => ih (hresolves name n hn) (reaches_mentions hreaches hn) s hI hs
        obtain ⟨s', hrun, hI', hextends⟩ := runBody_extends hsafe himporting (bodyOf dir name)
          (fun _ h => h) { s with loaded := name :: s.loaded } hI (by omega)
        rw [bodyOf_of_find hm] at hrun
        rw [hm]
        dsimp only
        rw [name_of_find hm, hrun]
        have hcomplete : ∀ here, Extends dir exec roots here [] s s' ∧ name ∈ s'.loaded :=
          fun here => hextends.complete hname hreaches
        exact ⟨s', rfl, hI', (hcomplete name).2, fun here => (hcomplete here).1⟩

theorem importEach_imported (hresolves : Resolves dir) (hsafe : Safe dir exec I) {depth : Nat}
    (hdepth : dir.length < depth) (names : List String)
    (hfound : ∀ name ∈ names, (find dir name).isSome ∧ name ∈ roots)
    (s : Interpreter σ) (hI : I s.state) :
    I (importEach (importModule dir exec depth) names s).state ∧
      (∀ name ∈ names, name ∈ (importEach (importModule dir exec depth) names s).loaded) ∧
      ∀ here, Extends dir exec roots here [] s (importEach (importModule dir exec depth) names s) := by
  induction names generalizing s with
  | nil => exact ⟨hI, by simp, fun _ => .refl⟩
  | cons name rest ih =>
      have hbound : unloaded dir s < depth := Nat.lt_of_le_of_lt List.countP_le_length hdepth
      obtain ⟨hfoundName, hroot⟩ := hfound name List.mem_cons_self
      obtain ⟨s₁, himport, hI₁, hname, hextends₁⟩ := importModule_imported hresolves hsafe depth
        hfoundName ⟨name, hroot, .refl⟩ s hI hbound
      obtain ⟨hI₂, hnames, hextends₂⟩ :=
        ih (fun name h => hfound name (List.mem_cons_of_mem _ h)) s₁ hI₁
      rw [importEach, himport]
      refine ⟨hI₂, ?_, fun here => (hextends₁ here).trans (hextends₂ here)⟩
      intro n hn
      rcases List.mem_cons.1 hn with rfl | hn
      · exact (hextends₂ n).loaded n hname
      · exact hnames n hn

end Success

end Imports
