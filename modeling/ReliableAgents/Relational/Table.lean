import Mathlib.Data.List.Nodup
import Mathlib.Data.List.Sort

/-!
# Keyed tables

A table is a list of rows with a primary key and one further unique key. Both
uniqueness constraints are fields, so a table that violates one cannot be
built. Every write is described by what the two lookups see afterwards.
-/

namespace Relational

structure Table {ρ κ υ : Type} (key : ρ → κ) (uniq : ρ → υ) where
  rows : List ρ
  keyNodup : (rows.map key).Nodup
  uniqNodup : (rows.map uniq).Nodup

/-- The first `limit` rows of a selection, in the order of a measure. -/
def orderedBatch {ρ : Type} (measure : ρ → Int) (limit : Nat) (rows : List ρ) : List ρ :=
  (rows.insertionSort fun r s => measure r ≤ measure s).take limit

theorem mem_of_mem_orderedBatch {ρ : Type} {measure : ρ → Int} {limit : Nat} {rows : List ρ}
    {r : ρ} (h : r ∈ orderedBatch measure limit rows) : r ∈ rows :=
  (List.mem_insertionSort _).1 (List.mem_of_mem_take h)

theorem orderedBatch_one_eq_nil {ρ : Type} {measure : ρ → Int} {rows : List ρ} :
    orderedBatch measure 1 rows = [] ↔ rows = [] := by
  simp [orderedBatch, ← List.length_eq_zero_iff]

/-- A batch is the first rows of the order: what it leaves out measures no less. -/
theorem orderedBatch_le {ρ : Type} {measure : ρ → Int} {limit : Nat} {rows : List ρ} {r s : ρ}
    (hr : r ∈ orderedBatch measure limit rows) (hs : s ∈ rows)
    (hout : s ∉ orderedBatch measure limit rows) : measure r ≤ measure s := by
  have hsorted : (rows.insertionSort fun r s => measure r ≤ measure s).Pairwise
      fun r s => measure r ≤ measure s :=
    have : IsTrans ρ fun r s => measure r ≤ measure s := ⟨fun _ _ _ => le_trans⟩
    have : Std.Total (α := ρ) fun r s => measure r ≤ measure s := ⟨fun _ _ => le_total _ _⟩
    List.pairwise_insertionSort _ rows
  rw [← List.take_append_drop limit (rows.insertionSort _), List.pairwise_append] at hsorted
  have hmem := (List.mem_insertionSort fun r s => measure r ≤ measure s).2 hs
  rw [← List.take_append_drop limit (rows.insertionSort _)] at hmem
  rcases List.mem_append.1 hmem with hin | hrest
  · exact absurd hin hout
  · exact hsorted.2.2 r hr s hrest

theorem length_orderedBatch {ρ : Type} (measure : ρ → Int) (limit : Nat) (rows : List ρ) :
    (orderedBatch measure limit rows).length = min limit rows.length := by
  simp [orderedBatch]

/-- How many rows a batch leaves out. -/
theorem countP_notMem_orderedBatch {ρ : Type} [DecidableEq ρ] (measure : ρ → Int) (limit : Nat)
    {rows : List ρ} (h : rows.Nodup) :
    rows.countP (fun r => r ∉ orderedBatch measure limit rows) = rows.length - limit := by
  have hperm := List.perm_insertionSort (fun r s => measure r ≤ measure s) rows
  have hnodup := hperm.nodup_iff.2 h
  rw [← hperm.countP_eq, ← hperm.length_eq]
  unfold orderedBatch
  generalize rows.insertionSort (fun r s => measure r ≤ measure s) = sorted at hnodup ⊢
  rw [← List.take_append_drop limit sorted, List.nodup_append] at hnodup
  have hin : (sorted.take limit).countP (fun r => r ∉ sorted.take limit) = 0 :=
    List.countP_eq_zero.2 fun r hr => by simp [hr]
  have hout : (sorted.drop limit).countP (fun r => r ∉ sorted.take limit) =
      (sorted.drop limit).length := by
    refine List.countP_eq_length.2 fun r hr => ?_
    simpa using fun hmem => hnodup.2.2 r hmem r hr rfl
  calc sorted.countP (fun r => r ∉ sorted.take limit)
      = (sorted.take limit ++ sorted.drop limit).countP (fun r => r ∉ sorted.take limit) := by
        rw [List.take_append_drop]
    _ = sorted.length - limit := by
        rw [List.countP_append, hin, hout, Nat.zero_add, List.length_drop]

theorem orderedBatch_map_nodup {ρ κ : Type} (key : ρ → κ) (measure : ρ → Int) (limit : Nat)
    {rows : List ρ} (h : (rows.map key).Nodup) :
    ((orderedBatch measure limit rows).map key).Nodup := by
  have hperm : ((rows.insertionSort fun r s => measure r ≤ measure s).map key).Nodup :=
    ((List.perm_insertionSort _ rows).map key).nodup_iff.2 h
  exact hperm.sublist ((List.take_sublist _ _).map key)

namespace Table

variable {ρ κ υ : Type} {key : ρ → κ} {uniq : ρ → υ}

theorem ext_rows {t t' : Table key uniq} (h : t.rows = t'.rows) : t = t' := by
  cases t
  cases t'
  cases h
  rfl

def empty : Table key uniq where
  rows := []
  keyNodup := List.nodup_nil
  uniqNodup := List.nodup_nil

def select (t : Table key uniq) (p : ρ → Bool) : List ρ := t.rows.filter p

def count (t : Table key uniq) (p : ρ → Bool) : Nat := t.rows.countP p

/-- `UPDATE ... SET f WHERE p`: the assignment leaves both keys alone. -/
def update (t : Table key uniq) (p : ρ → Bool) (f : ρ → ρ)
    (hkey : ∀ r, key (f r) = key r := by intro _; exact id rfl)
    (huniq : ∀ r, uniq (f r) = uniq r := by intro _; exact id rfl) : Table key uniq where
  rows := t.rows.map fun r => if p r then f r else r
  keyNodup := by
    have same : (key ∘ fun r => if p r then f r else r) = key := by
      funext r
      simp only [Function.comp]
      split <;> simp [hkey]
    rw [List.map_map, same]
    exact t.keyNodup
  uniqNodup := by
    have same : (uniq ∘ fun r => if p r then f r else r) = uniq := by
      funext r
      simp only [Function.comp]
      split <;> simp [huniq]
    rw [List.map_map, same]
    exact t.uniqNodup

def delete (t : Table key uniq) (p : ρ → Bool) : Table key uniq where
  rows := t.rows.filter fun r => !p r
  keyNodup := t.keyNodup.sublist (List.filter_sublist.map key)
  uniqNodup := t.uniqNodup.sublist (List.filter_sublist.map uniq)

section Lookup

variable [DecidableEq κ] [DecidableEq υ]

def get? (t : Table key uniq) (k : κ) : Option ρ := t.rows.find? fun r => key r = k

/-- Lookup by the further unique key. -/
def at? (t : Table key uniq) (u : υ) : Option ρ := t.rows.find? fun r => uniq r = u

/-- `INSERT`: refused when either key is already present. -/
def insert? (t : Table key uniq) (r : ρ) : Option (Table key uniq) :=
  if h : key r ∉ t.rows.map key ∧ uniq r ∉ t.rows.map uniq then
    some
      { rows := t.rows ++ [r]
        keyNodup := by
          rw [List.map_append]
          exact List.nodup_append.2 ⟨t.keyNodup, by simp, by
            rintro a ha b hb rfl
            simp only [List.map_cons, List.map_nil, List.mem_singleton] at hb
            exact h.1 (hb ▸ ha)⟩
        uniqNodup := by
          rw [List.map_append]
          exact List.nodup_append.2 ⟨t.uniqNodup, by simp, by
            rintro a ha b hb rfl
            simp only [List.map_cons, List.map_nil, List.mem_singleton] at hb
            exact h.2 (hb ▸ ha)⟩ }
  else none

end Lookup

/-! ## Lookups and membership -/

private theorem find?_iff {κ' : Type} [DecidableEq κ'] {g : ρ → κ'} {rows : List ρ}
    (hnodup : (rows.map g).Nodup) (k : κ') (r : ρ) :
    (rows.find? fun s => g s = k) = some r ↔ r ∈ rows ∧ g r = k := by
  induction rows with
  | nil => simp
  | cons s rest ih =>
      simp only [List.map_cons, List.nodup_cons] at hnodup
      rw [List.find?_cons]
      by_cases hs : g s = k
      · simp only [hs, decide_true, Option.some.injEq, List.mem_cons]
        constructor
        · rintro rfl
          exact ⟨Or.inl rfl, hs⟩
        · rintro ⟨rfl | hr, hg⟩
          · rfl
          · exact absurd (hs.trans hg.symm ▸ List.mem_map_of_mem hr) hnodup.1
      · simp only [hs, decide_false, ih hnodup.2, List.mem_cons]
        constructor
        · exact fun h => ⟨Or.inr h.1, h.2⟩
        · rintro ⟨rfl | hr, hg⟩
          · exact absurd hg hs
          · exact ⟨hr, hg⟩

private theorem find?_map {κ' : Type} [DecidableEq κ'] {g : ρ → κ'} (rows : List ρ)
    (f : ρ → ρ) (hf : ∀ r, g (f r) = g r) (k : κ') :
    ((rows.map f).find? fun s => g s = k) = (rows.find? fun s => g s = k).map f := by
  rw [List.find?_map]
  congr 2
  funext s
  simp [hf]

theorem select_map_nodup (t : Table key uniq) (p : ρ → Bool) : ((t.select p).map key).Nodup :=
  t.keyNodup.sublist (List.filter_sublist.map key)

theorem update_eq_self {t : Table key uniq} {p : ρ → Bool} {f : ρ → ρ}
    {hkey : ∀ r, key (f r) = key r} {huniq : ∀ r, uniq (f r) = uniq r}
    (h : ∀ r ∈ t.rows, p r = false) : t.update p f hkey huniq = t := by
  obtain ⟨rows, hk, hu⟩ := t
  have same : (rows.map fun r => if p r then f r else r) = rows :=
    (List.map_congr_left fun r hr => by simp [h r hr]).trans (List.map_id rows)
  simp only [update, same]

section PrimaryKey

variable [DecidableEq κ]

theorem get?_eq_some (t : Table key uniq) {k : κ} {r : ρ} :
    t.get? k = some r ↔ r ∈ t.rows ∧ key r = k :=
  find?_iff t.keyNodup k r

theorem get?_eq_none (t : Table key uniq) {k : κ} :
    t.get? k = none ↔ ∀ r ∈ t.rows, key r ≠ k := by
  simp [get?]

theorem get?_of_mem (t : Table key uniq) {r : ρ} (h : r ∈ t.rows) : t.get? (key r) = some r :=
  t.get?_eq_some.2 ⟨h, rfl⟩

theorem key_of_get? {t : Table key uniq} {k : κ} {r : ρ} (h : t.get? k = some r) : key r = k :=
  (t.get?_eq_some.1 h).2

theorem mem_of_get? {t : Table key uniq} {k : κ} {r : ρ} (h : t.get? k = some r) : r ∈ t.rows :=
  (t.get?_eq_some.1 h).1

theorem mem_select {t : Table key uniq} {p : ρ → Bool} {r : ρ} :
    r ∈ t.select p ↔ t.get? (key r) = some r ∧ p r = true := by
  rw [select, List.mem_filter, get?_eq_some]
  simp

theorem get?_update (t : Table key uniq) (p : ρ → Bool) (f : ρ → ρ) (hkey : ∀ r, key (f r) = key r)
    (huniq : ∀ r, uniq (f r) = uniq r) (k : κ) :
    (t.update p f hkey huniq).get? k = (t.get? k).map fun r => if p r then f r else r :=
  find?_map t.rows _ (by intro r; split <;> simp [hkey]) k

theorem get?_of_rows_map {t t' : Table key uniq} {f : ρ → ρ} (hrows : t'.rows = t.rows.map f)
    (hkey : ∀ r, key (f r) = key r) (k : κ) : t'.get? k = (t.get? k).map f := by
  rw [get?, hrows]
  exact find?_map t.rows f hkey k

theorem get?_update_one {t : Table key uniq} {p : ρ → Bool} {f : ρ → ρ}
    {hkey : ∀ r, key (f r) = key r} {huniq : ∀ r, uniq (f r) = uniq r} {k : κ} {r : ρ}
    (hr : t.get? k = some r) (hp : p r = true) (hone : ∀ s, p s = true → key s = k) (k' : κ) :
    (t.update p f hkey huniq).get? k' = if k' = k then some (f r) else t.get? k' := by
  rw [get?_update]
  split
  · rename_i h
    simp [h, hr, hp]
  · rename_i h
    cases hs : t.get? k' with
    | none => rfl
    | some s =>
        have hps : ¬ p s = true := fun hps => h ((key_of_get? hs).symm.trans (hone s hps))
        simp [hps]

theorem get?_delete (t : Table key uniq) (p : ρ → Bool) (k : κ) :
    (t.delete p).get? k = (t.get? k).filter fun r => !p r := by
  cases h : t.get? k with
  | none =>
      rw [get?_eq_none] at h
      simp only [Option.filter_none]
      exact (get?_eq_none _).2 fun r hr => h r (List.mem_of_mem_filter hr)
  | some r =>
      obtain ⟨hr, hk⟩ := t.get?_eq_some.1 h
      by_cases hp : p r = true
      · simp only [hp, Option.filter_some, Bool.not_true, Bool.false_eq_true, if_false]
        refine (get?_eq_none _).2 fun s hs hsk => ?_
        obtain ⟨hs, hps⟩ := List.mem_filter.1 hs
        have heq := List.inj_on_of_nodup_map t.keyNodup hs hr (hsk.trans hk.symm)
        subst heq
        simp [hp] at hps
      · simp only [Bool.not_eq_true] at hp
        simp only [hp, Option.filter_some, Bool.not_false, if_true]
        exact (get?_eq_some _).2 ⟨List.mem_filter.2 ⟨hr, by simp [hp]⟩, hk⟩

end PrimaryKey

section UniqueKey

variable [DecidableEq υ]

theorem at?_eq_some (t : Table key uniq) {u : υ} {r : ρ} :
    t.at? u = some r ↔ r ∈ t.rows ∧ uniq r = u :=
  find?_iff t.uniqNodup u r

theorem at?_eq_none (t : Table key uniq) {u : υ} :
    t.at? u = none ↔ ∀ r ∈ t.rows, uniq r ≠ u := by
  simp [at?]

theorem at?_of_mem (t : Table key uniq) {r : ρ} (h : r ∈ t.rows) : t.at? (uniq r) = some r :=
  t.at?_eq_some.2 ⟨h, rfl⟩

theorem at?_update (t : Table key uniq) (p : ρ → Bool) (f : ρ → ρ) (hkey : ∀ r, key (f r) = key r)
    (huniq : ∀ r, uniq (f r) = uniq r) (u : υ) :
    (t.update p f hkey huniq).at? u = (t.at? u).map fun r => if p r then f r else r :=
  find?_map t.rows _ (by intro r; split <;> simp [huniq]) u

theorem at?_of_rows_map {t t' : Table key uniq} {f : ρ → ρ} (hrows : t'.rows = t.rows.map f)
    (huniq : ∀ r, uniq (f r) = uniq r) (u : υ) : t'.at? u = (t.at? u).map f := by
  rw [at?, hrows]
  exact find?_map t.rows f huniq u

end UniqueKey

/-! ## The two keys together -/

variable [DecidableEq κ] [DecidableEq υ]

theorem get?_of_at? {t : Table key uniq} {u : υ} {r : ρ} (h : t.at? u = some r) :
    t.get? (key r) = some r :=
  t.get?_of_mem (t.at?_eq_some.1 h).1

theorem at?_of_get? {t : Table key uniq} {k : κ} {r : ρ} (h : t.get? k = some r) :
    t.at? (uniq r) = some r :=
  t.at?_of_mem (mem_of_get? h)

theorem at?_update_one {t : Table key uniq} {p : ρ → Bool} {f : ρ → ρ}
    {hkey : ∀ r, key (f r) = key r} {huniq : ∀ r, uniq (f r) = uniq r} {k : κ} {r : ρ}
    (hr : t.get? k = some r) (hp : p r = true) (hone : ∀ s, p s = true → key s = k) (u : υ) :
    (t.update p f hkey huniq).at? u = if u = uniq r then some (f r) else t.at? u := by
  rw [at?_update]
  split
  · rename_i h
    rw [h, at?_of_get? hr]
    simp [hp]
  · rename_i h
    cases hs : t.at? u with
    | none => rfl
    | some s =>
        have hps : ¬ p s = true := by
          intro hps
          have hget := get?_of_at? hs
          rw [hone s hps, hr] at hget
          exact h (by rw [Option.some.inj hget]; exact (t.at?_eq_some.1 hs).2.symm)
        simp [hps]

theorem insert?_eq_some {t t' : Table key uniq} {r : ρ} (h : t.insert? r = some t') :
    t.get? (key r) = none ∧ t.at? (uniq r) = none ∧ t'.rows = t.rows ++ [r] := by
  unfold insert? at h
  split at h
  · rename_i hfresh
    cases h
    refine ⟨t.get?_eq_none.2 ?_, t.at?_eq_none.2 ?_, rfl⟩
    · intro s hs hk
      exact hfresh.1 (hk ▸ List.mem_map_of_mem hs)
    · intro s hs hu
      exact hfresh.2 (hu ▸ List.mem_map_of_mem hs)
  · cases h

theorem insert?_of_nodup {t : Table key uniq} {r : ρ} (hk : ((t.rows ++ [r]).map key).Nodup)
    (hu : ((t.rows ++ [r]).map uniq).Nodup) : ∃ t', t.insert? r = some t' ∧
      t'.rows = t.rows ++ [r] := by
  rw [List.map_append] at hk hu
  have hfresh : key r ∉ t.rows.map key ∧ uniq r ∉ t.rows.map uniq :=
    ⟨fun hmem => List.disjoint_of_nodup_append hk hmem (by simp),
      fun hmem => List.disjoint_of_nodup_append hu hmem (by simp)⟩
  unfold insert?
  rw [dif_pos hfresh]
  exact ⟨_, rfl, rfl⟩

theorem get?_insert? {t t' : Table key uniq} {r : ρ} (h : t.insert? r = some t') (k : κ) :
    t'.get? k = if k = key r then some r else t.get? k := by
  obtain ⟨hk, -, hrows⟩ := insert?_eq_some h
  unfold get? at hk ⊢
  rw [hrows, List.find?_append]
  split
  · rename_i heq
    subst heq
    simp [hk]
  · rename_i hne
    simp [Ne.symm hne]

theorem at?_insert? {t t' : Table key uniq} {r : ρ} (h : t.insert? r = some t') (u : υ) :
    t'.at? u = if u = uniq r then some r else t.at? u := by
  obtain ⟨-, hu, hrows⟩ := insert?_eq_some h
  unfold at? at hu ⊢
  rw [hrows, List.find?_append]
  split
  · rename_i heq
    subst heq
    simp [hu]
  · rename_i hne
    simp [Ne.symm hne]

end Table

end Relational
