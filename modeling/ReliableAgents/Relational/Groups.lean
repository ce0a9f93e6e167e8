import ReliableAgents.Relational.Table
import Mathlib.Algebra.BigOperators.Group.List.Lemmas
import Mathlib.Algebra.Group.Action.Defs
import Mathlib.Data.Set.Card

/-!
# Groups of rows

`GROUP BY` has one row for each value of the grouping columns that occurs, and a
sum over its rows is a sum over the rows they were made from.
-/

namespace Relational

variable {ρ κ β M : Type} [DecidableEq κ]

/-- `SELECT agg(...) GROUP BY key`. -/
def groupBy (key : ρ → κ) (agg : κ → List ρ → β) (rows : List ρ) : List β :=
  (rows.map key).dedup.map fun k => agg k (rows.filter fun r => key r = k)

section Fibres

variable [AddCommMonoid M]

private theorem sum_map_single {keys : List κ} (hnodup : keys.Nodup) (k : κ) (x : M) :
    (keys.map fun j => if k = j then x else 0).sum = if k ∈ keys then x else 0 := by
  induction keys with
  | nil => simp
  | cons j rest ih =>
      simp only [List.nodup_cons] at hnodup
      rw [List.map_cons, List.sum_cons, ih hnodup.2]
      by_cases hk : k = j
      · subst hk
        simp [hnodup.1]
      · simp [hk]

/-- Fibre by fibre, a sum meets every row whose key is listed once. -/
theorem sum_fibres (key : ρ → κ) (f : ρ → M) {keys : List κ} (hnodup : keys.Nodup)
    (rows : List ρ) :
    (keys.map fun k => ((rows.filter fun r => key r = k).map f).sum).sum =
      ((rows.filter fun r => key r ∈ keys).map f).sum := by
  induction rows with
  | nil => simp
  | cons r rest ih =>
      have hsplit : ∀ k, (((r :: rest).filter fun s => key s = k).map f).sum =
          (if key r = k then f r else 0) + ((rest.filter fun s => key s = k).map f).sum := by
        intro k
        rw [List.filter_cons]
        by_cases hk : key r = k <;> simp [hk]
      rw [List.map_congr_left fun k _ => hsplit k, List.sum_map_add, ih, sum_map_single hnodup,
        List.filter_cons]
      by_cases hmem : key r ∈ keys <;> simp [hmem]

/-- Groups selected by their key hold the rows selected by their key. -/
theorem sum_groupBy {key : ρ → κ} (agg : κ → List ρ → β) {q : β → Bool} {p : κ → Bool}
    {g : β → M} {f : ρ → M} (hq : ∀ k group, q (agg k group) = p k)
    (hg : ∀ k group, g (agg k group) = (group.map f).sum) (rows : List ρ) :
    (((groupBy key agg rows).filter q).map g).sum =
      ((rows.filter fun r => p (key r)).map f).sum := by
  have hnodup : ((rows.map key).dedup.filter p).Nodup := (List.nodup_dedup _).filter _
  have hlisted : rows.filter (fun r => key r ∈ (rows.map key).dedup.filter p) =
      rows.filter fun r => p (key r) := by
    refine List.filter_congr fun r hr => ?_
    have hmem : key r ∈ rows.map key := List.mem_map_of_mem hr
    simp only [List.mem_filter, List.mem_dedup, hmem, true_and, Bool.decide_eq_true]
  rw [← hlisted, ← sum_fibres key f hnodup, groupBy, List.filter_map, List.map_map]
  congr 1
  simp only [Function.comp_def, hq, hg]

end Fibres

/-- A count of rows is the size of the set of their keys. -/
theorem Table.count_eq_ncard {κ υ : Type} [DecidableEq κ] {key : ρ → κ} {uniq : ρ → υ}
    (t : Table key uniq) (p : ρ → Bool) :
    t.count p = Set.ncard {k | ∃ r, t.get? k = some r ∧ p r = true} := by
  have hset : {k | ∃ r, t.get? k = some r ∧ p r = true} =
      (((t.rows.filter p).map key).toFinset : Set κ) := by
    ext k
    simp only [Set.mem_ofPred_eq, List.coe_toFinset, List.mem_map, List.mem_filter]
    constructor
    · rintro ⟨r, hr, hp⟩
      exact ⟨r, ⟨Table.mem_of_get? hr, hp⟩, Table.key_of_get? hr⟩
    · rintro ⟨r, ⟨hr, hp⟩, rfl⟩
      exact ⟨r, Table.get?_of_mem _ hr, hp⟩
  have hnodup : ((t.rows.filter p).map key).Nodup :=
    t.keyNodup.sublist (List.filter_sublist.map key)
  rw [hset, Set.ncard_coe_finset, List.toFinset_card_of_nodup hnodup, List.length_map,
    Table.count, List.countP_eq_length_filter]

theorem Table.count_update_one {κ υ : Type} [DecidableEq κ] {key : ρ → κ} {uniq : ρ → υ}
    {t t' : Table key uniq} {p q : ρ → Bool} {f : ρ → ρ}
    (hupdate : t'.rows = t.rows.map fun s => if p s then f s else s) {k : κ} {r : ρ}
    (hr : t.get? k = some r) (hp : p r = true) (hone : ∀ s, p s = true → key s = k)
    (hbefore : q r = true) (hafter : q (f r) = false) : t.count q = t'.count q + 1 := by
  obtain ⟨xs, ys, hrows⟩ := List.append_of_mem (Table.mem_of_get? hr)
  have hnodup := t.keyNodup
  rw [hrows, List.map_append, List.map_cons, List.nodup_append] at hnodup
  have hk : key r = k := Table.key_of_get? hr
  have others : ∀ s ∈ xs ++ ys, p s = false := by
    intro s hs
    refine Bool.eq_false_iff.2 fun hps => ?_
    have hsame : key s = key r := (hone s hps).trans hk.symm
    rcases List.mem_append.1 hs with hx | hy
    · exact hnodup.2.2 _ (List.mem_map_of_mem hx) _ List.mem_cons_self hsame
    · exact (List.nodup_cons.1 hnodup.2.1).1 (hsame ▸ List.mem_map_of_mem hy)
  have unchanged : ∀ zs : List ρ, (∀ s ∈ zs, p s = false) →
      (zs.map fun s => if p s then f s else s) = zs := fun zs hzs =>
    (List.map_congr_left fun s hs => by simp [hzs s hs]).trans (List.map_id zs)
  simp only [Table.count, hupdate, hrows, List.map_append, List.map_cons, List.countP_append,
    List.countP_cons, hp, hbefore, hafter, if_true]
  rw [unchanged xs fun s hs => others s (List.mem_append_left _ hs),
    unchanged ys fun s hs => others s (List.mem_append_right _ hs)]
  simp only [Bool.false_eq_true, if_false]
  omega

/-- If every counted row was there before and `taken` were counted and are no more, the count
has fallen by at least that many. -/
theorem Table.count_add_length_le {κ υ : Type} [DecidableEq κ] {key : ρ → κ} {uniq : ρ → υ}
    {t t' : Table key uniq} {p : ρ → Bool} {taken : List ρ} (hnodup : (taken.map key).Nodup)
    (htaken : ∀ r ∈ taken, t.get? (key r) = some r ∧ p r = true ∧ t'.get? (key r) ≠ some r)
    (hkept : ∀ r, t'.get? (key r) = some r → p r = true → t.get? (key r) = some r) :
    t'.count p + taken.length ≤ t.count p := by
  have hleft : ((t'.rows.filter p) ++ taken).Nodup := by
    refine List.nodup_append.2 ⟨t'.keyNodup.of_map.filter _, hnodup.of_map, ?_⟩
    intro r hr s hs heq
    have hstays := Table.get?_of_mem t' (List.mem_filter.1 hr).1
    rw [heq] at hstays
    exact (htaken s hs).2.2 hstays
  have hsub : ∀ r ∈ (t'.rows.filter p) ++ taken, r ∈ t.rows.filter p := by
    intro r hr
    rcases List.mem_append.1 hr with hstays | hgone
    · obtain ⟨hmem, hp⟩ := List.mem_filter.1 hstays
      have hbefore := hkept r (Table.get?_of_mem t' hmem) hp
      exact List.mem_filter.2 ⟨Table.mem_of_get? hbefore, hp⟩
    · obtain ⟨hbefore, hp, -⟩ := htaken r hgone
      exact List.mem_filter.2 ⟨Table.mem_of_get? hbefore, hp⟩
  have hlength := (List.subperm_of_subset hleft hsub).length_le
  simpa [Table.count, List.countP_eq_length_filter] using hlength

/-- A row that a batch leaves behind: the batch is full of rows that measure no more. -/
theorem Table.left_behind {κ υ : Type} [DecidableEq κ] {key : ρ → κ} {uniq : ρ → υ}
    {t : Table key uniq} {p : ρ → Bool} {measure : ρ → Int} {limit : Nat} {r : ρ}
    (hr : t.get? (key r) = some r) (hp : p r = true)
    (hout : r ∉ orderedBatch measure limit (t.select p)) :
    (orderedBatch measure limit (t.select p)).length = limit ∧
      ∀ s ∈ orderedBatch measure limit (t.select p), t.get? (key s) = some s ∧ p s = true ∧
        measure s ≤ measure r ∧ key s ≠ key r := by
  have hselected : r ∈ t.select p := Table.mem_select.2 ⟨hr, hp⟩
  constructor
  · rw [length_orderedBatch, min_eq_left]
    by_contra hshort
    have hall : orderedBatch measure limit (t.select p) =
        (t.select p).insertionSort fun r s => measure r ≤ measure s := by
      refine List.take_of_length_le ?_
      rw [List.length_insertionSort]
      omega
    rw [hall, List.mem_insertionSort] at hout
    exact hout hselected
  · intro s hs
    obtain ⟨hget, hps⟩ := Table.mem_select.1 (mem_of_mem_orderedBatch hs)
    refine ⟨hget, hps, orderedBatch_le hs hselected hout, fun hsame => ?_⟩
    rw [hsame, hr] at hget
    cases hget
    exact hout hs

/-! ## Counts -/

/-- A sum in which only some rows have a share. -/
theorem sum_share {ρ : Type} (rows : List ρ) (p : ρ → Bool) (f : ρ → Nat) :
    (rows.map fun r => if p r then f r else 0).sum = ((rows.filter p).map f).sum := by
  rw [List.sum_map_ite]
  simp

theorem sum_indicator {ρ : Type} (rows : List ρ) (p : ρ → Bool) :
    (rows.map fun r => if p r then 1 else 0).sum = rows.countP p := by
  rw [sum_share, List.map_const', List.sum_replicate, smul_eq_mul, mul_one,
    List.countP_eq_length_filter]

theorem countP_range_lt {n c : Nat} (h : c ≤ n) :
    ((List.range n).countP fun i => i < c) = c := by
  obtain ⟨k, rfl⟩ := Nat.exists_eq_add_of_le h
  rw [List.range_add, List.countP_append, List.countP_eq_length.2 (by simp),
    List.countP_eq_zero.2 (by simp), List.length_range, Nat.add_zero]

/-- Two kinds of elements that exclude each other are together no more than a third. -/
theorem countP_add_le {α : Type} {p q r : α → Bool} {l : List α}
    (hexclusive : ∀ x, p x = true → q x = false) (hp : ∀ x, p x = true → r x = true)
    (hq : ∀ x, q x = true → r x = true) : l.countP p + l.countP q ≤ l.countP r := by
  induction l with
  | nil => simp
  | cons x rest ih =>
      simp only [List.countP_cons]
      have hx := hexclusive x
      have hpx := hp x
      have hqx := hq x
      by_cases h : p x = true
      · simp only [h, hx h, hpx h, if_true, Bool.false_eq_true, if_false]
        omega
      · by_cases h' : q x = true
        · simp only [h, h', hqx h', if_true, Bool.false_eq_true, if_false]
          omega
        · simp only [h, h', Bool.false_eq_true, if_false]
          omega

/-- Rows counted owner by owner. -/
theorem countP_by_owner {ρ ω : Type} [DecidableEq ω] (p : ρ → Bool) (owner : ρ → ω)
    {owners : List ω} (hnodup : owners.Nodup) {rows : List ρ}
    (hlisted : ∀ r ∈ rows, owner r ∈ owners) :
    rows.countP p = (owners.map fun o => rows.countP fun r => owner r = o && p r).sum := by
  have hfibres := sum_fibres owner (fun _ : ρ => 1) hnodup (rows.filter p)
  have hall : (rows.filter p).filter (fun r => owner r ∈ owners) = rows.filter p :=
    List.filter_eq_self.2 fun r hr => decide_eq_true (hlisted r (List.mem_of_mem_filter hr))
  rw [hall] at hfibres
  simp only [List.filter_filter, List.map_const', List.sum_replicate, smul_eq_mul,
    mul_one] at hfibres
  simp only [List.countP_eq_length_filter, ← hfibres]

/-- One owner's rows counted position by position. -/
theorem Table.count_by_position {ρ κ ω : Type} [DecidableEq ω] {key : ρ → κ} {uniq : ρ → ω × Nat}
    (t : Table key uniq) (p : ρ → Bool) (o : ω) {n : Nat}
    (hbound : ∀ i r, t.at? (o, i) = some r → i < n) :
    (t.count fun r => (uniq r).1 = o && p r) =
      (List.range n).countP fun i => (t.at? (o, i)).any p := by
  rw [Table.count, List.countP_eq_length_filter, List.countP_eq_length_filter]
  have hrows : (t.rows.filter fun r => (uniq r).1 = o && p r).Nodup :=
    t.uniqNodup.of_map.filter _
  have hpositions :
      ((t.rows.filter fun r => (uniq r).1 = o && p r).map fun r => (uniq r).2).Nodup := by
    refine hrows.map_on fun r hr u hu heq => ?_
    simp only [List.mem_filter, Bool.and_eq_true, decide_eq_true_eq] at hr hu
    exact List.inj_on_of_nodup_map t.uniqNodup hr.1 hu.1
      (Prod.ext (hr.2.1.trans hu.2.1.symm) heq)
  have hperm : ((t.rows.filter fun r => (uniq r).1 = o && p r).map fun r => (uniq r).2).Perm
      ((List.range n).filter fun i => (t.at? (o, i)).any p) := by
    refine (List.perm_ext_iff_of_nodup hpositions (List.nodup_range.filter _)).2 fun i => ?_
    simp only [List.mem_map, List.mem_filter, Bool.and_eq_true, decide_eq_true_eq, List.mem_range,
      Option.any_eq_true]
    constructor
    · rintro ⟨r, ⟨hr, rfl, hp⟩, rfl⟩
      have hat : t.at? ((uniq r).1, (uniq r).2) = some r := t.at?_of_mem hr
      exact ⟨hbound _ r hat, r, hat, hp⟩
    · rintro ⟨-, r, hat, hp⟩
      obtain ⟨hr, huniq⟩ := (t.at?_eq_some).1 hat
      exact ⟨r, ⟨hr, by rw [huniq], hp⟩, by rw [huniq]⟩
  rw [← hperm.length_eq, List.length_map]

end Relational
