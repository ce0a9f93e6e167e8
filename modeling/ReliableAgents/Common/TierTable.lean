import ReliableAgents.Common.Tiers
import ReliableAgents.Relational.Successor

/-!
# The tiers table and its copies

The ladder is data: a tier is added by an `INSERT`, and a process reads the table once
and keeps its copy. What is said of the table here is said by rank, and does not go
through `next_tier`.
-/

namespace ReliableAgents

open Relational

namespace Ladder

/-! ## The table by rank -/

/-- `next` has the next higher rank in the table. -/
def NextRank (ladder : Ladder) (current next : TierName) : Prop :=
  ∃ s ∈ ladder.tiers, ∃ t ∈ ladder.tiers, s.name = current ∧ t.name = next ∧ s.rank < t.rank ∧
    ∀ u ∈ ladder.tiers, s.rank < u.rank → t.rank ≤ u.rank

def Topmost (ladder : Ladder) (current : TierName) : Prop :=
  ∀ s ∈ ladder.tiers, s.name = current → ∀ t ∈ ladder.tiers, ¬ s.rank < t.rank

private theorem nextAfter_iff {current next : TierName} {tiers : List Tier}
    (hsorted : tiers.Pairwise fun s t => s.rank < t.rank) (hnamed : (tiers.map Tier.name).Nodup) :
    nextAfter current tiers = some next ↔
      ∃ s ∈ tiers, ∃ t ∈ tiers, s.name = current ∧ t.name = next ∧ s.rank < t.rank ∧
        ∀ u ∈ tiers, s.rank < u.rank → t.rank ≤ u.rank := by
  induction tiers with
  | nil => simp [nextAfter]
  | cons x above ih =>
      obtain ⟨hlow, habove⟩ := List.pairwise_cons.1 hsorted
      obtain ⟨hfresh, hnamed⟩ := List.nodup_cons.1 hnamed
      rw [nextAfter]
      by_cases hx : x.name = current
      · rw [if_pos hx]
        constructor
        · intro hhead
          cases above with
          | nil => cases hhead
          | cons y rest =>
              refine ⟨x, by simp, y, by simp, hx, by simpa using hhead, hlow y (by simp), ?_⟩
              intro u hu hrank
              rcases List.mem_cons.1 hu with rfl | hu
              · omega
              · rcases List.mem_cons.1 hu with rfl | hu
                · omega
                · have := (List.pairwise_cons.1 habove).1 u hu
                  omega
        · rintro ⟨s, hs, t, ht, hcurrent, hnext, hrank, hleast⟩
          have hsx : s = x := by
            rcases List.mem_cons.1 hs with heq | hs
            · exact heq
            · refine absurd ?_ hfresh
              rw [hx, ← hcurrent]
              exact List.mem_map_of_mem hs
          subst hsx
          rcases List.mem_cons.1 ht with rfl | ht
          · omega
          · cases above with
            | nil => cases ht
            | cons y rest =>
                have hle := hleast y (by simp) (hlow y (by simp))
                have hfirst := (List.pairwise_cons.1 habove).1 t
                rcases List.mem_cons.1 ht with rfl | hrest
                · simpa using hnext
                · have := hfirst hrest
                  omega
      · rw [if_neg hx, ih habove hnamed]
        constructor
        · rintro ⟨s, hs, t, ht, hcurrent, hnext, hrank, hleast⟩
          refine ⟨s, by simp [hs], t, by simp [ht], hcurrent, hnext, hrank, fun u hu hhigher => ?_⟩
          rcases List.mem_cons.1 hu with rfl | hu
          · have := hlow s hs
            omega
          · exact hleast u hu hhigher
        · rintro ⟨s, hs, t, ht, hcurrent, hnext, hrank, hleast⟩
          have hs' : s ∈ above := by
            rcases List.mem_cons.1 hs with rfl | hs
            · exact absurd hcurrent hx
            · exact hs
          have ht' : t ∈ above := by
            rcases List.mem_cons.1 ht with rfl | ht
            · have := hlow s hs'
              omega
            · exact ht
          exact ⟨s, hs', t, ht', hcurrent, hnext, hrank, fun u hu => hleast u (by simp [hu])⟩

/-- On the table itself `next_tier` is the next higher rank. -/
theorem nextTier_iff {ladder : Ladder} {current next : TierName} :
    ladder.nextTier current = some next ↔ ladder.NextRank current next :=
  nextAfter_iff ladder.sorted ladder.named

private theorem highest_of_nextAfter {current : TierName} {tiers : List Tier}
    (hsorted : tiers.Pairwise fun s t => s.rank < t.rank) (h : nextAfter current tiers = none) :
    ∀ s ∈ tiers, s.name = current → ∀ t ∈ tiers, ¬ s.rank < t.rank := by
  induction tiers with
  | nil => simp
  | cons x above ih =>
      obtain ⟨hlow, habove⟩ := List.pairwise_cons.1 hsorted
      rw [nextAfter] at h
      intro s hs hcurrent t ht
      split at h
      · have hnil : above = [] := by simpa using h
        subst hnil
        rw [List.mem_singleton.1 hs, List.mem_singleton.1 ht]
        exact Int.lt_irrefl _
      · rename_i hx
        rcases List.mem_cons.1 hs with rfl | hs
        · exact absurd hcurrent hx
        · have hfirst := hlow s hs
          rcases List.mem_cons.1 ht with rfl | ht
          · omega
          · exact ih habove h s hs hcurrent t ht

theorem topmost_of_nextTier {ladder : Ladder} {current : TierName}
    (h : ladder.nextTier current = none) : ladder.Topmost current :=
  highest_of_nextAfter ladder.sorted h

/-! ## Adding a tier -/

/-- The rows after `tier` was inserted where its rank belongs, and the others moved. -/
def spliced (tier : Tier) (rerank : Tier → Int) (tiers : List Tier) : List Tier :=
  let shifted : List Tier := tiers.map fun t => { t with rank := rerank t }
  shifted.takeWhile (fun t => t.rank < tier.rank) ++
    tier :: shifted.dropWhile fun t => t.rank < tier.rank

/-- `INSERT INTO tiers`, with an update of the other ranks in the same transaction: names
and ranks are unique, and the tiers that were there keep their order. -/
def insert? (tier : Tier) (rerank : Tier → Int) (ladder : Ladder) : Option Ladder :=
  if h : ((spliced tier rerank ladder.tiers).Pairwise fun s t => s.rank < t.rank) ∧
      ((spliced tier rerank ladder.tiers).map Tier.name).Nodup then
    some { tiers := spliced tier rerank ladder.tiers, sorted := h.1, named := h.2 }
  else none

/-- What a tier is apart from its rank. -/
def priced (ladder : Ladder) : List (TierName × Int × Int) :=
  ladder.tiers.map fun t => (t.name, t.costUnits, t.tokens)

/-- Tiers were added, and those that were there kept their order and their prices. -/
def Grown (copy ladder : Ladder) : Prop := copy.priced.Sublist ladder.priced

theorem Grown.refl (ladder : Ladder) : ladder.Grown ladder := List.Sublist.refl _

theorem Grown.trans {first second third : Ladder} (h : first.Grown second)
    (h' : second.Grown third) : first.Grown third :=
  List.Sublist.trans h h'

private theorem spliced_sublist {γ : Type} {f : Tier → γ} (tier : Tier) (rerank : Tier → Int)
    (tiers : List Tier) (hf : ∀ t, f { t with rank := rerank t } = f t) :
    (tiers.map f).Sublist ((spliced tier rerank tiers).map f) := by
  have hsame : tiers.map f = (tiers.map fun t => { t with rank := rerank t }).map f := by
    rw [List.map_map]
    exact List.map_congr_left fun t _ => (hf t).symm
  rw [hsame, spliced]
  refine List.Sublist.map f ?_
  conv_lhs => rw [← List.takeWhile_append_dropWhile (p := fun t : Tier => t.rank < tier.rank)
    (l := tiers.map fun t => { t with rank := rerank t })]
  exact List.Sublist.append_left (List.sublist_cons_self _ _) _

theorem grown_of_insert? {ladder ladder' : Ladder} {tier : Tier} {rerank : Tier → Int}
    (h : ladder.insert? tier rerank = some ladder') : ladder.Grown ladder' := by
  unfold insert? at h
  split at h
  · cases h
    exact spliced_sublist tier rerank ladder.tiers fun _ => rfl
  · cases h

/-! ## A copy of the table -/

variable {copy ladder : Ladder} {name : TierName}

theorem priced_names (ladder : Ladder) : ladder.priced.map Prod.fst = ladder.names := by
  rw [priced, List.map_map]
  rfl

theorem Grown.names (h : copy.Grown ladder) : copy.names.Sublist ladder.names := by
  have hsub := List.Sublist.map Prod.fst h
  rwa [priced_names, priced_names] at hsub

private theorem nextAfter_eq_successor (current : TierName) (tiers : List Tier) :
    nextAfter current tiers = successor current (tiers.map Tier.name) := by
  induction tiers with
  | nil => rfl
  | cons t above ih =>
      rw [nextAfter, List.map_cons, successor, ih, List.head?_map]

/-- A copy promotes like the table exactly if it holds the tier and the one above it. -/
theorem Grown.nextTier_eq (h : copy.Grown ladder) :
    copy.nextTier name = ladder.nextTier name ↔
      ∀ next, ladder.nextTier name = some next → name ∈ copy.names ∧ next ∈ copy.names := by
  simp only [nextTier, nextAfter_eq_successor]
  exact successor_of_sublist h.names ladder.named

private theorem find?_of_named {tiers : List Tier} (hnamed : (tiers.map Tier.name).Nodup)
    {t : Tier} (ht : t ∈ tiers) : tiers.find? (fun u => u.name = t.name) = some t := by
  induction tiers with
  | nil => cases ht
  | cons x rest ih =>
      obtain ⟨hfresh, hnamed⟩ := List.nodup_cons.1 hnamed
      rcases List.mem_cons.1 ht with rfl | ht
      · simp
      · have hne : x.name ≠ t.name := fun heq => hfresh (heq ▸ List.mem_map_of_mem ht)
        rw [List.find?_cons_of_neg (by simpa using hne)]
        exact ih hnamed ht

theorem costOf_eq_some {price : Int × Int} :
    ladder.costOf name = some price ↔ (name, price) ∈ ladder.priced := by
  rw [Ladder.costOf, tier, priced, List.mem_map]
  constructor
  · intro h
    obtain ⟨t, ht, rfl⟩ := Option.map_eq_some_iff.1 h
    have hname : t.name = name := by simpa using List.find?_some ht
    exact ⟨t, List.mem_of_find?_eq_some ht, by rw [hname]⟩
  · rintro ⟨t, ht, heq⟩
    cases heq
    rw [find?_of_named ladder.named ht, Option.map_some]

/-- A price in a copy is the price in the table. -/
theorem Grown.costOf (h : copy.Grown ladder) {price : Int × Int}
    (hprice : copy.costOf name = some price) : ladder.costOf name = some price :=
  costOf_eq_some.2 (List.Sublist.subset h (costOf_eq_some.1 hprice))

end Ladder

/-- `all_tiers`: the table is read when there is no copy, or when a fresh one is asked for. -/
def allTiers (refresh : Bool) (table : Ladder) (cache : Option Ladder) : Ladder :=
  if refresh then table else cache.getD table

end ReliableAgents
