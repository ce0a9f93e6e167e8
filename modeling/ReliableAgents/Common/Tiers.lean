import ReliableAgents.Common.Protocol
import Mathlib.Data.List.Nodup

/-!
# The escalation ladder

`common/tiers.py` over the `tiers` table. A ladder is what `all_tiers` returns:
the rows in increasing rank, with distinct names. A tier's level is its position.
-/

namespace ReliableAgents

structure Tier where
  name : TierName
  rank : Int
  costUnits : Int
  tokens : Int
deriving DecidableEq, Repr

structure Ladder where
  tiers : List Tier
  sorted : tiers.Pairwise fun s t => s.rank < t.rank
  named : (tiers.map Tier.name).Nodup

namespace Ladder

def names (ladder : Ladder) : List TierName := ladder.tiers.map Tier.name

def tier (ladder : Ladder) (name : TierName) : Option Tier :=
  ladder.tiers.find? fun t => t.name = name

def baseTier (ladder : Ladder) : Option TierName := ladder.tiers.head?.map Tier.name

def topTier (ladder : Ladder) : Option TierName := ladder.tiers.getLast?.map Tier.name

/-- The loop of `next_tier`: stop at the first tier of that name. -/
def nextAfter (current : TierName) : List Tier → Option TierName
  | [] => none
  | t :: above => if t.name = current then above.head?.map Tier.name else nextAfter current above

def nextTier (ladder : Ladder) (current : TierName) : Option TierName :=
  nextAfter current ladder.tiers

def costOf (ladder : Ladder) (name : TierName) : Option (Int × Int) :=
  (ladder.tier name).map fun t => (t.costUnits, t.tokens)

/-- Position on the ladder; a name that is not on it is above every tier. -/
def level (ladder : Ladder) (name : TierName) : Nat := ladder.names.idxOf name

theorem baseTier_mem {ladder : Ladder} {base : TierName} (h : ladder.baseTier = some base) :
    base ∈ ladder.names := by
  obtain ⟨t, ht, rfl⟩ := Option.map_eq_some_iff.1 h
  exact List.mem_map_of_mem (List.mem_of_head? ht)

theorem level_lt_length {ladder : Ladder} {name : TierName} (h : name ∈ ladder.names) :
    ladder.level name < ladder.names.length :=
  List.idxOf_lt_length_of_mem h

theorem level_inj {ladder : Ladder} {s t : TierName} (hs : s ∈ ladder.names)
    (h : ladder.level s = ladder.level t) : s = t :=
  (List.idxOf_inj hs).1 h

private theorem nextAfter_spec {current next : TierName} {tiers : List Tier}
    (hnamed : (tiers.map Tier.name).Nodup) (h : nextAfter current tiers = some next) :
    next ∈ tiers.map Tier.name ∧
      (tiers.map Tier.name).idxOf next = (tiers.map Tier.name).idxOf current + 1 := by
  induction tiers with
  | nil => simp [nextAfter] at h
  | cons t above ih =>
      simp only [List.map_cons, List.nodup_cons] at hnamed
      unfold nextAfter at h
      split at h
      · rename_i heq
        cases above with
        | nil => simp at h
        | cons u rest =>
            simp only [List.head?_cons, Option.map_some, Option.some.injEq] at h
            subst h heq
            have hne : t.name ≠ u.name := fun hn => hnamed.1 (by simp [hn])
            exact ⟨by simp, by simp [hne]⟩
      · rename_i hne
        obtain ⟨hmem, hidx⟩ := ih hnamed.2 h
        have hnext : t.name ≠ next := fun hn => hnamed.1 (hn ▸ hmem)
        refine ⟨List.mem_cons_of_mem _ hmem, ?_⟩
        simp [hne, hnext, hidx]

theorem nextTier_mem {ladder : Ladder} {current next : TierName}
    (h : ladder.nextTier current = some next) : next ∈ ladder.names :=
  (nextAfter_spec ladder.named h).1

/-- A promotion climbs exactly one level. -/
theorem level_nextTier {ladder : Ladder} {current next : TierName}
    (h : ladder.nextTier current = some next) : ladder.level next = ladder.level current + 1 :=
  (nextAfter_spec ladder.named h).2

theorem mem_of_nextTier {ladder : Ladder} {current next : TierName}
    (h : ladder.nextTier current = some next) : current ∈ ladder.names := by
  by_contra hcur
  have hlevel := level_nextTier h
  have hlast : ladder.level current = ladder.names.length := List.idxOf_eq_length hcur
  have hlt := level_lt_length (nextTier_mem h)
  omega

end Ladder

end ReliableAgents
