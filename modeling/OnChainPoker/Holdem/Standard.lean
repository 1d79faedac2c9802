import Mathlib.Algebra.BigOperators.Group.List.Lemmas
import Mathlib.Algebra.Ring.Nat
import Mathlib.Data.Finset.Max
import Mathlib.Data.Finset.Powerset
import Mathlib.Data.Finset.Sort
import Mathlib.Data.List.Find
import Mathlib.Data.List.Lex
import Mathlib.Data.Prod.Lex
import Mathlib.Order.Compare
import Mathlib.Order.Interval.Finset.Nat
import OnChainPoker.Holdem.Winners

/-!
# The standard ranking

A hand is a set of cards. Its category comes from how often its ranks occur, from
its suits and from whether its ranks follow each other; within a category hands
compare by their ranks, those that occur more often first. The evaluator computes
this order, and `Winners` names the seats whose best five cards are greatest in it.
-/

namespace OnChainPoker.Holdem

open Foundation
open Poker (SeatIdx)

/-! ## The ranking of a hand -/

def ranksOf (hand : Finset Card) : Finset Nat := hand.image Card.rank

def multiplicity (hand : Finset Card) (r : Nat) : Nat :=
  (hand.filter fun c => Card.rank c = r).card

def pattern (hand : Finset Card) : Multiset Nat :=
  (ranksOf hand).val.map (multiplicity hand)

def groupKeys (hand : Finset Card) : Finset (Nat ×ₗ Nat) :=
  (ranksOf hand).image fun r => toLex (multiplicity hand r, r)

def groupRanks (hand : Finset Card) : List Nat :=
  ((groupKeys hand).sort (· ≥ ·)).map fun g => (ofLex g).2

def Flush (hand : Finset Card) : Prop :=
  ∀ c ∈ hand, ∀ d ∈ hand, Card.suit c = Card.suit d

instance (hand : Finset Card) : Decidable (Flush hand) :=
  inferInstanceAs (Decidable (∀ c ∈ hand, ∀ d ∈ hand, Card.suit c = Card.suit d))

/-- The ranks of the straight up to `high`; the lowest one begins with an ace. -/
def straightRanks (high : Nat) : Finset Nat :=
  if high = 5 then {14, 5, 4, 3, 2} else Finset.Icc (high - 4) high

def straightHigh (hand : Finset Card) : Option Nat :=
  (List.range' 5 10).find? fun high => ranksOf hand = straightRanks high

def category (hand : Finset Card) : HandCategory :=
  if (straightHigh hand).isSome ∧ Flush hand then .straightFlush
  else if pattern hand = {4, 1} then .quads
  else if pattern hand = {3, 2} then .fullHouse
  else if Flush hand then .flush
  else if (straightHigh hand).isSome then .straight
  else if pattern hand = {3, 1, 1} then .trips
  else if pattern hand = {2, 2, 1} then .twoPair
  else if pattern hand = {2, 1, 1, 1} then .onePair
  else .highCard

/-- Hands compare by category; straights then by their highest rank, and all others
by their ranks. -/
def standing (hand : Finset Card) : Nat ×ₗ List Nat :=
  toLex ((category hand).toNat,
    (straightHigh hand).elim (groupRanks hand) fun high => [high])

def bestStanding (cards : Finset Card) : WithBot (Nat ×ₗ List Nat) :=
  ((cards.powersetCard 5).image standing).max

def bestSeats (board5 : List Card) (entries : List Entry) : List SeatIdx :=
  (Finset.univ.filter fun seat => ∃ e ∈ entries, e.seat = seat ∧
    ∀ e' ∈ entries, bestStanding (e'.cards7 board5).toFinset ≤
      bestStanding (e.cards7 board5).toFinset).sort

/-! ## Comparing ranks -/

def HandRank.key (r : HandRank) : Nat ×ₗ List Nat :=
  toLex (r.category.toNat, r.tiebreakers)

theorem compareTiebreakers_spec {as bs : List Nat} (has : ∀ a ∈ as, 0 < a) (hbs : ∀ b ∈ bs, 0 < b) :
    (compareTiebreakers as bs = .lt ↔ as < bs) ∧ (compareTiebreakers as bs = .eq ↔ as = bs) := by
  induction as generalizing bs with
  | nil =>
    cases bs with
    | nil => simp [compareTiebreakers]
    | cons b bs =>
      have hb := hbs b (by simp)
      rw [compareTiebreakers, if_neg (by simp; omega)]
      simp
  | cons a as ih =>
    have ha := has a (by simp)
    cases bs with
    | nil =>
      rw [compareTiebreakers, List.headD_nil, if_neg (by omega), if_neg (by omega)]
      simp
    | cons b bs =>
      have hrest := @ih bs (fun a' h => has a' (by simp [h])) (fun b' h => hbs b' (by simp [h]))
      rw [compareTiebreakers, List.headD_cons, List.tail_cons]
      split
      · rename_i heq
        subst heq
        simpa using hrest
      · rename_i hne
        split
        · rename_i hlt
          simp [List.cons_lt_cons_iff, hlt, hne]
        · rename_i hge
          simp [List.cons_lt_cons_iff, hge, hne]

theorem HandCategory.toNat_injective : Function.Injective HandCategory.toNat := by
  intro x y h
  cases x <;> cases y <;> first | rfl | cases h

theorem compareHandRank_spec {a b : HandRank} (ha : ∀ t ∈ a.tiebreakers, 0 < t)
    (hb : ∀ t ∈ b.tiebreakers, 0 < t) :
    (compareHandRank a b = .lt ↔ a.key < b.key) ∧ (compareHandRank a b = .eq ↔ a.key = b.key) := by
  obtain ⟨hlt, heq⟩ := compareTiebreakers_spec ha hb
  have hkey : a.key = b.key ↔ a.category = b.category ∧ a.tiebreakers = b.tiebreakers := by
    simp [HandRank.key, HandCategory.toNat_injective.eq_iff]
  rw [hkey, HandRank.key, HandRank.key, Prod.Lex.toLex_lt_toLex]
  unfold compareHandRank
  split
  · rename_i hne
    have hne' := HandCategory.toNat_injective.ne hne
    split
    · rename_i hless
      simp [hless, hne]
    · rename_i hge
      simp [hge, hne, hne']
  · rename_i hsame
    rw [ne_eq, not_not] at hsame
    simp [hsame, hlt, heq]

/-! ## The groups of a hand -/

section Groups

variable {cs : List Card}

theorem mem_ranksDesc {r : Nat} : r ∈ ranksDesc cs ↔ r ∈ ranksOf cs.toFinset := by
  simp [ranksDesc, ranksOf]

theorem count_ranksDesc (hnodup : cs.Nodup) (r : Nat) :
    (ranksDesc cs).count r = multiplicity cs.toFinset r := by
  have hperm : (ranksDesc cs).count r = (cs.map Card.rank).count r :=
    (List.perm_insertionSort _ _).count_eq r
  have hfilter : (cs.toFinset.filter fun c => Card.rank c = r) =
      (cs.filter fun c => Card.rank c = r).toFinset := by
    ext c
    simp
  rw [hperm, multiplicity, hfilter, List.toFinset_card_of_nodup (hnodup.filter _),
    List.count, List.countP_map, List.countP_eq_length_filter]
  rfl

theorem mem_rankGroups {ranks : List Nat} {g : Nat × Nat} :
    g ∈ rankGroups ranks ↔ g.1 ∈ ranks ∧ g.2 = ranks.count g.1 := by
  obtain ⟨r, n⟩ := g
  simp [rankGroups, eq_comm]

def groupKey (g : Nat × Nat) : Nat ×ₗ Nat := toLex (g.2, g.1)

theorem groupKey_injective : Function.Injective groupKey := by
  rintro ⟨r, n⟩ ⟨r', n'⟩ h
  simpa [groupKey, and_comm] using h

theorem insertionSort_groups (groups : List (Nat × Nat)) :
    (groups.insertionSort fun x y => x.2 > y.2 ∨ (x.2 = y.2 ∧ x.1 ≥ y.1)).Pairwise
      fun x y => groupKey y ≤ groupKey x := by
  have hrel : ∀ x y : Nat × Nat,
      (x.2 > y.2 ∨ (x.2 = y.2 ∧ x.1 ≥ y.1)) ↔ groupKey y ≤ groupKey x := by
    intro x y
    rw [groupKey, groupKey, Prod.Lex.toLex_le_toLex]
    exact or_congr Iff.rfl (and_congr_left' eq_comm)
  have htotal : Std.Total fun x y : Nat × Nat => groupKey y ≤ groupKey x :=
    ⟨fun x y => le_total _ _⟩
  have htrans : IsTrans (Nat × Nat) fun x y => groupKey y ≤ groupKey x :=
    ⟨fun _ _ _ hxy hyz => hyz.trans hxy⟩
  simp only [hrel]
  exact List.pairwise_insertionSort _ _

theorem rankGroups_sorted (ranks : List Nat) :
    ((rankGroups ranks).map groupKey).Pairwise (· > ·) := by
  have hsorted : (rankGroups ranks).Pairwise fun x y => groupKey y ≤ groupKey x :=
    insertionSort_groups _
  have hnodup : (rankGroups ranks).Nodup := by
    refine (List.perm_insertionSort _ _).nodup_iff.mpr ?_
    refine (List.nodup_dedup ranks).map ?_
    intro r r' h
    exact (Prod.mk.inj h).1
  rw [List.pairwise_map]
  refine (hsorted.and hnodup).imp ?_
  rintro x y ⟨hle, hne⟩
  exact lt_of_le_of_ne hle fun h => hne (groupKey_injective h).symm

variable (hnodup : cs.Nodup)

include hnodup

theorem sort_groupKeys : (groupKeys cs.toFinset).sort (· ≥ ·) =
    (rankGroups (ranksDesc cs)).map groupKey := by
  refine List.Pairwise.eq_of_mem_iff (r := (· > ·)) (Finset.sortedGT_sort _).pairwise
    (rankGroups_sorted _) fun k => ?_
  simp only [Finset.mem_sort, groupKeys, Finset.mem_image, List.mem_map, mem_rankGroups,
    mem_ranksDesc, count_ranksDesc hnodup]
  constructor
  · rintro ⟨r, hr, rfl⟩
    exact ⟨(r, _), ⟨hr, rfl⟩, rfl⟩
  · rintro ⟨⟨r, n⟩, ⟨hr, hn⟩, rfl⟩
    dsimp only at hr hn
    subst hn
    exact ⟨r, hr, rfl⟩

theorem groupRanks_eq : groupRanks cs.toFinset = (rankGroups (ranksDesc cs)).map (·.1) := by
  rw [groupRanks, sort_groupKeys hnodup, List.map_map]
  rfl

theorem pattern_eq :
    pattern cs.toFinset = Multiset.ofList ((rankGroups (ranksDesc cs)).map (·.2)) := by
  have hvals : (groupKeys cs.toFinset).val = (ranksOf cs.toFinset).val.map
      fun r => toLex (multiplicity cs.toFinset r, r) := by
    refine Finset.image_val_of_injOn fun r _ r' _ h => ?_
    simpa using congrArg (fun k => (ofLex k).2) h
  have hsort := Finset.sort_eq (groupKeys cs.toFinset) (· ≥ ·)
  rw [sort_groupKeys hnodup, hvals] at hsort
  have hfirst := congrArg (Multiset.map fun k : Nat ×ₗ Nat => (ofLex k).1) hsort
  rw [Multiset.map_coe, List.map_map, Multiset.map_map] at hfirst
  exact hfirst.symm

end Groups

/-! ## Patterns -/

theorem Card.eq_of_rank_suit {c d : Card} (hrank : Card.rank c = Card.rank d)
    (hsuit : Card.suit c = Card.suit d) : c = d := by
  have hmod : c % 13 = d % 13 := Nat.add_right_cancel hrank
  rw [← Nat.div_add_mod c 13, ← Nat.div_add_mod d 13, hmod]
  exact congrArg (13 * · + d % 13) hsuit

theorem multiplicity_le_four {hand : Finset Card} (hvalid : ∀ c ∈ hand, c ≤ 51)
    (r : Nat) : multiplicity hand r ≤ 4 := by
  rw [multiplicity, ← Finset.card_range 4]
  refine Finset.card_le_card_of_injOn Card.suit (fun c hc => ?_) fun c hc d hd h => ?_
  · have hle := hvalid c (Finset.mem_filter.mp hc).1
    rw [Finset.coe_range, Set.mem_Iio, Card.suit]
    exact Nat.div_lt_of_lt_mul (Nat.lt_succ_of_le hle)
  · have hc := (Finset.mem_filter.mp hc).2
    have hd := (Finset.mem_filter.mp hd).2
    exact Card.eq_of_rank_suit (hc.trans hd.symm) h

theorem partition_five {counts : List Nat} (hsum : counts.sum = 5) (hpos : ∀ n ∈ counts, 0 < n)
    (hle : ∀ n ∈ counts, n ≤ 4) (hsorted : counts.Pairwise (· ≥ ·)) :
    counts = [4, 1] ∨ counts = [3, 2] ∨ counts = [3, 1, 1] ∨ counts = [2, 2, 1] ∨
      counts = [2, 1, 1, 1] ∨ counts = [1, 1, 1, 1, 1] := by
  match counts with
  | [] => simp at hsum
  | [a] =>
    simp at hsum hle
    omega
  | [a, b] | [a, b, c] | [a, b, c, d] | [a, b, c, d, e] =>
    simp at hsum hpos hle hsorted ⊢
    omega
  | a :: b :: c :: d :: e :: f :: rest =>
    simp at hsum hpos
    omega

section Patterns

variable {cs : List Card}

theorem length_ranksDesc : (ranksDesc cs).length = cs.length := by simp [ranksDesc]

theorem rankGroups_counts (hlen : cs.length = 5) (hcards : DistinctCards cs) :
    let counts := (rankGroups (ranksDesc cs)).map (·.2)
    counts = [4, 1] ∨ counts = [3, 2] ∨ counts = [3, 1, 1] ∨ counts = [2, 2, 1] ∨
      counts = [2, 1, 1, 1] ∨ counts = [1, 1, 1, 1, 1] := by
  obtain ⟨hnodup, hvalid⟩ := hcards
  refine partition_five ?_ ?_ ?_ ?_
  · have hperm := (List.perm_insertionSort (fun x y : Nat × Nat => x.2 > y.2 ∨ (x.2 = y.2 ∧ x.1 ≥
      y.1)) ((ranksDesc cs).dedup.map fun r => (r, (ranksDesc cs).count r))).map (·.2)
    rw [rankGroups, hperm.sum_eq, List.map_map, ← hlen, ← length_ranksDesc]
    exact List.sum_map_count_dedup_eq_length _
  · intro n hn
    obtain ⟨g, hg, rfl⟩ := List.mem_map.mp hn
    obtain ⟨hmem, hcount⟩ := mem_rankGroups.mp hg
    rw [hcount]
    exact List.count_pos_iff.mpr hmem
  · intro n hn
    obtain ⟨g, hg, rfl⟩ := List.mem_map.mp hn
    obtain ⟨-, hcount⟩ := mem_rankGroups.mp hg
    rw [hcount, count_ranksDesc hnodup]
    exact multiplicity_le_four (by simpa using hvalid) _
  · have hsorted := List.pairwise_map.mp (rankGroups_sorted (ranksDesc cs))
    refine List.pairwise_map.mpr (hsorted.imp fun {x y} hlt => ?_)
    rcases Prod.Lex.toLex_lt_toLex.mp hlt with h | ⟨h, -⟩
    · exact h.le
    · exact h.le

theorem map_rankGroups_of_ones (hones : (rankGroups (ranksDesc cs)).map (·.2) = [1, 1, 1, 1, 1]) :
    (rankGroups (ranksDesc cs)).map (·.1) = ranksDesc cs := by
  have hone : ∀ g ∈ rankGroups (ranksDesc cs), g.2 = 1 := by
    intro g hg
    have hmem : g.2 ∈ [1, 1, 1, 1, 1] := hones ▸ List.mem_map_of_mem hg
    simpa using hmem
  have hgroups : ((rankGroups (ranksDesc cs)).map (·.1)).Pairwise (· > ·) := by
    have hsorted := List.pairwise_map.mp (rankGroups_sorted (ranksDesc cs))
    refine List.pairwise_map.mpr (hsorted.imp_of_mem fun {x y} hx hy hlt => ?_)
    rcases Prod.Lex.toLex_lt_toLex.mp hlt with h | ⟨-, h⟩
    · have := hone x hx
      have := hone y hy
      omega
    · exact h
  have hnodup : (ranksDesc cs).Nodup := by
    rw [List.nodup_iff_count_le_one]
    intro r
    by_cases hr : r ∈ ranksDesc cs
    · have hg := mem_rankGroups.mpr ⟨hr, (rfl : (r, (ranksDesc cs).count r).2 = _)⟩
      exact (hone _ hg).le
    · rw [List.count_eq_zero_of_not_mem hr]
      exact Nat.zero_le 1
  have hranks : (ranksDesc cs).Pairwise (· > ·) := by
    refine ((List.pairwise_insertionSort (· ≥ ·) _).and hnodup).imp ?_
    rintro x y ⟨hge, hne⟩
    exact lt_of_le_of_ne hge (Ne.symm hne)
  refine List.Pairwise.eq_of_mem_iff hgroups hranks fun r => ?_
  simp [mem_rankGroups]

end Patterns

/-! ## Straights -/

def straightList (high : Nat) : List Nat :=
  if high = 5 then [14, 5, 4, 3, 2] else [high, high - 1, high - 2, high - 3, high - 4]

theorem straightList_spec : ∀ high ∈ List.range' 5 10,
    (straightList high).toFinset = straightRanks high ∧ (straightList high).Pairwise (· > ·) := by
  decide

variable {uniqueRanksDesc : List Nat} {high : Nat}

theorem toFinset_eq_straightRanks (hsorted : uniqueRanksDesc.Pairwise (· > ·))
    (hhigh : high ∈ List.range' 5 10) :
    uniqueRanksDesc.toFinset = straightRanks high ↔ uniqueRanksDesc = straightList high := by
  obtain ⟨hset, hdesc⟩ := straightList_spec high hhigh
  constructor
  · intro heq
    refine List.Pairwise.eq_of_mem_iff hsorted hdesc fun r => ?_
    rw [← List.mem_toFinset, heq, ← hset, List.mem_toFinset]
  · rintro rfl
    exact hset

theorem straightList_injOn : ∀ x ∈ List.range' 5 10, ∀ y ∈ List.range' 5 10,
    straightList x = straightList y → x = y := by
  decide

theorem find?_straightList (hhigh : high ∈ List.range' 5 10) :
    ((List.range' 5 10).find? fun h => straightList high = straightList h) = some high := by
  cases hfind : (List.range' 5 10).find? fun h => straightList high = straightList h with
  | none =>
    have hnone := List.find?_eq_none.mp hfind high hhigh
    simp at hnone
  | some h =>
    have heq : straightList high = straightList h := by simpa using List.find?_some hfind
    rw [straightList_injOn high hhigh h (List.mem_of_find?_eq_some hfind) heq]

theorem straightHighFromRanksDesc_eq (hsorted : uniqueRanksDesc.Pairwise (· > ·))
    (hbound : ∀ r ∈ uniqueRanksDesc, 2 ≤ r ∧ r ≤ 14) :
    straightHighFromRanksDesc uniqueRanksDesc = (List.range' 5 10).find?
      fun high => uniqueRanksDesc.toFinset = straightRanks high := by
  have hfind : ((List.range' 5 10).find?
      fun high => uniqueRanksDesc.toFinset = straightRanks high) =
      (List.range' 5 10).find? fun high => uniqueRanksDesc = straightList high :=
    List.find?_congr fun high hhigh =>
      decide_eq_decide.mpr (toFinset_eq_straightRanks hsorted hhigh)
  rw [hfind]
  match uniqueRanksDesc with
  | [a, b, c, d, e] =>
    simp only [List.mem_cons, forall_eq_or_imp, List.not_mem_nil] at hbound
    simp only [straightHighFromRanksDesc]
    split
    · rename_i hwheel
      obtain ⟨rfl, rfl, rfl, rfl, rfl⟩ := hwheel
      exact (find?_straightList (by decide)).symm
    · rename_i hwheel
      split
      · rename_i hconsecutive
        have hlist : [a, b, c, d, e] = straightList a := by
          rw [straightList, if_neg (by omega)]
          simp only [List.cons.injEq, and_true, true_and]
          omega
        rw [hlist]
        refine (find?_straightList ?_).symm
        rw [List.mem_range'_1]
        omega
      · rename_i hgap
        refine (List.find?_eq_none.mpr fun high _ heq => ?_).symm
        have heq := of_decide_eq_true heq
        unfold straightList at heq
        split at heq
        · simp only [List.cons.injEq, and_true] at heq
          exact hwheel heq
        · simp only [List.cons.injEq, and_true] at heq
          omega
  | [] | [a] | [a, b] | [a, b, c] | [a, b, c, d] | a :: b :: c :: d :: e :: f :: rest =>
    simp [straightHighFromRanksDesc, straightList, List.range']

section Hands

variable {cs : List Card}

theorem mem_ranksDesc_bounds {r : Nat} (hr : r ∈ ranksDesc cs) : 2 ≤ r ∧ r ≤ 14 := by
  rw [ranksDesc, List.mem_insertionSort, List.mem_map] at hr
  obtain ⟨c, -, rfl⟩ := hr
  have hmod := Nat.mod_lt c (by decide : 13 > 0)
  unfold Card.rank
  omega

theorem dedup_ranksDesc_sorted : (ranksDesc cs).dedup.Pairwise (· > ·) := by
  have hge : (ranksDesc cs).dedup.Pairwise (· ≥ ·) :=
    (List.pairwise_insertionSort (· ≥ ·) _).sublist (List.dedup_sublist _)
  refine (hge.and (List.nodup_dedup _)).imp ?_
  rintro x y ⟨hle, hne⟩
  exact lt_of_le_of_ne hle (Ne.symm hne)

theorem toFinset_dedup_ranksDesc : (ranksDesc cs).dedup.toFinset = ranksOf cs.toFinset := by
  ext r
  simp [mem_ranksDesc]

theorem straightHigh_eq :
    straightHighFromRanksDesc (ranksDesc cs).dedup = straightHigh cs.toFinset := by
  rw [straightHighFromRanksDesc_eq dedup_ranksDesc_sorted
    fun r hr => mem_ranksDesc_bounds (List.mem_dedup.mp hr)]
  simp only [toFinset_dedup_ranksDesc]
  rfl

theorem isFlush_eq : (cs.all fun c => Card.suit c = Card.suit (cs.headD 0)) =
    decide (Flush cs.toFinset) := by
  rw [Bool.eq_iff_iff, List.all_eq_true, decide_eq_true_iff]
  cases cs with
  | nil => simp [Flush]
  | cons first rest =>
    simp only [List.headD_cons, Flush, List.mem_toFinset]
    constructor
    · intro h c hc d hd
      exact (of_decide_eq_true (h c hc)).trans (of_decide_eq_true (h d hd)).symm
    · intro h c hc
      exact decide_eq_true (h c hc first (by simp))

section

variable (hlen : cs.length = 5) (hcards : DistinctCards cs)
include hlen hcards

theorem ones_of_ranks_card (hcard : (ranksOf cs.toFinset).card = 5) :
    (rankGroups (ranksDesc cs)).map (·.2) = [1, 1, 1, 1, 1] := by
  have hlength : ((rankGroups (ranksDesc cs)).map (·.2)).length = 5 := by
    rw [← hcard, ← Multiset.coe_card, ← pattern_eq hcards.1, pattern, Multiset.card_map,
      Finset.card_val]
  rcases rankGroups_counts hlen hcards with h | h | h | h | h | h
  all_goals first | exact h | (rw [h] at hlength; cases hlength)

theorem ones_of_flush (hflush : Flush cs.toFinset) :
    (rankGroups (ranksDesc cs)).map (·.2) = [1, 1, 1, 1, 1] := by
  refine ones_of_ranks_card hlen hcards ?_
  rw [ranksOf, Finset.card_image_of_injOn, List.toFinset_card_of_nodup hcards.1, hlen]
  intro c hc d hd hrank
  exact Card.eq_of_rank_suit hrank (hflush c hc d hd)

theorem ones_of_straight (hstraight : (straightHigh cs.toFinset).isSome) :
    (rankGroups (ranksDesc cs)).map (·.2) = [1, 1, 1, 1, 1] := by
  have hfive : ∀ high ∈ List.range' 5 10, (straightRanks high).card = 5 := by decide
  obtain ⟨high, hhigh⟩ := Option.isSome_iff_exists.mp hstraight
  refine ones_of_ranks_card hlen hcards ?_
  have hranks : ranksOf cs.toFinset = straightRanks high := by simpa using List.find?_some hhigh
  rw [hranks]
  exact hfive high (List.mem_of_find?_eq_some hhigh)

end

def patternCategory (p : Multiset Nat) : HandCategory :=
  if p = {4, 1} then .quads
  else if p = {3, 2} then .fullHouse
  else if p = {3, 1, 1} then .trips
  else if p = {2, 2, 1} then .twoPair
  else if p = {2, 1, 1, 1} then .onePair
  else .highCard

theorem category_of_pattern {hand : Finset Card} (hflush : ¬ Flush hand)
    (hstraight : straightHigh hand = none) :
    category hand = patternCategory (pattern hand) := by
  simp [category, patternCategory, hflush, hstraight]

theorem category_of_ones {hand : Finset Card}
    (hones : pattern hand = Multiset.ofList [1, 1, 1, 1, 1]) :
    category hand =
      if (straightHigh hand).isSome ∧ Flush hand then .straightFlush
      else if Flush hand then .flush
      else if (straightHigh hand).isSome then .straight
      else .highCard := by
  rw [category, hones]
  simp only [show ¬ Multiset.ofList [1, 1, 1, 1, 1] = {4, 1} by decide, show ¬ Multiset.ofList [1,
    1, 1, 1, 1] = {3, 2} by decide, show ¬ Multiset.ofList [1, 1, 1, 1, 1] = {3, 1, 1} by decide,
    show ¬ Multiset.ofList [1, 1, 1, 1, 1] = {2, 2, 1} by decide, show ¬ Multiset.ofList [1, 1, 1,
    1, 1] = {2, 1, 1, 1} by decide, if_false]

def groupedRank (ranks : List Nat) (groups : List (Nat × Nat)) : HandRank :=
  let top := groups.getD 0 (0, 0)
  let next := groups.getD 1 (0, 0)
  if top.2 = 4 then ⟨.quads, [top.1, (kickers groups).headD 0]⟩
  else if top.2 = 3 ∧ next.2 = 2 then ⟨.fullHouse, [top.1, next.1]⟩
  else if top.2 = 3 then ⟨.trips, top.1 :: (kickers groups).insertionSort (· ≥ ·)⟩
  else if top.2 = 2 ∧ next.2 = 2 then
    ⟨.twoPair, [max top.1 next.1, min top.1 next.1, (kickers groups).headD 0]⟩
  else if top.2 = 2 then ⟨.onePair, top.1 :: (kickers groups).insertionSort (· ≥ ·)⟩
  else ⟨.highCard, ranks⟩

theorem rank5_of_groups (hflush : ¬ Flush cs.toFinset)
    (hstraight : straightHigh cs.toFinset = none) :
    rank5 cs = groupedRank (ranksDesc cs) (rankGroups (ranksDesc cs)) := by
  simp only [rank5, groupedRank, isFlush_eq, straightHigh_eq, hflush, hstraight,
    decide_false, Bool.false_eq_true, if_false]

theorem lt_of_groupKey_lt {x y : Nat × Nat} (hlt : groupKey y < groupKey x)
    (hsame : x.2 = y.2) : y.1 < x.1 := by
  rcases Prod.Lex.toLex_lt_toLex.mp hlt with h | ⟨-, h⟩
  · exact absurd hsame h.ne'
  · exact h

theorem groupedRank_eq {ranks : List Nat} {groups : List (Nat × Nat)}
    (hsorted : groups.Pairwise fun x y => groupKey y < groupKey x)
    (hcounts : groups.map (·.2) = [4, 1] ∨ groups.map (·.2) = [3, 2] ∨
      groups.map (·.2) = [3, 1, 1] ∨ groups.map (·.2) = [2, 2, 1] ∨
      groups.map (·.2) = [2, 1, 1, 1] ∨
      groups.map (·.2) = [1, 1, 1, 1, 1] ∧ groups.map (·.1) = ranks) :
    groupedRank ranks groups =
      ⟨patternCategory (Multiset.ofList (groups.map (·.2))), groups.map (·.1)⟩ := by
  rcases hcounts with h | h | h | h | h | ⟨h, rfl⟩
  all_goals
    rw [h]
    simp only [List.map_eq_cons_iff, List.map_eq_nil_iff] at h
  · obtain ⟨⟨a, _⟩, _, rfl, rfl, ⟨b, _⟩, _, rfl, rfl, rfl⟩ := h
    exact congrArg₂ HandRank.mk (by decide) rfl
  · obtain ⟨⟨a, _⟩, _, rfl, rfl, ⟨b, _⟩, _, rfl, rfl, rfl⟩ := h
    exact congrArg₂ HandRank.mk (by decide) rfl
  · obtain ⟨⟨a, _⟩, _, rfl, rfl, ⟨b, _⟩, _, rfl, rfl, ⟨c, _⟩, _, rfl, rfl, rfl⟩ := h
    simp only [List.pairwise_cons, List.mem_cons, forall_eq_or_imp] at hsorted
    have hbc := lt_of_groupKey_lt hsorted.2.1.1 rfl
    refine congrArg₂ HandRank.mk (by decide) ?_
    change a :: [b, c].insertionSort (· ≥ ·) = [a, b, c]
    rw [List.Pairwise.insertionSort_eq (by simp; omega)]
  · obtain ⟨⟨a, _⟩, _, rfl, rfl, ⟨b, _⟩, _, rfl, rfl, ⟨c, _⟩, _, rfl, rfl, rfl⟩ := h
    simp only [List.pairwise_cons, List.mem_cons, forall_eq_or_imp] at hsorted
    have hab := lt_of_groupKey_lt hsorted.1.1 rfl
    refine congrArg₂ HandRank.mk (by decide) ?_
    change [max a b, min a b, c] = [a, b, c]
    rw [max_eq_left hab.le, min_eq_right hab.le]
  · obtain ⟨⟨a, _⟩, _, rfl, rfl, ⟨b, _⟩, _, rfl, rfl, ⟨c, _⟩, _, rfl, rfl, ⟨d, _⟩, _, rfl,
      rfl, rfl⟩ := h
    simp only [List.pairwise_cons, List.mem_cons, forall_eq_or_imp] at hsorted
    have hbc := lt_of_groupKey_lt hsorted.2.1.1 rfl
    have hcd := lt_of_groupKey_lt hsorted.2.2.1.1 rfl
    refine congrArg₂ HandRank.mk (by decide) ?_
    change a :: [b, c, d].insertionSort (· ≥ ·) = [a, b, c, d]
    rw [List.Pairwise.insertionSort_eq (by simp; omega)]
  · obtain ⟨⟨a, _⟩, _, rfl, rfl, _⟩ := h
    exact congrArg₂ HandRank.mk (by decide) rfl

theorem rank5_of_ones (hnodup : cs.Nodup)
    (hones : (rankGroups (ranksDesc cs)).map (·.2) = [1, 1, 1, 1, 1]) :
    rank5 cs = ⟨category cs.toFinset,
      (straightHigh cs.toFinset).elim (ranksDesc cs) fun high => [high]⟩ := by
  have htop : ((rankGroups (ranksDesc cs)).getD 0 (0, 0)).2 = 1 := by
    obtain ⟨g, rest, hlist, hone, -⟩ := List.map_eq_cons_iff.mp hones
    rw [hlist]
    exact hone
  have hpattern := pattern_eq hnodup
  rw [hones] at hpattern
  rw [category_of_ones hpattern]
  simp only [rank5, isFlush_eq, straightHigh_eq, htop]
  cases straightHigh cs.toFinset with
  | none | some high => by_cases hflush : Flush cs.toFinset <;> simp [hflush]

section

variable (hlen : cs.length = 5) (hcards : DistinctCards cs)
include hlen hcards

theorem rank5_eq : rank5 cs = ⟨category cs.toFinset,
      (straightHigh cs.toFinset).elim (groupRanks cs.toFinset) fun high => [high]⟩ := by
  rw [groupRanks_eq hcards.1]
  by_cases hones : (rankGroups (ranksDesc cs)).map (·.2) = [1, 1, 1, 1, 1]
  · rw [map_rankGroups_of_ones hones]
    exact rank5_of_ones hcards.1 hones
  · have hflush : ¬ Flush cs.toFinset := fun h => hones (ones_of_flush hlen hcards h)
    have hstraight : straightHigh cs.toFinset = none := by
      rw [← Option.not_isSome_iff_eq_none]
      exact fun h => hones (ones_of_straight hlen hcards h)
    have hcounts := rankGroups_counts hlen hcards
    have hsorted := List.pairwise_map.mp (rankGroups_sorted (ranksDesc cs))
    rw [rank5_of_groups hflush hstraight, category_of_pattern hflush hstraight,
      pattern_eq hcards.1, hstraight]
    exact groupedRank_eq hsorted (by tauto)

theorem rank5_key : (rank5 cs).key = standing cs.toFinset := by
  rw [rank5_eq hlen hcards]
  rfl

theorem rank5_pos : ∀ t ∈ (rank5 cs).tiebreakers, 0 < t := by
  rw [rank5_eq hlen hcards]
  cases hstraight : straightHigh cs.toFinset with
  | none =>
    intro t ht
    simp only [Option.elim_none, groupRanks_eq hcards.1, List.mem_map] at ht
    obtain ⟨g, hg, rfl⟩ := ht
    have hbounds := mem_ranksDesc_bounds (mem_rankGroups.mp hg).1
    omega
  | some high =>
    have hmem := List.mem_of_find?_eq_some hstraight
    rw [List.mem_range'_1] at hmem
    simp only [Option.elim_some, List.mem_singleton, forall_eq]
    omega

end

end Hands

end OnChainPoker.Holdem
