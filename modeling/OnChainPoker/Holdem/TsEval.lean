import OnChainPoker.Holdem.BestHand

/-!
# The evaluator of the TypeScript package

`packages/holdem-eval`, with exceptions as errors. The keys of the record of hole
cards are array indices, which `Object.entries` lists in ascending order.
-/

namespace OnChainPoker.Holdem

namespace Ts

open Foundation
open Poker (SeatIdx)

def assertValidCardId (card : Nat) : Except String Unit :=
  rejectIf (card > 51) s!"Invalid card id {card}; expected integer in [0, 51]."

def cardSuit (card : Nat) : Except String Nat := do
  assertValidCardId card
  pure (card / 13)

def cardRank (card : Nat) : Except String Nat := do
  assertValidCardId card
  pure (card % 13 + 2)

def compareHandRank (a b : HandRank) : Int :=
  if a.category ≠ b.category then
    if a.category.toNat < b.category.toNat then -1 else 1
  else
    ((List.range (max a.tiebreakers.length b.tiebreakers.length)).findSome? fun i =>
      if a.tiebreakers.getD i 0 ≠ b.tiebreakers.getD i 0 then
        some (if a.tiebreakers.getD i 0 < b.tiebreakers.getD i 0 then (-1 : Int) else 1)
      else none).getD 0

def assertDistinctFrom (label : String) : List Nat → List Nat → Except String Unit
  | _, [] => pure ()
  | seen, c :: rest => do
      assertValidCardId c
      rejectIf (c ∈ seen) s!"{label} contains duplicate card id {c}."
      assertDistinctFrom label (c :: seen) rest

def assertDistinct (cards : List Nat) (label : String) : Except String Unit :=
  assertDistinctFrom label [] cards

def straightHighFromRanksDesc (uniqueRanksDesc : List Nat) : Option Nat :=
  match uniqueRanksDesc with
  | [a, b, c, d, e] =>
    if a = 14 ∧ b = 5 ∧ c = 4 ∧ d = 3 ∧ e = 2 then some 5
    else if (a : Int) - 1 ≠ b then none
    else if (b : Int) - 1 ≠ c then none
    else if (c : Int) - 1 ≠ d then none
    else if (d : Int) - 1 ≠ e then none
    else some a
  | _ => none

def ranksDesc (cards : List Nat) : Except String (List Nat) := do
  let ranks ← cards.mapM cardRank
  pure (ranks.insertionSort (· ≥ ·))

/-- `counts.set(r, (counts.get(r) ?? 0) + 1)`; a new key goes to the end. -/
def bump : List (Nat × Nat) → Nat → List (Nat × Nat)
  | [], r => [(r, 1)]
  | (k, n) :: rest, r => if k = r then (k, n + 1) :: rest else (k, n) :: bump rest r

def countRanks (ranks : List Nat) : List (Nat × Nat) := ranks.foldl bump []

def sortGroups (counts : List (Nat × Nat)) : List (Nat × Nat) :=
  counts.insertionSort fun x y => x.2 > y.2 ∨ (x.2 = y.2 ∧ x.1 ≥ y.1)

def kicker (groups : List (Nat × Nat)) : Except String Nat := do
  let g ← require (groups.find? fun g => g.2 = 1) "cannot read properties of undefined"
  pure g.1

def kickers (groups : List (Nat × Nat)) : List Nat :=
  ((groups.filter fun g => g.2 = 1).map (·.1)).insertionSort (· ≥ ·)

def evaluate5 (cards5 : List Nat) : Except String HandRank := do
  rejectIf (cards5.length ≠ 5) s!"evaluate5 expected 5 cards, got {cards5.length}."
  assertDistinct cards5 "cards5"
  let suits ← cards5.mapM cardSuit
  let isFlush := suits.all fun s => s = suits.headD 0
  let ranks ← ranksDesc cards5
  let counts := countRanks ranks
  let uniqueRanksDesc := (counts.map (·.1)).insertionSort (· ≥ ·)
  let straightHigh := straightHighFromRanksDesc uniqueRanksDesc
  let groups := sortGroups counts
  let top := groups.getD 0 (0, 0)
  let next := groups.getD 1 (0, 0)
  match straightHigh, isFlush with
  | some high, true => pure ⟨.straightFlush, [high]⟩
  | _, _ =>
    if top.2 = 4 then do
      let k ← kicker groups
      pure ⟨.quads, [top.1, k]⟩
    else if top.2 = 3 ∧ next.2 = 2 then pure ⟨.fullHouse, [top.1, next.1]⟩
    else if isFlush then pure ⟨.flush, ranks⟩
    else match straightHigh with
    | some high => pure ⟨.straight, [high]⟩
    | none =>
      if top.2 = 3 then pure ⟨.trips, top.1 :: kickers groups⟩
      else if top.2 = 2 ∧ next.2 = 2 then do
        let pairRanks := [top.1, next.1].insertionSort (· ≥ ·)
        let k ← kicker groups
        pure ⟨.twoPair, [pairRanks.getD 0 0, pairRanks.getD 1 0, k]⟩
      else if top.2 = 2 then pure ⟨.onePair, top.1 :: kickers groups⟩
      else pure ⟨.highCard, ranks⟩

def evaluate7 (cards7 : List Nat) : Except String HandRank := do
  rejectIf (cards7.length ≠ 7) s!"evaluate7 expected 7 cards, got {cards7.length}."
  assertDistinct cards7 "cards7"
  let best ← combos7Choose5.foldlM (fun best idx => do
    let rank ← evaluate5 (idx.map fun i => cards7.getD i 0)
    pure (match best with
      | none => some rank
      | some b => if compareHandRank rank b = 1 then some rank else some b)) none
  require best "cannot read properties of null"

def considerEntry (board5 : List Nat) (best : Option (HandRank × List Nat))
    (entry : Nat × (Nat × Nat)) : Except String (Option (HandRank × List Nat)) := do
  let (seat, hole) := entry
  assertDistinct (board5 ++ [hole.1, hole.2]) s!"seat {seat} cards"
  let rank ← evaluate7 (board5 ++ [hole.1, hole.2])
  pure (match best with
    | none => some (rank, [seat])
    | some (bestRank, bestSeats) =>
      let cmp := compareHandRank rank bestRank
      if cmp = 1 then some (rank, [seat])
      else if cmp = 0 then some (bestRank, bestSeats ++ [seat])
      else some (bestRank, bestSeats))

def winners (board5 : List Nat) (holeCardsBySeat : List (Nat × (Nat × Nat))) :
    Except String (List Nat) := do
  rejectIf (board5.length ≠ 5) s!"winners expected 5 board cards, got {board5.length}."
  assertDistinct board5 "board5"
  let entries := holeCardsBySeat.insertionSort (·.1 ≤ ·.1)
  let best ← entries.foldlM (considerEntry board5) none
  let bestSeats := (best.map (·.2)).getD []
  pure (bestSeats.insertionSort (· ≤ ·))

/-! ## Checks -/

theorem assertValidCardId_ok {card : Nat} (hvalid : card ≤ 51) : assertValidCardId card = .ok () :=
  rejectIf_of_not (by omega)

variable {cards cards5 : List Nat}

theorem assertDistinctFrom_ok (label : String) {seen : List Nat}
    (hcards : DistinctCards cards) (hseen : ∀ c ∈ cards, c ∉ seen) :
    assertDistinctFrom label seen cards = .ok () := by
  induction cards generalizing seen with
  | nil => rfl
  | cons c rest ih =>
    obtain ⟨hnodup, hvalid⟩ := hcards
    rw [List.nodup_cons] at hnodup
    rw [assertDistinctFrom, assertValidCardId_ok (hvalid c (by simp)), ok_bind,
      rejectIf_bind (hseen c (by simp))]
    refine ih ⟨hnodup.2, fun d hd => hvalid d (by simp [hd])⟩ fun d hd => ?_
    rw [List.mem_cons, not_or]
    refine ⟨?_, hseen d (by simp [hd])⟩
    rintro rfl
    exact hnodup.1 hd

theorem assertDistinct_ok (label : String) (hcards : DistinctCards cards) :
    assertDistinct cards label = .ok () :=
  assertDistinctFrom_ok label hcards (by simp)

theorem mapM_of_valid {f : Nat → Except String Nat} {g : Nat → Nat}
    (hf : ∀ c ∈ cards, f c = .ok (g c)) : cards.mapM f = .ok (cards.map g) := by
  rw [mapM_eq_ok_iff, List.forall₂_map_right_iff, List.forall₂_same]
  exact hf

theorem ranksDesc_ok (hcards : DistinctCards cards) :
    ranksDesc cards = .ok (Holdem.ranksDesc cards) := by
  rw [ranksDesc, mapM_of_valid (g := Card.rank) fun c hc => by
    rw [cardRank, assertValidCardId_ok (hcards.2 c hc), ok_bind]
    rfl]
  rfl

theorem suits_ok (hcards : DistinctCards cards) : cards.mapM cardSuit = .ok (cards.map Card.suit) :=
  mapM_of_valid fun c hc => by
    rw [cardSuit, assertValidCardId_ok (hcards.2 c hc), ok_bind]
    rfl

/-! ## Counting ranks -/

theorem bump_map {keys : List Nat} (hnodup : keys.Nodup) (count : Nat → Nat) (r : Nat) :
    bump (keys.map fun k => (k, count k)) r =
      if r ∈ keys then keys.map fun k => (k, if k = r then count k + 1 else count k)
      else keys.map (fun k => (k, count k)) ++ [(r, 1)] := by
  induction keys with
  | nil => rfl
  | cons k rest ih =>
    rw [List.nodup_cons] at hnodup
    rw [List.map_cons, bump]
    by_cases hk : k = r
    · subst hk
      have hrest : rest.map (fun x => (x, if x = k then count x + 1 else count x)) =
          rest.map fun x => (x, count x) := by
        refine List.map_congr_left fun x hx => ?_
        have hne : x ≠ k := fun h => hnodup.1 (h ▸ hx)
        rw [if_neg hne]
      simp [hrest]
    · rw [if_neg hk, ih hnodup.2]
      by_cases hr : r ∈ rest
      · simp [hr, hk]
      · simp [hr, Ne.symm hk]

theorem countRanks_spec (ranks : List Nat) :
    ∃ keys : List Nat, keys.Nodup ∧ (∀ k, k ∈ keys ↔ k ∈ ranks) ∧
      countRanks ranks = keys.map fun k => (k, ranks.count k) := by
  induction ranks using List.reverseRecOn with
  | nil => exact ⟨[], by simp, by simp, rfl⟩
  | append_singleton ranks r ih =>
    obtain ⟨keys, hnodup, hmem, hcounts⟩ := ih
    have hnext : countRanks (ranks ++ [r]) = bump (countRanks ranks) r := by
      rw [countRanks, List.foldl_append]
      rfl
    rw [hnext, hcounts, bump_map hnodup]
    split
    · rename_i hr
      refine ⟨keys, hnodup, fun k => ?_, List.map_congr_left fun k _ => ?_⟩
      · rw [hmem, List.mem_append, List.mem_singleton, iff_self_or]
        rintro rfl
        exact (hmem k).mp hr
      · by_cases hk : k = r
        · simp [hk]
        · simp [hk, Ne.symm hk]
    · rename_i hr
      refine ⟨keys ++ [r], ?_, fun k => ?_, ?_⟩
      · rw [List.nodup_append]
        refine ⟨hnodup, by simp, ?_⟩
        intro a ha b hb
        rw [List.mem_singleton] at hb
        rintro rfl
        exact hr (hb ▸ ha)
      · simp [hmem]
      · have hold : keys.map (fun k => (k, (ranks ++ [r]).count k)) =
            keys.map fun k => (k, ranks.count k) := by
          refine List.map_congr_left fun k hk => ?_
          have hne : r ≠ k := fun h => hr (h ▸ hk)
          simp [hne]
        have hfresh : ranks.count r = 0 :=
          List.count_eq_zero_of_not_mem fun h => hr ((hmem r).mpr h)
        rw [List.map_append, hold]
        simp [hfresh]

theorem countRanks_perm (ranks : List Nat) :
    (countRanks ranks).Perm (ranks.dedup.map fun r => (r, ranks.count r)) := by
  obtain ⟨keys, hnodup, hmem, hcounts⟩ := countRanks_spec ranks
  rw [hcounts]
  refine List.Perm.map _ ((List.perm_ext_iff_of_nodup hnodup (List.nodup_dedup _)).mpr ?_)
  simpa using hmem

theorem sortGroups_eq (ranks : List Nat) : sortGroups (countRanks ranks) = rankGroups ranks := by
  refine List.Perm.eq_of_pairwise (fun x y _ _ hxy hyx => ?_)
    (insertionSort_groups (countRanks ranks)) (insertionSort_groups _) ?_
  · exact groupKey_injective (le_antisymm hyx hxy)
  · exact (List.perm_insertionSort _ _).trans
      ((countRanks_perm ranks).trans (List.perm_insertionSort _ _).symm)

theorem uniqueRanks_eq (cards : List Nat) :
    ((countRanks (Holdem.ranksDesc cards)).map (·.1)).insertionSort (· ≥ ·) =
      (Holdem.ranksDesc cards).dedup := by
  have hperm := (countRanks_perm (Holdem.ranksDesc cards)).map Prod.fst
  rw [List.map_map] at hperm
  have hkeys : (Prod.fst ∘ fun r => (r, (Holdem.ranksDesc cards).count r)) = id := rfl
  rw [hkeys, List.map_id] at hperm
  have hsorted : (Holdem.ranksDesc cards).dedup.Pairwise (· ≥ ·) :=
    dedup_ranksDesc_sorted.imp fun h => le_of_lt h
  exact List.Perm.eq_of_pairwise' (List.pairwise_insertionSort _ _) hsorted
    ((List.perm_insertionSort _ _).trans hperm)

/-! ## The same ranks -/

theorem straightHighFromRanksDesc_eq {ranks : List Nat} (hpos : ∀ r ∈ ranks, 0 < r) :
    straightHighFromRanksDesc ranks = Holdem.straightHighFromRanksDesc ranks := by
  match ranks with
  | [a, b, c, d, e] =>
    simp only [List.mem_cons, forall_eq_or_imp, List.not_mem_nil] at hpos
    simp only [straightHighFromRanksDesc, Holdem.straightHighFromRanksDesc]
    split
    · rfl
    · by_cases hall : a - 1 = b ∧ b - 1 = c ∧ c - 1 = d ∧ d - 1 = e
      · rw [if_neg (by omega), if_neg (by omega), if_neg (by omega), if_neg (by omega), if_pos hall]
      · rw [if_neg hall]
        split_ifs
        all_goals first | rfl | omega
  | [] | [a] | [a, b] | [a, b, c] | [a, b, c, d] | a :: b :: c :: d :: e :: f :: rest => rfl

theorem kicker_eq {groups : List (Nat × Nat)} (hone : ∃ g ∈ groups, g.2 = 1) :
    kicker groups = .ok ((Holdem.kickers groups).headD 0) := by
  cases hfind : groups.find? fun g => g.2 = 1 with
  | none =>
    obtain ⟨g, hg, h⟩ := hone
    exact absurd h (by simpa using List.find?_eq_none.mp hfind g hg)
  | some g =>
    have hhead : (groups.filter fun g => g.2 = 1).head? = some g := by
      rw [List.head?_filter]
      exact hfind
    obtain ⟨rest, hfilter⟩ := List.head?_eq_some_iff.mp hhead
    rw [kicker, hfind, Holdem.kickers, hfilter]
    rfl

theorem pairRanks_eq (a b : Nat) : [a, b].insertionSort (· ≥ ·) = [max a b, min a b] := by
  by_cases h : a ≥ b
  · rw [List.Pairwise.insertionSort_eq (by simpa using h), max_eq_left h, min_eq_right h]
  · have hle : a ≤ b := by omega
    rw [max_eq_right hle, min_eq_left hle]
    simp [List.insertionSort, List.orderedInsert, h]

theorem exists_kicker (hlen : cards5.length = 5) (hcards : DistinctCards cards5)
    (htop : ((rankGroups (Holdem.ranksDesc cards5)).getD 0 (0, 0)).2 = 4 ∨
      ((rankGroups (Holdem.ranksDesc cards5)).getD 1 (0, 0)).2 = 2 ∧
        ((rankGroups (Holdem.ranksDesc cards5)).getD 0 (0, 0)).2 = 2) :
    ∃ g ∈ rankGroups (Holdem.ranksDesc cards5), g.2 = 1 := by
  have hmem : 1 ∈ (rankGroups (Holdem.ranksDesc cards5)).map (·.2) := by
    rcases rankGroups_counts hlen hcards with h | h | h | h | h | h
    case inr.inl =>
      obtain ⟨g, rest, hlist, hthree, htwo⟩ := List.map_eq_cons_iff.mp h
      rw [hlist] at htop
      simp only [List.getD_cons_zero] at htop
      omega
    all_goals
      rw [h]
      decide
  obtain ⟨g, hg, hone⟩ := List.mem_map.mp hmem
  exact ⟨g, hg, hone⟩

theorem evaluate5_eq (hlen : cards5.length = 5) (hcards : DistinctCards cards5) :
    evaluate5 cards5 = .ok (rank5 cards5) := by
  have hsuits : ((cards5.map Card.suit).all fun s => s = (cards5.map Card.suit).headD 0) =
      cards5.all fun c => Card.suit c = Card.suit (cards5.headD 0) := by
    cases cards5 with
    | nil => rfl
    | cons c rest =>
      rw [List.all_map]
      rfl
  have hpos : ∀ r ∈ (Holdem.ranksDesc cards5).dedup, 0 < r := by
    intro r hr
    have hbounds := mem_ranksDesc_bounds (List.mem_dedup.mp hr)
    omega
  rw [evaluate5, rejectIf_bind (by simp [hlen]), assertDistinct_ok _ hcards,
    ok_bind, suits_ok hcards, ok_bind, ranksDesc_ok hcards, ok_bind]
  dsimp only
  rw [hsuits, uniqueRanks_eq, sortGroups_eq, straightHighFromRanksDesc_eq hpos, rank5]
  have hkicker := exists_kicker hlen hcards
  generalize Holdem.straightHighFromRanksDesc (Holdem.ranksDesc cards5).dedup = straight
  generalize (cards5.all fun c => Card.suit c = Card.suit (cards5.headD 0)) = flush
  generalize rankGroups (Holdem.ranksDesc cards5) = groups at hkicker ⊢
  by_cases hquads : (groups.getD 0 (0, 0)).2 = 4
  · rw [kicker_eq (hkicker (.inl hquads))]
    simp only [hquads]
    cases straight <;> cases flush <;> rfl
  · by_cases hpairs : (groups.getD 0 (0, 0)).2 = 2 ∧ (groups.getD 1 (0, 0)).2 = 2
    · rw [kicker_eq (hkicker (.inr hpairs.symm)), pairRanks_eq]
      simp only [hpairs]
      cases straight <;> cases flush <;> rfl
    · simp only [hquads, hpairs, if_false]
      cases straight <;> cases flush <;> dsimp only <;> first | rfl | (split_ifs <;> rfl)

def sign : Ordering → Int
  | .lt => -1
  | .eq => 0
  | .gt => 1

def compareAt (as bs : List Nat) (i : Nat) : Option Int :=
  if as.getD i 0 ≠ bs.getD i 0 then some (if as.getD i 0 < bs.getD i 0 then -1 else 1)
  else none

theorem compareAt_succ (as bs : List Nat) (i : Nat) :
    compareAt as bs (i + 1) = compareAt as.tail bs.tail i := by
  cases as <;> cases bs <;> rfl

theorem findSome_succ (as bs : List Nat) (n : Nat) :
    (List.range (n + 1)).findSome? (compareAt as bs) =
      (compareAt as bs 0).or ((List.range n).findSome? (compareAt as.tail bs.tail)) := by
  have hshift : compareAt as bs ∘ Nat.succ = compareAt as.tail bs.tail :=
    funext fun i => compareAt_succ as bs i
  rw [List.range_succ_eq_map, List.findSome?_cons, List.findSome?_map, hshift]
  cases compareAt as bs 0 <;> rfl

theorem findSome_tiebreakers (as bs : List Nat) :
    ((List.range (max as.length bs.length)).findSome? (compareAt as bs)).getD 0 =
      sign (compareTiebreakers as bs) := by
  induction as generalizing bs with
  | nil =>
    induction bs with
    | nil => rfl
    | cons b bs ih =>
      rw [List.length_nil, Nat.zero_max, List.length_cons, findSome_succ]
      rw [List.length_nil, Nat.zero_max] at ih
      by_cases hb : b = 0
      · subst hb
        have hhead : compareAt [] (0 :: bs) 0 = none := rfl
        rw [hhead, Option.none_or, List.tail_nil, List.tail_cons, ih]
        simp [compareTiebreakers]
      · have hhead : compareAt [] (b :: bs) 0 = some (-1) := by
          simp [compareAt, Ne.symm hb, Nat.pos_of_ne_zero hb]
        rw [hhead, compareTiebreakers, if_neg (by simp [hb])]
        rfl
  | cons a as ih =>
    have hlength : max (a :: as).length bs.length = max as.length bs.tail.length + 1 := by
      rw [List.length_cons, List.length_tail]
      omega
    rw [hlength, findSome_succ, compareTiebreakers]
    have hhead : compareAt (a :: as) bs 0 =
        if a ≠ bs.headD 0 then some (if a < bs.headD 0 then -1 else 1) else none := by
      cases bs <;> rfl
    rw [hhead]
    by_cases heq : a = bs.headD 0
    · rw [if_neg (by simpa using heq), if_pos heq, Option.none_or, List.tail_cons, ih]
    · rw [if_pos heq, if_neg heq]
      split <;> rfl

theorem compareHandRank_eq (a b : HandRank) :
    compareHandRank a b = sign (Holdem.compareHandRank a b) := by
  unfold compareHandRank Holdem.compareHandRank
  split
  · split <;> rfl
  · exact findSome_tiebreakers a.tiebreakers b.tiebreakers

theorem sign_eq_one {o : Ordering} : sign o = 1 ↔ o = .gt := by
  cases o <;> decide

theorem evaluate7_eq {cards7 : List Nat} (hlen : cards7.length = 7) (hcards : DistinctCards cards7)
    {r : HandRank} (hr : Holdem.evaluate7 cards7 = .ok r) : evaluate7 cards7 = .ok r := by
  have hstep : ∀ idx ∈ combos7Choose5, ∀ best : Option HandRank, (do
      let rank ← evaluate5 (idx.map fun i => cards7.getD i 0)
      pure (match best with
        | none => some rank
        | some b => if compareHandRank rank b = 1 then some rank else some b) :
      Except String (Option HandRank)) = .ok (keepBest best (rank5 (pick cards7 idx))) := by
    intro idx hidx best
    obtain ⟨hfive, hdistinct⟩ := pick_spec hlen hcards hidx
    have hrank : evaluate5 (idx.map fun i => cards7.getD i 0) =
        .ok (rank5 (pick cards7 idx)) := evaluate5_eq hfive hdistinct
    rw [hrank, ok_bind]
    cases best with
    | none => rfl
    | some b =>
      simp only [compareHandRank_eq, sign_eq_one]
      rfl
  rw [evaluate7_eq_foldl hlen hcards, require_eq_ok, List.foldl_map] at hr
  rw [evaluate7, rejectIf_bind (by simp [hlen]), assertDistinct_ok _ hcards, ok_bind]
  refine (congrArg (· >>= fun best => require best "cannot read properties of null")
    (foldlM_eq_foldl hstep none)).trans ?_
  rw [hr]
  rfl

/-! ## The same winners -/

def toRecord (e : Entry) : Nat × (Nat × Nat) := (e.seat.val, e.hole)

def toSeats (best : HandRank × List SeatIdx) : HandRank × List Nat :=
  (best.1, best.2.map Fin.val)

section Winners

variable {board5 : List Nat} {entries : List Entry} (hlen : board5.length = 5)
  (hcards : ∀ e ∈ entries, DistinctCards (e.cards7 board5))

include hlen hcards

theorem considerEntry_eq {e : Entry} (he : e ∈ entries) (best : Option (HandRank × List SeatIdx)) :
    considerEntry board5 (best.map toSeats) (toRecord e) =
      .ok ((keepTied best (e.seat, entryRank board5 e)).map toSeats) := by
  have hdistinct := hcards e he
  have hr := evaluate7_eq (by simp [Entry.cards7, hlen]) hdistinct (entryRank_spec hlen hcards he).1
  simp only [Entry.cards7] at hr hdistinct
  rw [considerEntry]
  dsimp only [toRecord]
  rw [assertDistinct_ok _ hdistinct, ok_bind, hr, ok_bind]
  cases best with
  | none => rfl
  | some b =>
    simp only [Option.map_some, compareHandRank_eq, keepTied, toSeats]
    cases Holdem.compareHandRank (entryRank board5 e) b.1 <;>
      simp [sign, toSeats, pure_ok_iff]

theorem foldlM_considerEntry {sorted : List Entry} (hsub : ∀ e ∈ sorted, e ∈ entries)
    (best : Option (HandRank × List SeatIdx)) :
    (sorted.map toRecord).foldlM (considerEntry board5) (best.map toSeats) =
      .ok (((sorted.map fun e => (e.seat, entryRank board5 e)).foldl keepTied best).map
        toSeats) := by
  induction sorted generalizing best with
  | nil => rfl
  | cons e rest ih =>
    rw [List.map_cons, List.foldlM_cons, considerEntry_eq hlen hcards (hsub e (by simp)),
      ok_bind, ih fun e' h => hsub e' (by simp [h])]
    rfl

theorem winners_eq_bestSeats (hne : entries ≠ []) (hseats : (entries.map Entry.seat).Nodup) :
    winners board5 (entries.map toRecord) = .ok ((bestSeats board5 entries).map Fin.val) := by
  have hsort : (entries.map toRecord).insertionSort (fun a b => a.1 ≤ b.1) =
      (entries.insertionSort fun a b => a.seat ≤ b.seat).map toRecord :=
    (List.map_insertionSort _ _ toRecord entries fun a _ b _ => Iff.rfl).symm
  obtain ⟨top, hfold⟩ := foldl_entries hlen hcards hne
    (fun e => List.mem_insertionSort _) (sortedEntries_seats hseats)
  have hloop := foldlM_considerEntry hlen hcards
    (fun e he => (List.mem_insertionSort fun a b : Entry => a.seat ≤ b.seat).mp he) none
  rw [hfold] at hloop
  have hascending : ((bestSeats board5 entries).map Fin.val).Pairwise (· ≤ ·) :=
    List.pairwise_map.mpr (Finset.pairwise_sort _ _)
  rw [winners, rejectIf_bind (by simp [hlen]),
    assertDistinct_ok _ (distinct_board hcards hne), ok_bind]
  rw [hsort]
  refine (congrArg (· >>= _) hloop).trans ?_
  exact congrArg Except.ok hascending.insertionSort_eq

end Winners

end Ts

/-- Both evaluators name the seats whose best five cards are greatest in the standard
ranking, whatever the order of the cards and the names of the suits. -/
theorem winners_standard (board5 : List Card) (entries : List Entry)
    (hlen : board5.length = 5) (hne : entries ≠ [])
    (hseats : (entries.map Entry.seat).Nodup)
    (hcards : ∀ e ∈ entries, DistinctCards (e.cards7 board5)) :
    winners board5 entries = .ok (bestSeats board5 entries) ∧
      Ts.winners board5 (entries.map Ts.toRecord) =
        .ok ((bestSeats board5 entries).map Fin.val) ∧
      ∀ σ board5' entries', Redealt σ board5 entries board5' entries' →
        winners board5' entries' = .ok (bestSeats board5 entries) ∧
        Ts.winners board5' (entries'.map Ts.toRecord) =
          .ok ((bestSeats board5 entries).map Fin.val) := by
  refine ⟨winners_eq_bestSeats hlen hcards hne hseats,
    Ts.winners_eq_bestSeats hlen hcards hne hseats, ?_⟩
  intro σ board5' entries' hredealt
  have hlen' : board5'.length = 5 := by
    rw [hredealt.board.length_eq, List.length_map, hlen]
  have hne' : entries' ≠ [] := by
    obtain ⟨e, he⟩ := List.exists_mem_of_ne_nil entries hne
    obtain ⟨e', he', -⟩ := hredealt.forth e he
    exact List.ne_nil_of_mem he'
  have hcards' := hredealt.distinct hcards
  rw [← hredealt.bestSeats_eq hcards]
  exact ⟨winners_eq_bestSeats hlen' hcards' hne' hredealt.seats,
    Ts.winners_eq_bestSeats hlen' hcards' hne' hredealt.seats⟩

theorem winners_standard_wheel :
    winners [12, 25, 3, 16, 0] [⟨4, (1, 2)⟩, ⟨2, (38, 51)⟩] = .ok [4] ∧
      bestSeats [12, 25, 3, 16, 0] [⟨4, (1, 2)⟩, ⟨2, (38, 51)⟩] = [4] := by
  have hstandard := (winners_standard [12, 25, 3, 16, 0] [⟨4, (1, 2)⟩, ⟨2, (38, 51)⟩] rfl
    (by decide) (by decide) (by decide)).1
  have hgo : winners [12, 25, 3, 16, 0] [⟨4, (1, 2)⟩, ⟨2, (38, 51)⟩] = .ok [4] := by
    decide +kernel
  exact ⟨hgo, Except.ok.inj (hstandard.symm.trans hgo)⟩

end OnChainPoker.Holdem
