import OnChainPoker.Poker.Levels

/-!
# What a settlement pays

A showdown pays chip level by chip level to the best hands, and never more than the
winner has covered. A hand that ends by folds pays the whole pot to the seat that is
left, covered or not.
-/

namespace OnChainPoker.Poker

open Foundation Holdem

variable {i : SeatIdx} {contending : List SeatIdx}

/-! ## The payout of a showdown -/

def showdownEntry (seats : Seats) (i : SeatIdx) : Entry :=
  ⟨i, toCard ((seats i).hole 0), toCard ((seats i).hole 1)⟩

def bestAmong (seats : Seats) (h : Hand) (contending : List SeatIdx) : List SeatIdx :=
  bestSeats (showdownBoard h) (contending.map (showdownEntry seats))

def showdownPayout (seats : Seats) (h : Hand) (i : SeatIdx) : Nat :=
  ∑ contending ∈ levelRuns h.totalCommit (inHandNotFolded h),
    potShare (bestAmong seats h contending)
      (levelSum h.totalCommit (inHandNotFolded h) (· = contending)) i

def CardsDealt (seats : Seats) (h : Hand) : Prop :=
  h.board.length = 5 ∧
    DistinctCards (h.board ++ ((List.finRange 9).filter (inHandNotFolded h)).flatMap
      fun i => [(seats i).hole 0, (seats i).hole 1])

def NoTies (seats : Seats) (h : Hand) : Prop :=
  ∀ i j, inHandNotFolded h i = true → inHandNotFolded h j = true → i ≠ j →
    bestStanding ((showdownEntry seats i).cards7 (showdownBoard h)).toFinset ≠
      bestStanding ((showdownEntry seats j).cards7 (showdownBoard h)).toFinset

section Payout

variable {seats : Seats} {h : Hand}

theorem map_toCard {cards : List Nat} (hvalid : ∀ c ∈ cards, c ≤ 51) :
    cards.map toCard = cards := by
  refine (List.map_congr_left fun c hc => ?_).trans (List.map_id cards)
  exact Nat.mod_eq_of_lt (by have := hvalid c hc; omega)

section

variable (hdealt : CardsDealt seats h)
include hdealt

theorem CardsDealt.hole (hlive : inHandNotFolded h i = true) :
    (seats i).hole 0 ≤ 51 ∧ (seats i).hole 1 ≤ 51 ∧
      DistinctCards (h.board ++ [(seats i).hole 0, (seats i).hole 1]) := by
  obtain ⟨-, hnodup, hvalid⟩ := hdealt
  have hmem : i ∈ (List.finRange 9).filter (inHandNotFolded h) := by simp [hlive]
  have hsub : [(seats i).hole 0, (seats i).hole 1].Sublist
      (((List.finRange 9).filter (inHandNotFolded h)).flatMap
        fun i => [(seats i).hole 0, (seats i).hole 1]) := by
    exact List.sublist_flatten_of_mem (List.mem_map_of_mem hmem)
  have hall := (List.Sublist.refl h.board).append hsub
  refine ⟨hvalid _ (hall.subset (by simp)), hvalid _ (hall.subset (by simp)),
    hnodup.sublist hall, fun c hc => hvalid c (hall.subset hc)⟩

theorem CardsDealt.board : showdownBoard h = h.board := by
  obtain ⟨hlen, -, hvalid⟩ := hdealt
  rw [showdownBoard, List.take_of_length_le hlen.le]
  exact map_toCard fun c hc => hvalid c (by simp [hc])

theorem CardsDealt.cards7 (hlive : inHandNotFolded h i = true) :
    DistinctCards ((showdownEntry seats i).cards7 (showdownBoard h)) := by
  obtain ⟨hfirst, hsecond, hdistinct⟩ := hdealt.hole hlive
  have hcards : [toCard ((seats i).hole 0), toCard ((seats i).hole 1)] =
      [(seats i).hole 0, (seats i).hole 1] :=
    @map_toCard [(seats i).hole 0, (seats i).hole 1] (by simp [hfirst, hsecond])
  rw [Entry.cards7, hdealt.board, showdownEntry]
  rw [hcards]
  exact hdistinct

theorem CardsDealt.holeBySeat (hlive : ∀ i ∈ contending, inHandNotFolded h i = true) :
    Poker.holeBySeat seats contending = contending.map (showdownEntry seats) := by
  rw [Poker.holeBySeat, List.filter_eq_self.mpr fun i hi => ?_]
  · rfl
  · obtain ⟨hfirst, hsecond, -⟩ := hdealt.hole (hlive i hi)
    unfold unknownCard
    exact decide_eq_true ⟨by omega, by omega⟩

end

theorem mem_bestAmong : i ∈ bestAmong seats h contending ↔ i ∈ contending ∧ ∀ j ∈ contending,
      bestStanding ((showdownEntry seats j).cards7 (showdownBoard h)).toFinset ≤
        bestStanding ((showdownEntry seats i).cards7 (showdownBoard h)).toFinset := by
  simp only [bestAmong, bestSeats, Finset.mem_sort, Finset.mem_filter, Finset.mem_univ,
    true_and, List.forall_mem_map]
  constructor
  · rintro ⟨e, he, rfl, hbest⟩
    obtain ⟨j, hj, rfl⟩ := List.mem_map.mp he
    exact ⟨hj, hbest⟩
  · rintro ⟨hi, hbest⟩
    exact ⟨_, List.mem_map_of_mem hi, rfl, hbest⟩

theorem bestAmong_nodup (contending : List SeatIdx) : (bestAmong seats h contending).Nodup := by
  unfold bestAmong bestSeats
  exact Finset.sort_nodup _ _

theorem bestAmong_singleton (i : SeatIdx) : bestAmong seats h [i] = [i] := by
  have hmem : ∀ j, j ∈ bestAmong seats h [i] ↔ j ∈ [i] := by
    intro j
    rw [mem_bestAmong, and_iff_left_iff_imp]
    simp +contextual
  exact List.perm_singleton.mp
    ((List.perm_ext_iff_of_nodup (bestAmong_nodup _) (List.nodup_singleton i)).mpr hmem)

theorem bestAmong_nil : bestAmong seats h [] = [] :=
  List.eq_nil_iff_forall_not_mem.mpr fun i hi => by simpa using (mem_bestAmong.mp hi).1

theorem CardsDealt.decidePot (hdealt : CardsDealt seats h) {pot : SidePot}
    (hlive : ∀ i ∈ pot.eligibleSeats, inHandNotFolded h i = true) (hnodup : pot.eligibleSeats.Nodup)
    (hchips : pot.amount ≠ 0) (hne : pot.eligibleSeats ≠ []) :
    Poker.decidePot seats (showdownBoard h) pot =
      .ok (.won (bestAmong seats h pot.eligibleSeats)) := by
  have hlen : (showdownBoard h).length = 5 := hdealt.board ▸ hdealt.1
  have hcards : ∀ e ∈ pot.eligibleSeats.map (showdownEntry seats),
      DistinctCards (e.cards7 (showdownBoard h)) :=
    List.forall_mem_map.mpr fun i hi => hdealt.cards7 (hlive i hi)
  have hseats : ((pot.eligibleSeats.map (showdownEntry seats)).map Entry.seat).Nodup := by
    rw [List.map_map]
    exact (List.map_id pot.eligibleSeats).symm ▸ hnodup
  have hwinners := winners_eq_bestSeats hlen hcards (by simpa using hne) hseats
  rw [Poker.decidePot, if_neg (by simp [hchips, hne]), hdealt.holeBySeat hlive]
  split
  · rename_i hone
    rw [hone, bestAmong_singleton]
    rfl
  · rename_i entry hone hmany
    obtain ⟨i, hi, rfl⟩ := List.map_eq_singleton_iff.mp hone
    exact absurd hi (hmany i)
  · rename_i hnone _
    exact absurd (List.map_eq_nil_iff.mp hnone) hne
  · rw [hwinners]
    rfl

variable {pots : List SidePot} {totalCommit : SeatIdx → Nat} {live : SeatIdx → Bool}

theorem CardsDealt.assignPots (hdealt : CardsDealt seats h)
    (hlive : ∀ pot ∈ pots, ∀ i ∈ pot.eligibleSeats, inHandNotFolded h i = true)
    (hnodup : ∀ pot ∈ pots, pot.eligibleSeats.Nodup) :
    ∃ potWinners, Poker.assignPots h (showdownBoard h) seats pots = .ok (seats, some potWinners) ∧
      ∀ i, awardShare i pots potWinners =
        (pots.map fun p => potShare (bestAmong seats h p.eligibleSeats) p.amount i).sum := by
  induction pots with
  | nil => exact ⟨[], rfl, fun i => rfl⟩
  | cons pot rest ih =>
    obtain ⟨potWinners, hassign, hshare⟩ :=
      ih (fun q hq => hlive q (by simp [hq])) (fun q hq => hnodup q (by simp [hq]))
    by_cases hskip : pot.amount = 0 ∨ pot.eligibleSeats = []
    · have hdecide : Poker.decidePot seats (showdownBoard h) pot = .ok .skip := by
        rw [Poker.decidePot, if_pos hskip]
        rfl
      refine ⟨[] :: potWinners, ?_, fun i => ?_⟩
      · rw [Poker.assignPots, hdecide, ok_bind, hassign]
        rfl
      · rw [awardShare, hshare, List.map_cons, List.sum_cons]
        rcases hskip with hzero | hnone
        · rw [hzero, potShare_zero, potShare_zero]
        · rw [hnone, bestAmong_nil]
    · push Not at hskip
      have hdecide := hdealt.decidePot (hlive pot (by simp)) (hnodup pot (by simp)) hskip.1 hskip.2
      refine ⟨bestAmong seats h pot.eligibleSeats :: potWinners, ?_, fun i => ?_⟩
      · rw [Poker.assignPots, hdecide, ok_bind, hassign]
        rfl
      · rw [awardShare, hshare, List.map_cons, List.sum_cons]

theorem eligible_live (hok : computeSidePots h.totalCommit (inHandNotFolded h) = .ok pots) :
    ∀ pot ∈ pots, ∀ i ∈ pot.eligibleSeats, inHandNotFolded h i = true := by
  intro pot hpot i hi
  have hmem := (computeSidePots_eligible hok pot hpot).subset hi
  rw [eligibleRems_remainingCommits, contenders, List.mem_filter, Bool.and_eq_true] at hmem
  exact hmem.2.2

theorem CardsDealt.settle (hdealt : CardsDealt seats h)
    (hfits : stackSum seats + commitSum h ≤ maxUint64) :
    ∃ seats', settleKnownShowdown seats h = .ok seats' ∧
      ∀ i, (seats' i).stack = (seats i).stack + showdownPayout seats h i := by
  obtain ⟨seats', hok⟩ := settleKnownShowdown_succeeds hfits
  refine ⟨seats', hok, fun i => ?_⟩
  have hlen : (showdownBoard h).length = 5 := hdealt.board ▸ hdealt.1
  rw [settleKnownShowdown, if_neg (by have := hdealt.1; omega)] at hok
  simp only [ok_iff] at hok
  obtain ⟨pots, hpots, outcome, hassign, hok⟩ := hok
  obtain ⟨potWinners, hdecided, hshare⟩ :=
    hdealt.assignPots (eligible_live hpots) (eligible_nodup hpots)
  have hamong := (assignPots_stack hlen (eligible_nodup hpots) hdecided i).1
  cases hdecided.symm.trans hassign
  simp only [ok_iff] at hok
  obtain ⟨last, haward, rfl⟩ := hok
  have hstack : (clearHoles last i).stack = (last i).stack := rfl
  rw [hstack, awardPots_stack hamong haward, hshare, showdownPayout, sum_pots hpots (fun contending
    amount => potShare (bestAmong seats h contending) amount i) fun _ => potShare_zero _ i]

theorem NoTies.bestAmong (hties : NoTies seats h)
    (hlive : ∀ i ∈ contending, inHandNotFolded h i = true)
    (hi : i ∈ Poker.bestAmong seats h contending) :
    Poker.bestAmong seats h contending = [i] := by
  have honly : ∀ j ∈ Poker.bestAmong seats h contending, j = i := by
    intro j hj
    obtain ⟨hjmem, hjbest⟩ := mem_bestAmong.mp hj
    obtain ⟨himem, hibest⟩ := mem_bestAmong.mp hi
    by_contra hne
    exact hties j i (hlive j hjmem) (hlive i himem) hne
      (le_antisymm (hibest j hjmem) (hjbest i himem))
  have hmem : ∀ j, j ∈ Poker.bestAmong seats h contending ↔ j ∈ [i] := fun j =>
    ⟨fun hj => List.mem_singleton.mpr (honly j hj), fun hj => List.mem_singleton.mp hj ▸ hi⟩
  exact List.perm_singleton.mp
    ((List.perm_ext_iff_of_nodup (bestAmong_nodup _) (List.nodup_singleton i)).mpr hmem)

theorem levelContenders_live {level : Nat} :
    ∀ i ∈ levelContenders totalCommit live level, live i = true := by
  intro i hi
  rw [levelContenders, List.mem_filter, Bool.and_eq_true] at hi
  exact hi.2.1

theorem NoTies.potShare (hties : NoTies seats h)
    (hlive : ∀ i ∈ contending, inHandNotFolded h i = true) (amount : Nat) (i : SeatIdx) :
    Poker.potShare (Poker.bestAmong seats h contending) amount i =
      if Poker.bestAmong seats h contending = [i] then amount else 0 := by
  by_cases hi : i ∈ Poker.bestAmong seats h contending
  · rw [hties.bestAmong hlive hi, if_pos rfl, Poker.potShare]
    simp [Nat.mod_one]
  · have hne : Poker.bestAmong seats h contending ≠ [i] := fun heq => hi (by simp [heq])
    rw [Poker.potShare, if_neg hi, if_neg hne]

theorem NoTies.payout (hties : NoTies seats h) (i : SeatIdx) :
    showdownPayout seats h i =
      ∑ level ∈ Finset.Icc 1 (maxCommit h.totalCommit),
        if Poker.bestAmong seats h (levelContenders h.totalCommit (inHandNotFolded h) level) = [i]
        then levelPot h.totalCommit level else 0 := by
  have hrun : ∀ contending ∈ levelRuns h.totalCommit (inHandNotFolded h),
      Poker.potShare (Poker.bestAmong seats h contending)
        (levelSum h.totalCommit (inHandNotFolded h) (· = contending)) i =
      ∑ level ∈ (Finset.Icc 1 (maxCommit h.totalCommit)).filter
          (levelContenders h.totalCommit (inHandNotFolded h) · = contending),
        if Poker.bestAmong seats h (levelContenders h.totalCommit (inHandNotFolded h) level) = [i]
        then levelPot h.totalCommit level else 0 := by
    intro contending hmem
    obtain ⟨level, -, rfl⟩ := Finset.mem_image.mp hmem
    rw [hties.potShare levelContenders_live, levelSum]
    simp only [decide_eq_true_eq]
    rw [← Finset.sum_filter]
    split
    · rename_i hwins
      refine Finset.sum_congr rfl fun other hother => ?_
      rw [(Finset.mem_filter.mp hother).2, if_pos hwins]
    · rename_i hloses
      refine (Finset.sum_eq_zero fun other hother => ?_).symm
      rw [(Finset.mem_filter.mp hother).2, if_neg hloses]
  rw [showdownPayout, Finset.sum_congr rfl hrun]
  exact Finset.sum_fiberwise_of_maps_to (fun level hlevel => Finset.mem_image_of_mem _ hlevel) _

theorem levelContenders_run {low mid high : Nat} (hlow : low ≤ mid) (hhigh : mid ≤ high)
    (heq : levelContenders totalCommit live low = levelContenders totalCommit live high) :
    levelContenders totalCommit live mid = levelContenders totalCommit live low := by
  refine List.filter_congr fun i _ => ?_
  have hends : i ∈ levelContenders totalCommit live low ↔
      i ∈ levelContenders totalCommit live high := by rw [heq]
  simp only [levelContenders, List.mem_filter, List.mem_finRange, true_and,
    Bool.and_eq_true, decide_eq_true_eq] at hends
  cases hlive : live i with
  | false => rfl
  | true =>
    simp only [hlive, true_and] at hends
    simp only [Bool.true_and, decide_eq_decide]
    omega

/-- A showdown with known cards pays as if every chip level were a pot of its own: the
total of each run of levels with the same contenders goes in equal shares to the best
hands among them, the remainder to the first of these. Without ties every level is won
by one seat. -/
theorem settleKnownShowdown_levels (hdealt : CardsDealt seats h)
    (hfits : stackSum seats + commitSum h ≤ maxUint64) :
    (∃ seats', settleKnownShowdown seats h = .ok seats' ∧
      ∀ i, (seats' i).stack = (seats i).stack +
        ∑ contending ∈ levelRuns h.totalCommit (inHandNotFolded h),
          potShare (bestAmong seats h contending)
            (levelSum h.totalCommit (inHandNotFolded h) (· = contending)) i) ∧
    (∀ low mid high, low ≤ mid → mid ≤ high →
      levelContenders h.totalCommit (inHandNotFolded h) low =
        levelContenders h.totalCommit (inHandNotFolded h) high →
      levelContenders h.totalCommit (inHandNotFolded h) mid =
        levelContenders h.totalCommit (inHandNotFolded h) low) ∧
    (NoTies seats h → ∃ seats', settleKnownShowdown seats h = .ok seats' ∧
      ∀ i, (seats' i).stack = (seats i).stack +
        ∑ level ∈ Finset.Icc 1 (maxCommit h.totalCommit),
          if bestAmong seats h
              (levelContenders h.totalCommit (inHandNotFolded h) level) = [i]
          then levelPot h.totalCommit level else 0) := by
  obtain ⟨seats', hok, hstack⟩ := hdealt.settle hfits
  refine ⟨⟨seats', hok, hstack⟩, fun _ _ _ => levelContenders_run, fun hties => ?_⟩
  exact ⟨seats', hok, fun i => hties.payout i ▸ hstack i⟩

theorem CardsDealt.noTies (hdealt : CardsDealt seats h)
    (hranks : ∀ i j, inHandNotFolded h i = true → inHandNotFolded h j = true → i ≠ j →
      (evaluate7 ((showdownEntry seats i).cards7 (showdownBoard h))).map HandRank.key ≠
        (evaluate7 ((showdownEntry seats j).cards7 (showdownBoard h))).map HandRank.key) :
    NoTies seats h := by
  have hlen : ∀ i, ((showdownEntry seats i).cards7 (showdownBoard h)).length = 7 := by
    intro i
    rw [Entry.cards7, List.length_append, hdealt.board, hdealt.1]
    rfl
  intro i j hi hj hne heq
  obtain ⟨best, hbest, -, hkey⟩ := evaluate7_spec (hlen i) (hdealt.cards7 hi)
  obtain ⟨best', hbest', -, hkey'⟩ := evaluate7_spec (hlen j) (hdealt.cards7 hj)
  refine hranks i j hi hj hne ?_
  rw [← hkey, ← hkey', WithBot.coe_inj] at heq
  rw [hbest, hbest', Except.map, Except.map, heq]

end Payout

/-- Seat 3 has folded 30 chips, seat 0 is all in for 50 with the best hand, and seats 1
and 2 have committed 100 each. -/
def sidePotHand : Hand where
  handId := 1
  phase := .showdown
  street := .river
  buttonSeat := some 0
  smallBlindSeat := 1
  bigBlindSeat := 2
  actionOn := none
  betTo := 0
  minRaiseSize := 0
  intervalId := 0
  inHand := fun i => decide (i ≤ 3)
  folded := fun i => decide (i = 3)
  allIn := fun i => decide (i = 0)
  streetCommit := fun _ => 0
  totalCommit := fun i => [50, 100, 100, 30].getD i 0
  lastIntervalActed := fun _ => -1
  board := [0, 15, 30, 45, 8]
  actionDeadline := 0
  dealer := ⟨1, 52, true, fun _ _ => 0, 13, 0, 0⟩

def sidePotSeats : Seats := fun i =>
  { emptySeat with
    stack := 10
    hole := fun k => ([[12, 25], [10, 23], [9, 22]].getD i [1, 2]).getD k 0 }

theorem settleKnownShowdown_levels_sidePot :
    CardsDealt sidePotSeats sidePotHand ∧ NoTies sidePotSeats sidePotHand ∧
      ∃ seats', settleKnownShowdown sidePotSeats sidePotHand = .ok seats' ∧
        ∀ i, (seats' i).stack = 10 +
          ∑ level ∈ Finset.Icc 1 100,
            if bestAmong sidePotSeats sidePotHand
                (levelContenders sidePotHand.totalCommit (inHandNotFolded sidePotHand) level)
              = [i]
            then levelPot sidePotHand.totalCommit level else 0 := by
  have hdealt : CardsDealt sidePotSeats sidePotHand := ⟨rfl, by decide⟩
  have hties := hdealt.noTies (by decide +kernel)
  have hmax : maxCommit sidePotHand.totalCommit = 100 := by decide
  refine ⟨hdealt, hties, ?_⟩
  have hlevels := (settleKnownShowdown_levels hdealt (by decide)).2.2 hties
  exact hlevels

/-! ## Table stakes -/

def Covered (totalCommit : SeatIdx → Nat) (seats seats' : Seats) : Prop :=
  ∀ i, (seats' i).stack ≤ (seats i).stack + ∑ j, min (totalCommit i) (totalCommit j)

variable {seats refunded : Seats} {h h' : Hand} {winner : SeatIdx}

theorem returnUncalledStreetExcess_stack_le
    (hok : returnUncalledStreetExcess seats h = .ok (refunded, h')) (i : SeatIdx) :
    (seats i).stack ≤ (refunded i).stack := by
  cases returnUncalledStreetExcess_cases hok with
  | same => exact le_rfl
  | refund maxSeat _ _ _ =>
    by_cases hi : i = maxSeat
    · subst hi
      rw [Function.update_self]
      exact Nat.le_add_right _ _
    · rw [Function.update_of_ne hi]

theorem completeByFolds_stack {seats' : Seats}
    (hreturn : returnUncalledStreetExcess seats h = .ok (refunded, h'))
    (hok : completeByFolds seats h = .ok seats')
    (hwinner : (List.finRange 9).find? (inHandNotFolded h) = some winner) (i : SeatIdx) :
    (seats' i).stack = (refunded i).stack + if i = winner then commitSum h' else 0 := by
  simp only [completeByFolds, hwinner, hreturn, ok_bind, ok_iff] at hok
  obtain ⟨pot, hpot, nextStack, hadd, rfl⟩ := hok
  have hpot := potTotal_ok hpot
  have hadd := addUint64Checked_ok hadd
  by_cases hi : i = winner
  · subst hi
    simp only [clearHoles, Function.update_self, if_true]
    omega
  · simp only [clearHoles, Function.update_of_ne hi, if_neg hi, Nat.add_zero]

theorem find_notFolded (hfew : countNotFolded h ≤ 1) (hlive : inHandNotFolded h winner = true) :
    (List.finRange 9).find? (inHandNotFolded h) = some winner := by
  rw [countNotFolded, List.countP_eq_length_filter] at hfew
  have hmem : winner ∈ (List.finRange 9).filter (inHandNotFolded h) := by simp [hlive]
  obtain ⟨only, honly⟩ := List.length_eq_one_iff.mp (le_antisymm hfew (List.length_pos_of_mem hmem))
  rw [← List.head?_filter, honly, List.head?_cons]
  rw [honly, List.mem_singleton] at hmem
  rw [hmem]

theorem commitSum_le_covered_iff (h : Hand) (winner : SeatIdx) :
    commitSum h ≤ ∑ j, min (h.totalCommit winner) (h.totalCommit j) ↔
      ∀ j, h.totalCommit j ≤ h.totalCommit winner := by
  have hle : ∀ j ∈ Finset.univ, min (h.totalCommit winner) (h.totalCommit j) ≤ h.totalCommit j :=
    fun j _ => min_le_right _ _
  rw [commitSum, (Finset.sum_le_sum hle).ge_iff_eq, Finset.sum_eq_sum_iff_of_le hle]
  simp

/-- A showdown never pays a seat more than it has covered; a hand that ends by folds
does exactly when another seat has committed more than the one that is left. -/
theorem table_stakes_iff {seats seats' : Seats} {h : Hand} :
    (settleKnownShowdown seats h = .ok seats' → Covered h.totalCommit seats seats') ∧
    ∀ {refunded h'}, countNotFolded h ≤ 1 →
      returnUncalledStreetExcess seats h = .ok (refunded, h') →
      completeByFolds seats h = .ok seats' →
      (Covered h'.totalCommit refunded seats' ↔
        ∀ i, inHandNotFolded h i = true → ∀ j, h'.totalCommit j ≤ h'.totalCommit i) := by
  refine ⟨fun hok => settleKnownShowdown_stack_le hok, fun {refunded h'} hfew hreturn hok => ?_⟩
  constructor
  · intro hcovered i hlive
    have hstack := completeByFolds_stack hreturn hok (find_notFolded hfew hlive) i
    rw [if_pos rfl] at hstack
    have hbound := hcovered i
    exact (commitSum_le_covered_iff h' i).mp (by omega)
  · intro hmost i
    cases hfind : (List.finRange 9).find? (inHandNotFolded h) with
    | none =>
      simp only [completeByFolds, hfind, pure_ok_iff] at hok
      subst hok
      exact le_add_right (returnUncalledStreetExcess_stack_le hreturn i)
    | some winner =>
      have hstack := completeByFolds_stack hreturn hok hfind i
      have hbound := (commitSum_le_covered_iff h' winner).mpr
        (hmost winner (List.find?_some hfind))
      split at hstack
      · rename_i hi
        subst hi
        omega
      · omega

/-- `A` is all in for 50 against the 100 of `B` and of `C`; on the flop `B` folds. -/
def shortStackRun : List (Msg ledgerEnv) :=
  dealtTo sampleTable [("A", 50), ("B", 200), ("C", 200)] ++
    [.act sampleBlock ⟨"A", 1, "raise", 50⟩, .act sampleBlock ⟨"B", 1, "raise", 100⟩,
      .act sampleBlock ⟨"C", 1, "call", 0⟩, .applyDealerReveal sampleBlock 1 1 6 0,
      .applyDealerReveal sampleBlock 1 1 7 1, .applyDealerReveal sampleBlock 1 1 8 2,
      .act sampleBlock ⟨"B", 1, "fold", 0⟩]

def shortStackTable (messages : List (Msg ledgerEnv)) : Option Table :=
  (run handle (State.genesis ledgerEnv (0 : Nat)) (shortStackRun ++ messages)).tables.lookup 1

/-- When `C` folds too, `A` is paid the side pot it has no part in: 250 chips, of which
it has covered 150. No chip of the street is uncalled. -/
theorem shortStack_paid_side_pot :
    ∃ t h t', shortStackTable [] = some t ∧ t.hand = some h ∧
      (∀ i, h.streetCommit i = 0) ∧
      shortStackTable [.act sampleBlock ⟨"C", 1, "fold", 0⟩] = some t' ∧ t'.hand = none ∧
      (t.seats 0).stack = 0 ∧ (t'.seats 0).stack = 250 ∧
      ∑ j, min (h.totalCommit 0) (h.totalCommit j) = 150 ∧
      ¬ Covered h.totalCommit t.seats t'.seats := by
  have hbefore : (shortStackTable []).any (fun t => t.hand.any fun h =>
      decide ((∀ i, h.streetCommit i = 0) ∧ (t.seats 0).stack = 0 ∧
        ∑ j, min (h.totalCommit 0) (h.totalCommit j) = 150)) = true := by
    decide +kernel
  have hafter : (shortStackTable [.act sampleBlock ⟨"C", 1, "fold", 0⟩]).any (fun t =>
      decide (t.hand = none ∧ (t.seats 0).stack = 250)) = true := by
    decide +kernel
  obtain ⟨t, ht, hhand⟩ := (Option.any_eq_true _ _).mp hbefore
  obtain ⟨h, hh, hfacts⟩ := (Option.any_eq_true _ _).mp hhand
  obtain ⟨hstreet, hstack, hcovers⟩ := of_decide_eq_true hfacts
  obtain ⟨t', ht', hfacts'⟩ := (Option.any_eq_true _ _).mp hafter
  obtain ⟨hended, hpaid⟩ := of_decide_eq_true hfacts'
  refine ⟨t, h, t', ht, hh, hstreet, ht', hended, hstack, hpaid, hcovers, fun hcovered => ?_⟩
  have hbound := hcovered 0
  omega

def aloneHand : Hand := { sidePotHand with folded := (· ≠ 1) }

theorem table_stakes_sidePot :
    (∃ seats', settleKnownShowdown sidePotSeats sidePotHand = .ok seats' ∧
      Covered sidePotHand.totalCommit sidePotSeats seats') ∧
    ∃ refunded h' seats',
      returnUncalledStreetExcess sidePotSeats aloneHand = .ok (refunded, h') ∧
      completeByFolds sidePotSeats aloneHand = .ok seats' ∧
      Covered h'.totalCommit refunded seats' := by
  constructor
  · obtain ⟨seats', hok⟩ := isOk_iff.mp
      (show (settleKnownShowdown sidePotSeats sidePotHand).isOk = true by decide +kernel)
    exact ⟨seats', hok, table_stakes_iff.1 hok⟩
  · obtain ⟨seats', hok⟩ := isOk_iff.mp
      (show (completeByFolds sidePotSeats aloneHand).isOk = true by decide +kernel)
    have hmost : ∀ i, inHandNotFolded aloneHand i = true →
        ∀ j, aloneHand.totalCommit j ≤ aloneHand.totalCommit i := by decide
    have hreturn : returnUncalledStreetExcess sidePotSeats aloneHand =
        .ok (sidePotSeats, aloneHand) := rfl
    exact ⟨sidePotSeats, aloneHand, seats', hreturn, hok,
      (table_stakes_iff.2 (by decide) hreturn hok).mpr hmost⟩

end OnChainPoker.Poker
