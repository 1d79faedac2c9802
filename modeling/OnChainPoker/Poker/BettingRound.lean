import OnChainPoker.Poker.Deck
import OnChainPoker.Poker.HandMoves
import OnChainPoker.Poker.Solvency

/-!
# The betting round

What holds of a hand while its players bet: commitments and stacks are within
the range of the counters, a player without chips is marked all-in, nobody who
can still act has put in more than the bet level, and the seat on action is one
that needs to act.
-/

namespace OnChainPoker.Poker

open Foundation

variable {env : Env} {h h' : Hand} {i seat : SeatIdx} {seats seats' : Seats} {params : TableParams}
  {amount : Nat}

/-! ## The seat on action -/

theorem mem_clockwiseAfter (start : Option SeatIdx) (i : SeatIdx) : i ∈ clockwiseAfter start := by
  cases start with
  | none => exact List.mem_finRange i
  | some first =>
    simp only [clockwiseAfter, List.mem_map]
    refine ⟨i - first - 1, List.mem_finRange _, ?_⟩
    ext
    omega

theorem nextActiveToAct_needs {start : Option SeatIdx}
    (hnext : nextActiveToAct h start = some i) : needsToAct h i = true :=
  List.find?_some hnext

theorem nextActiveToAct_ne_none (start : Option SeatIdx) (hneeds : needsToAct h i = true) :
    nextActiveToAct h start ≠ none := by
  intro hnone
  have habsent := List.find?_eq_none.mp hnone i (mem_clockwiseAfter start i)
  exact habsent hneeds

theorem needsToAct_eligible (hneeds : needsToAct h i = true) :
    inHandNotFolded h i = true ∧ h.allIn i = false := by
  unfold needsToAct at hneeds
  split at hneeds
  · cases hneeds
  · rename_i hout
    simpa [inHandNotFolded] using hout

theorem streetComplete_eq_false_iff (h : Hand) :
    streetComplete h = false ↔ ∃ i, needsToAct h i = true := by
  have hseat : ∀ i, (!h.inHand i || h.folded i || h.allIn i ||
      decide (h.streetCommit i = h.betTo ∧
        h.lastIntervalActed i = int32 h.intervalId)) = !needsToAct h i := by
    intro i
    unfold needsToAct
    cases h.inHand i <;> cases h.folded i <;> cases h.allIn i <;>
      simp [Bool.and_comm]
  simp only [streetComplete, hseat]
  simp

/-! ## Chips -/

def handWorth (seats : Seats) (h : Hand) : Nat :=
  ∑ i, (h.totalCommit i +
    if inHandNotFolded h i then (seats i).stack else 0)

structure ChipsBounded (params : TableParams) (seats : Seats) (h : Hand) :
    Prop where
  street : ∀ i, h.streetCommit i ≤ h.totalCommit i
  seat : ∀ i, (seats i).stack + h.totalCommit i ≤ maxUint64
  hand : handWorth seats h + params.maxBuyIn ≤ maxUint64

theorem handWorth_le_of_moves
    (hmoves : HandMoves seats h seats' h') : handWorth seats' h' ≤ handWorth seats h := by
  apply Finset.sum_le_sum
  intro i _
  have hchips := hmoves.keeps.chips i
  cases hlive' : inHandNotFolded h' i with
  | true =>
    rw [hmoves.live i hlive']
    simp only [if_true]
    omega
  | false =>
    cases hlive : inHandNotFolded h i with
    | true =>
      simp only [if_true, if_false, Bool.false_eq_true]
      omega
    | false =>
      have hidle := hmoves.idle i hlive
      simpa using hidle

theorem ChipsBounded.moves (hbounded : ChipsBounded params seats h)
    (hmoves : HandMoves seats h seats' h') : ChipsBounded params seats' h' := by
  refine ⟨hmoves.street hbounded.street, ?_, ?_⟩
  · intro i
    rw [hmoves.keeps.chips i]
    exact hbounded.seat i
  · have hworth := handWorth_le_of_moves hmoves
    have hmax := hbounded.hand
    omega

theorem totalCommit_le_handWorth (seats : Seats) (h : Hand) (i : SeatIdx) :
    h.totalCommit i ≤ handWorth seats h :=
  le_trans (Nat.le_add_right _ _)
    (Finset.single_le_sum (f := fun i => h.totalCommit i +
      if inHandNotFolded h i then (seats i).stack else 0)
      (fun _ _ => Nat.zero_le _) (Finset.mem_univ i))

theorem stack_add_commitSum_le_handWorth (hlive : inHandNotFolded h i = true) :
    (seats i).stack + commitSum h ≤ handWorth seats h := by
  have hstack : (seats i).stack ≤ ∑ i, if inHandNotFolded h i then (seats i).stack else 0 := by
    have hle := Finset.single_le_sum
      (f := fun i => if inHandNotFolded h i then (seats i).stack else 0)
      (fun _ _ => Nat.zero_le _) (Finset.mem_univ i)
    simpa [hlive] using hle
  simp only [handWorth, commitSum, Finset.sum_add_distrib]
  omega

theorem ChipsBounded.reseated (hbounded : ChipsBounded params seats h)
    (hstack : ∀ i, (seats' i).stack ≤ (seats i).stack ∨
      (inHandNotFolded h i = false ∧ (seats' i).stack ≤ params.maxBuyIn)) :
    ChipsBounded params seats' h := by
  refine ⟨hbounded.street, ?_, ?_⟩
  · intro i
    have hseat := hbounded.seat i
    have hmax := hbounded.hand
    have hcommit := totalCommit_le_handWorth seats h i
    rcases hstack i with hle | ⟨_, hle⟩ <;> omega
  · have hworth : handWorth seats' h ≤ handWorth seats h := by
      apply Finset.sum_le_sum
      intro i _
      rcases hstack i with hle | ⟨hout, _⟩
      · split <;> omega
      · simp [hout]
    have hmax := hbounded.hand
    omega

/-! ## All-in and the bet level -/

def AllInEmpty (seats : Seats) (h : Hand) : Prop :=
  ∀ i, inHandNotFolded h i = true → h.allIn i = true → (seats i).stack = 0

def LevelCovers (h : Hand) : Prop :=
  ∀ i, inHandNotFolded h i = true → h.allIn i = false → h.streetCommit i ≤ h.betTo

theorem commitChips_allInEmpty (hempty : AllInEmpty seats h)
    (hok : commitChips seats h seat amount = .ok (seats', h')) : AllInEmpty seats' h' := by
  obtain ⟨rfl, rfl⟩ := commitChips_ok hok
  intro i hlive hallIn
  by_cases hi : i = seat
  · subst hi
    simp only [Function.update_self]
    by_cases hzero : (seats i).stack - amount = 0
    · exact hzero
    · simp only [hzero, if_false] at hallIn
      have hstack := hempty i hlive hallIn
      omega
  · rw [Function.update_of_ne hi]
    refine hempty i hlive ?_
    dsimp only at hallIn
    split at hallIn
    · rwa [Function.update_of_ne hi] at hallIn
    · exact hallIn

theorem commitChips_levelCovers (hlevel : LevelCovers h)
    (hamount : h.streetCommit seat + amount ≤ h.betTo)
    (hok : commitChips seats h seat amount = .ok (seats', h')) : LevelCovers h' := by
  obtain ⟨rfl, rfl⟩ := commitChips_ok hok
  intro i hlive hallIn
  by_cases hi : i = seat
  · subst hi
    simpa using hamount
  · simp only [Function.update_of_ne hi]
    refine hlevel i hlive ?_
    dsimp only at hallIn
    split at hallIn
    · rwa [Function.update_of_ne hi] at hallIn
    · exact hallIn

theorem performAction_round {action : Action} (hempty : AllInEmpty seats h) (hlevel : LevelCovers h)
    (hok : performAction params seats h seat action amount = .ok (seats', h')) :
    AllInEmpty seats' h' ∧ LevelCovers h' := by
  cases performAction_cases hok with
  | fold =>
    have hlive : ∀ i, inHandNotFolded (applyFold h seat) i = true → inHandNotFolded h i = true := by
      intro i hi
      by_cases hseat : i = seat
      · subst hseat
        simp [inHandNotFolded, applyFold, markActed] at hi
      · simpa [inHandNotFolded, applyFold, markActed, hseat] using hi
    exact ⟨fun i hi => hempty i (hlive i hi), fun i hi => hlevel i (hlive i hi)⟩
  | check _ => exact ⟨hempty, hlevel⟩
  | call hneed hcommit =>
    have hmin : min (toCall h seat) (seats seat).stack ≤ toCall h seat := Nat.min_le_left _ _
    unfold toCall at hneed hmin
    have hempty' := commitChips_allInEmpty hempty hcommit
    have hlevel' := commitChips_levelCovers hlevel (by unfold toCall; omega) hcommit
    exact ⟨hempty', hlevel'⟩
  | bet hbet | raise hbet =>
    obtain ⟨_, _, hmore, hraises, _, hcommit⟩ := applyBetTo_ok hbet
    refine ⟨commitChips_allInEmpty (by exact hempty) hcommit, commitChips_levelCovers ?_ ?_ hcommit⟩
    · intro i hlive hallIn
      exact (hlevel i hlive hallIn).trans hraises.le
    · simp only [markActed]
      omega

theorem returnUncalledStreetExcess_allInEmpty (hempty : AllInEmpty seats h)
    (hok : returnUncalledStreetExcess seats h = .ok (seats', h')) :
    AllInEmpty seats' h' := by
  cases returnUncalledStreetExcess_cases hok with
  | same => exact hempty
  | refund maxSeat _ _ _ =>
    intro i hlive hallIn
    by_cases hi : i = maxSeat
    · subst hi
      simp at hallIn
    · rw [Function.update_of_ne hi]
      exact hempty i hlive (by simpa [hi] using hallIn)

/-! ## The invariant of a hand -/

/-- The first street before its deck is ready, or a street being bet on. -/
def Hand.inRound (h : Hand) : Prop := h.phase = .shuffle ∨ h.phase = .betting

structure RoundValid (seats : Seats) (h : Hand) : Prop where
  allIn : AllInEmpty seats h
  level : h.inRound → LevelCovers h
  onAction : h.inRound → ∀ i, h.actionOn = some i → needsToAct h i = true
  opened : h.phase = .betting → h.actionOn ≠ none

theorem awaitPhase_not_inRound (street : Street) (hphase : h.phase = awaitPhase street) :
    ¬ h.inRound := by
  unfold Hand.inRound
  rw [hphase]
  cases street <;> simp [awaitPhase]

theorem RoundValid.of_not_inRound (hempty : AllInEmpty seats h)
    (hout : ¬ h.inRound) : RoundValid seats h :=
  ⟨hempty, fun hin => absurd hin hout, fun hin => absurd hin hout,
    fun hphase => absurd (Or.inr hphase) hout⟩

theorem boardTarget_not_inRound {target : Nat × Street}
    (htarget : boardTarget h.phase = some target) : ¬ h.inRound := by
  rintro (hphase | hphase) <;> simp [hphase, boardTarget] at htarget

theorem resetPostflopBettingRound_valid (hempty : AllInEmpty seats h)
    (hchips : 2 ≤ countWithChips seats h) :
    RoundValid seats (resetPostflopBettingRound params h) := by
  have hpos : 0 < countWithChips seats h := by omega
  obtain ⟨i, _, hi⟩ := List.countP_pos_iff.mp hpos
  simp only [Bool.and_eq_true, decide_eq_true_eq] at hi
  have hallIn : h.allIn i = false := by
    cases hallIn : h.allIn i with
    | false => rfl
    | true =>
      have hzero := hempty i hi.1 hallIn
      omega
  have hneeds : needsToAct (resetPostflopBettingRound params h) i = true := by
    have hlive := hi.1
    simp only [inHandNotFolded, Bool.and_eq_true, Bool.not_eq_true'] at hlive
    have hfirst : int32 0 = 0 := by decide
    simp [needsToAct, resetPostflopBettingRound, hlive, hallIn, hfirst]
  exact ⟨hempty, fun _ j _ _ => Nat.zero_le _, fun _ j hj => nextActiveToAct_needs hj, fun _ =>
    nextActiveToAct_ne_none h.buttonSeat hneeds⟩

theorem HandChange.round (hvalid : RoundValid seats h)
    (hchange : HandChange params seats h seats' h') : RoundValid seats' h' := by
  cases hchange with
  | @turn _ middle _ _ _ hacted hincomplete =>
    obtain ⟨hempty, hlevel⟩ := performAction_round hvalid.allIn
      (hvalid.level (Or.inr hacted.phase)) hacted.performed
    obtain ⟨i, hneeds⟩ := (streetComplete_eq_false_iff middle).mp hincomplete
    exact ⟨hempty, fun _ => hlevel, fun _ j hj => nextActiveToAct_needs hj, fun _ =>
      nextActiveToAct_ne_none _ hneeds⟩
  | @close _ _ _ settled _ _ _ hacted hexcess =>
    obtain ⟨hempty, _⟩ := performAction_round hvalid.allIn
      (hvalid.level (Or.inr hacted.phase)) hacted.performed
    have hsettled := returnUncalledStreetExcess_allInEmpty hempty hexcess
    exact .of_not_inRound hsettled (awaitPhase_not_inRound settled.street rfl)
  | card htarget _ =>
    have hout := boardTarget_not_inRound htarget
    exact .of_not_inRound hvalid.allIn hout
  | await => exact .of_not_inRound hvalid.allIn (awaitPhase_not_inRound _ rfl)
  | resume _ hchips =>
    have hempty := hvalid.allIn
    exact resetPostflopBettingRound_valid hempty hchips
  | @hole cardID _ seat holeIdx hphase _ =>
    have hstack := (revealHole_credits seats seat holeIdx cardID).2
    refine .of_not_inRound ?_ (awaitPhase_not_inRound .river hphase)
    intro i hlive hallIn
    rw [hstack]
    exact hvalid.allIn i hlive hallIn
  | deal hphase _ =>
    have hlevel := hvalid.level (Or.inl hphase)
    have hneeds := hvalid.onAction (Or.inl hphase)
    refine ⟨hvalid.allIn, fun _ => hlevel, fun _ => hneeds, ?_⟩
    intro hbetting hnone
    simp only at hbetting hnone
    rw [if_pos hnone] at hbetting
    cases hbetting

theorem HandStep.round (hvalid : RoundValid seats h)
    (hstep : HandStep params seats h seats' (some h')) : RoundValid seats' h' := by
  rcases hstep.change with ⟨rfl, _, rfl⟩ | ⟨next, _, _, _, hchange, rfl⟩
  · exact ⟨hvalid.1, hvalid.2, hvalid.3, hvalid.4⟩
  · have hnext := hchange.round hvalid
    exact ⟨hnext.1, hnext.2, hnext.3, hnext.4⟩

end OnChainPoker.Poker
