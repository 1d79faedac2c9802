import OnChainPoker.Poker.HandInvariant

/-!
# How chips and cards move while a hand goes on

`HandMoves` collects what every step of a continuing hand guarantees seat by
seat: chips stay with their seat, only a player who is still in the hand puts
chips in, nobody enters the hand, and the commitments of the street stay within
those of the hand.
-/

namespace OnChainPoker.Poker

open Foundation

variable {h h' : Hand} {seats seats' : Seats} {seat : SeatIdx} {amount : Nat} {params : TableParams}

structure HandMoves (seats : Seats) (h : Hand) (seats' : Seats) (h' : Hand) :
    Prop where
  keeps : KeepsChips seats h seats' h'
  inHand : h'.inHand = h.inHand
  live : ∀ i, inHandNotFolded h' i = true → inHandNotFolded h i = true
  idle : ∀ i, inHandNotFolded h i = false → h'.totalCommit i ≤ h.totalCommit i
  street : (∀ i, h.streetCommit i ≤ h.totalCommit i) →
    ∀ i, h'.streetCommit i ≤ h'.totalCommit i

theorem HandMoves.trans {first second third : Seats} {h h' h'' : Hand}
    (hfirst : HandMoves first h second h') (hsecond : HandMoves second h' third h'') :
    HandMoves first h third h'' := by
  refine ⟨hfirst.keeps.trans hsecond.keeps, hsecond.inHand.trans hfirst.inHand, fun i hi =>
    hfirst.live i (hsecond.live i hi), ?_, fun hle => hsecond.street (hfirst.street hle)⟩
  intro i hi
  have hidle : inHandNotFolded h' i = false := by
    cases hlive : inHandNotFolded h' i with
    | false => rfl
    | true => rw [hfirst.live i hlive] at hi; cases hi
  exact le_trans (hsecond.idle i hidle) (hfirst.idle i hi)

theorem handMoves_of_same (seats : Seats) (hinHand : h'.inHand = h.inHand)
    (hfolded : h'.folded = h.folded) (htotal : h'.totalCommit = h.totalCommit)
    (hstreet : ∀ i, h'.streetCommit i ≤ h.streetCommit i) :
    HandMoves seats h seats h' := by
  refine ⟨keepsChips_of_totalCommit seats htotal, hinHand, ?_, ?_, ?_⟩
  · intro i hi
    rwa [inHandNotFolded, hinHand, hfolded] at hi
  · intro i _
    rw [htotal]
  · intro hle i
    rw [htotal]
    exact le_trans (hstreet i) (hle i)

theorem commitChips_moves (hlive : inHandNotFolded h seat = true)
    (hamount : amount ≤ (seats seat).stack)
    (hok : commitChips seats h seat amount = .ok (seats', h')) :
    HandMoves seats h seats' h' := by
  have hkeeps := commitChips_keeps hamount hok
  obtain ⟨_, rfl⟩ := commitChips_ok hok
  refine ⟨hkeeps, rfl, fun i hi => hi, ?_, ?_⟩
  · intro i hi
    have hne : i ≠ seat := by
      rintro rfl
      rw [hlive] at hi
      cases hi
    simp [hne]
  · intro hle i
    by_cases hi : i = seat
    · subst hi
      simpa using hle i
    · simpa [hi] using hle i

theorem performAction_moves {action : Action} (hlive : inHandNotFolded h seat = true)
    (hok : performAction params seats h seat action amount = .ok (seats', h')) :
    HandMoves seats h seats' h' := by
  cases performAction_cases hok with
  | fold =>
    refine ⟨keepsChips_of_totalCommit seats rfl, rfl, ?_, fun i _ => Nat.le_refl _, fun hle => hle⟩
    intro i hi
    by_cases hseat : i = seat
    · subst hseat
      exact hlive
    · simpa [inHandNotFolded, applyFold, markActed, hseat] using hi
  | check _ => exact handMoves_of_same seats rfl rfl rfl fun i => Nat.le_refl _
  | call _ hcommit =>
    exact (commitChips_moves hlive (Nat.min_le_right _ _) hcommit).trans
      (handMoves_of_same _ rfl rfl rfl fun i => Nat.le_refl _)
  | bet hbet | raise hbet =>
    obtain ⟨_, _, _, _, hle, hcommit⟩ := applyBetTo_ok hbet
    have hpaid := commitChips_moves (by exact hlive) hle hcommit
    refine HandMoves.trans ?_ hpaid
    exact handMoves_of_same seats rfl rfl rfl fun i => Nat.le_refl _

theorem returnUncalledStreetExcess_moves
    (hok : returnUncalledStreetExcess seats h = .ok (seats', h')) :
    HandMoves seats h seats' h' := by
  have hkeeps := returnUncalledStreetExcess_keeps hok
  cases returnUncalledStreetExcess_cases hok with
  | same => exact handMoves_of_same _ rfl rfl rfl fun i => Nat.le_refl _
  | refund maxSeat _ _ _ =>
    refine ⟨hkeeps, rfl, fun i hi => hi, ?_, ?_⟩
    · intro i _
      by_cases hi : i = maxSeat
      · subst hi
        simp
      · simp [hi]
    · intro hle i
      by_cases hi : i = maxSeat
      · subst hi
        simpa using Nat.sub_le_sub_right (hle i) _
      · simpa [hi] using hle i

theorem revealHole_moves (seats : Seats) (h : Hand) (seat : SeatIdx)
    (holeIdx : Fin 2) (cardID : Nat) :
    HandMoves seats h (revealHole seats seat holeIdx cardID) h := by
  obtain ⟨howners, hstacks⟩ := revealHole_credits seats seat holeIdx cardID
  refine ⟨⟨howners, ?_⟩, rfl, fun i hi => hi, fun i _ => Nat.le_refl _, fun hle => hle⟩
  intro i
  rw [hstacks]

theorem HandChange.moves (hchange : HandChange params seats h seats' h') :
    HandMoves seats h seats' h' := by
  cases hchange with
  | turn hacted =>
    exact (performAction_moves hacted.live hacted.performed).trans
      (handMoves_of_same _ rfl rfl rfl fun i => Nat.le_refl _)
  | close hacted hexcess =>
    have hmoves := performAction_moves hacted.live hacted.performed
    exact (hmoves.trans (returnUncalledStreetExcess_moves hexcess)).trans
      (handMoves_of_same _ rfl rfl rfl fun i => Nat.le_refl _)
  | card | await | deal => exact handMoves_of_same seats rfl rfl rfl fun i => Nat.le_refl _
  | resume => exact handMoves_of_same seats rfl rfl rfl fun i => Nat.zero_le _
  | hole => exact revealHole_moves _ _ _ _ _

theorem HandStep.moves (hstep : HandStep params seats h seats' (some h')) :
    HandMoves seats h seats' h' := by
  rcases hstep.change with ⟨rfl, _, rfl⟩ | ⟨next, _, _, _, hchange, rfl⟩
  · exact handMoves_of_same _ rfl rfl rfl fun i => Nat.le_refl _
  · exact hchange.moves.trans (handMoves_of_same _ rfl rfl rfl fun i => Nat.le_refl _)

end OnChainPoker.Poker
