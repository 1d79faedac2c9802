import OnChainPoker.Poker.Showdown

/-!
# Dealer reveals, deadlines and actions

The half of `logic.go` that follows the dealer: which deck position is revealed
next, what a reveal does to the hand, and the deadlines that are set after every
change.
-/

namespace OnChainPoker.Poker

open Foundation

/-! ## Reveal positions -/

def dealerPosToSeatHole (holePos : SeatIdx → Fin 2 → Nat) (pos : Nat) :
    Option (SeatIdx × Fin 2) :=
  ((List.finRange 9).flatMap fun seat => [(seat, 0), (seat, 1)]).find?
    fun entry => holePos entry.1 entry.2 = pos

def seatHolePositions (h : Hand) (seat : SeatIdx) : Except String (List Nat) :=
  if inHandNotFolded h seat = false then pure []
  else do
    let holePos := h.dealer.holePos seat
    rejectIf (holePos 0 = unsetPos ∨ holePos 1 = unsetPos)
      s!"holePos unset for seat {seat}"
    pure [holePos 0, holePos 1]

def dealerEligibleShowdownHolePositions (h : Hand) : Except String (List Nat) := do
  let pos ← (List.finRange 9).foldlM (fun pos seat => do
    let own ← seatHolePositions h seat
    pure (pos ++ own)) []
  pure (pos.insertionSort (· ≤ ·))

def holeHidden (seats : Seats) (h : Hand) (pos : Nat) : Bool :=
  match dealerPosToSeatHole h.dealer.holePos pos with
  | none => false
  | some (seat, holeIdx) => (seats seat).hole holeIdx = unknownCard

def dealerNextShowdownHolePos (seats : Seats) (h : Hand) :
    Except String (Option Nat) := do
  let pos ← dealerEligibleShowdownHolePositions h
  pure (pos.find? (holeHidden seats h))

def boardPos (h : Hand) : Nat := (h.dealer.cursor + h.board.length) % 2 ^ 32

def expectBoardPos (h : Hand) : Except String (Option Nat) := do
  rejectIf (boardPos h ≥ h.dealer.deckSize) "board pos out of bounds"
  pure (some (boardPos h))

def dealerExpectedRevealPos (seats : Seats) (h : Hand) :
    Except String (Option Nat) := do
  rejectIf (h.dealer.deckFinalized = false) "deck not finalized"
  rejectIf (h.dealer.deckSize = 0) "empty dealer deck"
  match h.phase with
  | .awaitFlop => do
      rejectIf (h.board.length > 2) s!"awaitFlop but board has {h.board.length} cards"
      expectBoardPos h
  | .awaitTurn => do
      rejectIf (h.board.length ≠ 3) s!"awaitTurn but board has {h.board.length} cards"
      expectBoardPos h
  | .awaitRiver => do
      rejectIf (h.board.length ≠ 4) s!"awaitRiver but board has {h.board.length} cards"
      expectBoardPos h
  | .awaitShowdown => do
      rejectIf (h.board.length ≠ 5)
        s!"awaitShowdown but board has {h.board.length} cards"
      dealerNextShowdownHolePos seats h
  | _ => pure none

/-! ## Deadlines -/

def tableDealerTimeoutSecs (params : TableParams) : Nat :=
  if params.dealerTimeoutSecs = 0 then defaultDealerTimeoutSecs
  else params.dealerTimeoutSecs

def tableActionTimeoutSecs (params : TableParams) : Nat :=
  if params.actionTimeoutSecs = 0 then defaultActionTimeoutSecs
  else params.actionTimeoutSecs

def setRevealDeadlineIfAwaiting (params : TableParams) (seats : Seats)
    (h : Hand) (nowUnix : Int) : Except String Hand := do
  match ← dealerExpectedRevealPos seats h with
  | none =>
    pure { h with
      dealer := { h.dealer with revealPos := unsetPos, revealDeadline := 0 } }
  | some pos => do
      let deadline ← addInt64AndU64Checked nowUnix
        (tableDealerTimeoutSecs params) "reveal deadline"
      pure { h with
        dealer := { h.dealer with revealPos := pos, revealDeadline := deadline } }

def setActionDeadlineIfBetting (params : TableParams) (h : Hand)
    (nowUnix : Int) : Except String Hand :=
  if h.phase ≠ .betting ∨ h.actionOn = none then
    pure { h with actionDeadline := 0 }
  else do
    let deadline ← addInt64AndU64Checked nowUnix
      (tableActionTimeoutSecs params) "action deadline"
    pure { h with actionDeadline := deadline }

def setDeadlines (params : TableParams) (seats : Seats) (h : Hand)
    (nowUnix : Int) : Except String Hand := do
  let h ← setRevealDeadlineIfAwaiting params seats h nowUnix
  setActionDeadlineIfBetting params h nowUnix

def setDeadlinesIfActive (params : TableParams) (seats : Seats)
    (nowUnix : Int) : Option Hand → Except String (Option Hand)
  | none => pure none
  | some h => some <$> setDeadlines params seats h nowUnix

/-! ## Reveals -/

def resetPostflopBettingRound (params : TableParams) (h : Hand) : Hand :=
  let h := { h with
    betTo := 0
    minRaiseSize := params.bigBlind
    intervalId := 0
    streetCommit := fun _ => 0
    lastIntervalActed := fun _ => -1 }
  { h with actionOn := nextActiveToAct h h.buttonSeat }

/-- Enter a street whose board is complete: betting resumes when two players
can still bet, otherwise the next card is awaited at once. -/
def enterStreet (params : TableParams) (seats : Seats) (h : Hand)
    (street : Street) : Hand :=
  let h := { h with street := street }
  if countWithChips seats h < 2 then
    { h with phase := awaitPhase street, actionOn := none }
  else resetPostflopBettingRound params { h with phase := .betting }

def applyBoardReveal (params : TableParams) (seats : Seats) (h : Hand)
    (pos cardID boardLen : Nat) (street : Street) : Except String Hand := do
  rejectIf (h.dealer.deckFinalized = false) "deck not finalized"
  rejectIf (pos ≠ boardPos h) s!"unexpected reveal pos: expected {boardPos h} got {pos}"
  let h := { h with board := h.board ++ [cardID] }
  pure (if h.board.length = boardLen then enterStreet params seats h street
    else h)

def applyHoleReveal (seats : Seats) (h : Hand) (pos cardID : Nat) :
    Except String (Seats × Option Hand) := do
  let (seat, holeIdx) ← require (dealerPosToSeatHole h.dealer.holePos pos)
    s!"pos {pos} is not a revealable hole card"
  rejectIf (inHandNotFolded h seat = false)
    s!"seat {seat} not eligible for showdown reveal"
  let seats := Function.update seats seat
    { seats seat with
      hole := Function.update (seats seat).hole holeIdx cardID }
  match ← dealerNextShowdownHolePos seats h with
  | some _ => pure (seats, some h)
  | none => do
      let seats ← settleKnownShowdown seats h
      pure (seats, none)

def applyDealerRevealToPoker (params : TableParams) (seats : Seats) (h : Hand)
    (pos cardID : Nat) : Except String (Seats × Option Hand) :=
  match h.phase with
  | .awaitFlop => do
      let h ← applyBoardReveal params seats h pos cardID 3 .flop
      pure (seats, some h)
  | .awaitTurn => do
      let h ← applyBoardReveal params seats h pos cardID 4 .turn
      pure (seats, some h)
  | .awaitRiver => do
      let h ← applyBoardReveal params seats h pos cardID 5 .river
      pure (seats, some h)
  | .awaitShowdown => applyHoleReveal seats h pos cardID
  | _ => .error "hand not in an await phase"

/-! ## Actions -/

inductive Action where
  | fold
  | check
  | call
  | bet
  | raise
  | other (text : String)
  deriving DecidableEq, Repr

def Action.ofString (action : String) : Action :=
  if action = "fold" then .fold
  else if action = "check" then .check
  else if action = "call" then .call
  else if action = "bet" then .bet
  else if action = "raise" then .raise
  else .other action

def performAction (params : TableParams) (seats : Seats) (h : Hand)
    (seat : SeatIdx) (action : Action) (amount : Nat) :
    Except String (Seats × Hand) :=
  match action with
  | .fold => pure (seats, applyFold h seat)
  | .check => do
      let h ← applyCheck h seat
      pure (seats, h)
  | .call => applyCall seats h seat
  | .bet => do
      rejectIf (h.betTo ≠ 0) "cannot bet; use raise"
      rejectIf (amount = 0) "bet amount must be > 0"
      applyBetTo params.bigBlind seats h seat amount
  | .raise => do
      rejectIf (h.betTo = 0) "cannot raise; use bet"
      rejectIf (amount = 0) "raise amount must be > 0"
      applyBetTo params.bigBlind seats h seat amount
  | .other _ => .error "unknown action"

def applyAction (params : TableParams) (seats : Seats) (h : Hand)
    (action : Action) (amount : Nat) (nowUnix : Int) :
    Except String (Seats × Option Hand) := do
  rejectIf (h.phase ≠ .betting) "hand not in betting phase"
  let actor ← require h.actionOn "invalid actionOn seat"
  rejectIf (inHandNotFolded h actor = false ∨ h.allIn actor = true)
    "actor not eligible to act"
  let (seats, h) ← performAction params seats h actor action amount
  let (seats, hand) ← maybeAdvance seats h
  let hand ← setDeadlinesIfActive params seats nowUnix hand
  pure (seats, hand)

end OnChainPoker.Poker
