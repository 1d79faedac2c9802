import OnChainPoker.Foundation.Result
import OnChainPoker.Poker.Types

/-!
# Betting

The betting half of `logic.go`: seat order, blinds, the player actions and the
end of a betting street.  A function that mutates the table there takes and
returns the seats and the hand here; the hand comes back as `none` where the
source clears it.
-/

namespace OnChainPoker.Poker

open Foundation

def defaultDealerTimeoutSecs : Nat := 120

def defaultActionTimeoutSecs : Nat := 30

/-! ## Seat order -/

/-- The nine seats in the order `(from + step) % 9`, `step = 1 .. 9`. -/
def clockwiseAfter (start : Option SeatIdx) : List SeatIdx :=
  match start with
  | none => List.finRange 9
  | some i => (List.finRange 9).map fun step => i + step + 1

def occupiedSeatsWithStack (seats : Seats) : List SeatIdx :=
  (List.finRange 9).filter fun i => (seats i).stack ≠ 0

def seatOfPlayer (seats : Seats) (player : String) : Option SeatIdx :=
  if player = "" then none
  else (List.finRange 9).find? fun i => (seats i).player = player

def nextOccupiedSeat (seats : Seats) (start : Option SeatIdx) : Option SeatIdx :=
  ((clockwiseAfter start).find? fun i => 0 < (seats i).stack).or start

def blindSeats (seats : Seats) (buttonSeat : Option SeatIdx) :
    Option SeatIdx × Option SeatIdx :=
  let active := occupiedSeatsWithStack seats
  if active.length < 2 then (none, none)
  else if active.length = 2 then
    -- Heads-up: the button posts the small blind.
    (buttonSeat, nextOccupiedSeat seats buttonSeat)
  else
    let sbSeat := nextOccupiedSeat seats buttonSeat
    (sbSeat, nextOccupiedSeat seats sbSeat)

def autoAssignSeat (t : Table) : Except String SeatIdx :=
  let vacant := fun i => (t.seats i).player = ""
  if t.buttonSeat = none ∧ t.hand = none then
    require ((List.finRange 9).find? vacant) "table full"
  else
    let bbSeat :=
      match t.hand with
      | some h => some h.bigBlindSeat
      | none => (blindSeats t.seats t.buttonSeat).2.or t.buttonSeat
    require ((clockwiseAfter bbSeat).find? vacant) "table full"

/-! ## Player actions -/

/-- Move `amount` from the seat's stack into its commitments.  This is the
common tail of `postBlindCommit`, `applyCall` and `applyBetTo`. -/
def commitChips (seats : Seats) (h : Hand) (seat : SeatIdx) (amount : Nat) :
    Except String (Seats × Hand) := do
  let nextStreetCommit ← addUint64Checked (h.streetCommit seat) amount "street commit"
  let nextTotalCommit ← addUint64Checked (h.totalCommit seat) amount "total commit"
  let stack := (seats seat).stack - amount
  pure (Function.update seats seat { seats seat with stack := stack },
    { h with
      streetCommit := Function.update h.streetCommit seat nextStreetCommit
      totalCommit := Function.update h.totalCommit seat nextTotalCommit
      allIn :=
        if stack = 0 then Function.update h.allIn seat true else h.allIn })

def postBlindCommit (seats : Seats) (h : Hand) (seat : SeatIdx)
    (amount : Nat) : Except String (Seats × Hand) := do
  rejectIf (h.inHand seat = false) "seat not in hand"
  rejectIf ((seats seat).stack = 0) "no chips"
  commitChips seats h seat (min amount (seats seat).stack)

def needsToAct (h : Hand) (seat : SeatIdx) : Bool :=
  if !h.inHand seat || h.folded seat || h.allIn seat then false
  else h.lastIntervalActed seat ≠ int32 h.intervalId || h.streetCommit seat ≠ h.betTo

def nextActiveToAct (h : Hand) (start : Option SeatIdx) : Option SeatIdx :=
  (clockwiseAfter start).find? (needsToAct h)

def toCall (h : Hand) (seat : SeatIdx) : Nat := h.betTo - h.streetCommit seat

def inHandNotFolded (h : Hand) (seat : SeatIdx) : Bool :=
  h.inHand seat && !h.folded seat

def countNotFolded (h : Hand) : Nat := (List.finRange 9).countP (inHandNotFolded h)

def countWithChips (seats : Seats) (h : Hand) : Nat :=
  (List.finRange 9).countP fun i =>
    inHandNotFolded h i && decide (0 < (seats i).stack)

def validateRaiseAllowed (h : Hand) (seat : SeatIdx) : Except String Unit :=
  rejectIf (h.lastIntervalActed seat = int32 h.intervalId)
    "raise not allowed: already acted since last full raise"

def markActed (h : Hand) (seat : SeatIdx) : Hand :=
  { h with
    lastIntervalActed := Function.update h.lastIntervalActed seat (int32 h.intervalId) }

def nextInterval (intervalId : Nat) : Nat := (intervalId + 1) % 2 ^ 64

/-- The change of bet level of `applyBetTo`, before any chips move. -/
def raiseBetTo (minBet : Nat) (h : Hand) (seat : SeatIdx)
    (desiredCommit : Nat) (isAllIn : Bool) : Except String Hand :=
  let raiseSize := desiredCommit - h.betTo
  if h.betTo = 0 then do
    rejectIf (desiredCommit < minBet ∧ isAllIn = false)
      "bet size below big blind; only allowed if all-in"
    -- Any opening bet creates a new interval, even a short all-in.
    pure (markActed
      { h with
        intervalId := nextInterval h.intervalId
        minRaiseSize := max desiredCommit minBet
        betTo := desiredCommit } seat)
  else if raiseSize < h.minRaiseSize then do
    rejectIf (isAllIn = false) "raise size below minimum; only allowed if all-in"
    -- An all-in under-raise opens no interval and keeps the minimum raise.
    pure (markActed { h with betTo := desiredCommit } seat)
  else
    pure (markActed
      { h with
        intervalId := nextInterval h.intervalId
        minRaiseSize := raiseSize
        betTo := desiredCommit } seat)

def applyBetTo (minBet : Nat) (seats : Seats) (h : Hand) (seat : SeatIdx)
    (desiredCommit : Nat) : Except String (Seats × Hand) := do
  let currentCommit := h.streetCommit seat
  rejectIf (desiredCommit ≤ currentCommit) "BetTo must exceed current street commitment"
  let maxCommit ← addUint64Checked currentCommit (seats seat).stack "max commit"
  rejectIf (desiredCommit > maxCommit) "BetTo exceeds available chips"
  rejectIf (desiredCommit ≤ h.betTo)
    "BetTo must exceed current betTo (use call/check when not raising)"
  validateRaiseAllowed h seat
  let h' ← raiseBetTo minBet h seat desiredCommit (desiredCommit = maxCommit)
  commitChips seats h' seat (desiredCommit - currentCommit)

def applyCall (seats : Seats) (h : Hand) (seat : SeatIdx) :
    Except String (Seats × Hand) := do
  let need := toCall h seat
  rejectIf (need = 0) "call is not legal when facing 0"
  let (seats', h') ← commitChips seats h seat (min need (seats seat).stack)
  pure (seats', markActed h' seat)

def applyCheck (h : Hand) (seat : SeatIdx) : Except String Hand := do
  rejectIf (toCall h seat ≠ 0) "check is not legal when facing a bet"
  pure (markActed h seat)

def applyFold (h : Hand) (seat : SeatIdx) : Hand :=
  markActed { h with folded := Function.update h.folded seat true } seat

/-! ## End of a street -/

def streetComplete (h : Hand) : Bool :=
  (List.finRange 9).all fun i =>
    !h.inHand i || h.folded i || h.allIn i ||
      (h.streetCommit i = h.betTo ∧ h.lastIntervalActed i = int32 h.intervalId)

def maxCommitThisStreet (h : Hand) : Nat :=
  (List.finRange 9).foldl (fun m i => max m (h.streetCommit i)) 0

def secondMaxCommitThisStreet (h : Hand) (maximum : Nat) : Nat :=
  (List.finRange 9).foldl
    (fun s i =>
      if h.streetCommit i = maximum then s else max s (h.streetCommit i)) 0

def returnUncalledStreetExcess (seats : Seats) (h : Hand) :
    Except String (Seats × Hand) :=
  let maximum := maxCommitThisStreet h
  let second := secondMaxCommitThisStreet h maximum
  let excess := maximum - second
  if maximum = 0 ∨ second = maximum then pure (seats, h)
  else
    -- Only a seat that alone holds the maximum has an uncalled excess.
    match (List.finRange 9).filter fun i => h.streetCommit i = maximum with
    | [maxSeat] => do
        let nextStack ← addUint64Checked (seats maxSeat).stack excess "seat stack"
        rejectIf (h.streetCommit maxSeat < excess)
          "street commit underflow on uncalled excess return"
        rejectIf (h.totalCommit maxSeat < excess)
          "total commit underflow on uncalled excess return"
        pure (Function.update seats maxSeat { seats maxSeat with stack := nextStack },
          { h with
            streetCommit := Function.update h.streetCommit maxSeat
              (h.streetCommit maxSeat - excess)
            totalCommit := Function.update h.totalCommit maxSeat
              (h.totalCommit maxSeat - excess)
            allIn :=
              if 0 < nextStack then Function.update h.allIn maxSeat false
              else h.allIn })
    | _ => pure (seats, h)

def clearHoles (seats : Seats) : Seats :=
  fun i => { seats i with hole := fun _ => unknownCard }

def potTotal (h : Hand) : Except String Nat :=
  (List.finRange 9).foldlM
    (fun pot i => addUint64Checked pot (h.totalCommit i) "pot total") 0

/-- The hand ends here in every case, so only the seats are returned. -/
def completeByFolds (seats : Seats) (h : Hand) : Except String Seats :=
  match (List.finRange 9).find? (inHandNotFolded h) with
  | none => pure seats
  | some winnerSeat => do
      let (seats, h) ← returnUncalledStreetExcess seats h
      let pot ← potTotal h
      let nextStack ← addUint64Checked (seats winnerSeat).stack pot "winner stack"
      pure (clearHoles (Function.update seats winnerSeat
        { seats winnerSeat with stack := nextStack }))

def awaitPhase : Street → HandPhase
  | .preflop => .awaitFlop
  | .flop => .awaitTurn
  | .turn => .awaitRiver
  | .river => .awaitShowdown

def maybeAdvance (seats : Seats) (h : Hand) : Except String (Seats × Option Hand) :=
  if countNotFolded h ≤ 1 then do
    let seats ← completeByFolds seats h
    pure (seats, none)
  else if streetComplete h = false then
    pure (seats, some { h with actionOn := nextActiveToAct h h.actionOn })
  else do
    let (seats, h) ← returnUncalledStreetExcess seats h
    pure (seats, some { h with actionOn := none, phase := awaitPhase h.street })

end OnChainPoker.Poker
