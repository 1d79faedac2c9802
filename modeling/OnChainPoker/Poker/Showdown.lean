import OnChainPoker.Holdem.Eval
import OnChainPoker.Poker.Betting

/-!
# Side pots and showdown

`computeSidePots` slices the commitments into tiers; each pass of its loop
removes at least the seats that hold the minimum, so the number of remaining
seats bounds the number of passes.  `settleKnownShowdown` first decides the
winners of every pot, paying pots without any revealed hand back on the way,
and then awards the pots.  The hand ends in every case, so only the seats are
returned.
-/

namespace OnChainPoker.Poker

open Foundation Holdem

structure SidePot where
  amount : Nat
  eligibleSeats : List SeatIdx
  deriving DecidableEq, Repr

structure Rem where
  seat : SeatIdx
  amount : Nat
  eligible : Bool
  deriving DecidableEq, Repr

def remainingCommits (totalCommit : SeatIdx → Nat)
    (eligibleForWin : SeatIdx → Bool) : List Rem :=
  ((List.finRange 9).filter fun i => totalCommit i ≠ 0).map fun i =>
    ⟨i, totalCommit i, eligibleForWin i⟩

def minAmount : List Rem → Nat
  | [] => 0
  | r :: rest => rest.foldl (fun m r => min m r.amount) r.amount

def eligibleRems (remaining : List Rem) : List SeatIdx :=
  (remaining.filter (·.eligible)).map (·.seat)

def sliceTier (minimum : Nat) (remaining : List Rem) : List Rem :=
  (remaining.map fun r => { r with amount := r.amount - minimum }).filter
    fun r => 0 < r.amount

def potsByTier : Nat → List Rem → Except String (List SidePot)
  | 0, _ => pure []
  | _ + 1, [] => pure []
  | passes + 1, remaining => do
      let minimum := minAmount remaining
      let potAmount ← mulUint64Checked minimum remaining.length "pot amount"
      let pots ← potsByTier passes (sliceTier minimum remaining)
      pure (⟨potAmount, eligibleRems remaining⟩ :: pots)

/-- Merge a tier into the last pot; `merged` is held newest first. -/
def mergeTier (merged : List SidePot) (p : SidePot) : Except String (List SidePot) :=
  match merged with
  | [] => pure [p]
  | last :: earlier =>
    if last.eligibleSeats = p.eligibleSeats then do
      let nextAmt ← addUint64Checked last.amount p.amount "merged pot amount"
      pure ({ last with amount := nextAmt } :: earlier)
    else pure (p :: last :: earlier)

def computeSidePots (totalCommit : SeatIdx → Nat)
    (eligibleForWin : SeatIdx → Bool) : Except String (List SidePot) := do
  let remaining := remainingCommits totalCommit eligibleForWin
  let tiers ← potsByTier remaining.length remaining
  let merged ← tiers.foldlM mergeTier []
  pure merged.reverse

/-! ## Settlement -/

def credit (seats : Seats) (seat : SeatIdx) (amount : Nat) (field : String) :
    Except String Seats := do
  let nextStack ← addUint64Checked (seats seat).stack amount field
  pure (Function.update seats seat { seats seat with stack := nextStack })

def refundCommits (seats : Seats) (h : Hand) : Except String Seats :=
  (List.finRange 9).foldlM
    (fun seats i => credit seats i (h.totalCommit i) "seat stack refund") seats

/-- The map `holeBySeat`: eligible seats whose two hole cards are public. -/
def holeBySeat (seats : Seats) (eligibleSeats : List SeatIdx) : List Entry :=
  (eligibleSeats.filter fun i =>
      (seats i).hole 0 ≠ unknownCard ∧ (seats i).hole 1 ≠ unknownCard).map
    fun i => ⟨i, toCard ((seats i).hole 0), toCard ((seats i).hole 1)⟩

inductive PotOutcome where
  | skip
  | won (winners : List SeatIdx)
  | refund
  | evalError (text : String)
  deriving DecidableEq, Repr

def decidePot (seats : Seats) (board5 : List Card) (pot : SidePot) :
    Except String PotOutcome :=
  if pot.amount = 0 ∨ pot.eligibleSeats = [] then pure .skip
  else
    match pot.eligibleSeats, holeBySeat seats pot.eligibleSeats with
    | [seat], _ => pure (.won [seat])
    | _, [entry] => pure (.won [entry.seat])
    | _, [] => pure .refund
    | _, entries =>
      match winners board5 entries with
      | .ok seats => pure (.won seats)
      | .error (.err text) => pure (.evalError text)
      | .error (.crash text) => .error text

def refundPot (seats : Seats) (pot : SidePot) : Except String Seats :=
  let share := pot.amount / pot.eligibleSeats.length
  let rem := pot.amount % pot.eligibleSeats.length
  match pot.eligibleSeats with
  | [] => pure seats
  | first :: others => do
      let seats ← credit seats first (share + rem) "seat stack refund"
      others.foldlM (fun seats i => credit seats i share "seat stack refund") seats

/-- The first loop of `settleKnownShowdown`: the winners of each pot, or `none`
after an evaluation error, when all commitments have been refunded. -/
def assignPots (h : Hand) (board5 : List Card) :
    Seats → List SidePot → Except String (Seats × Option (List (List SeatIdx)))
  | seats, [] => pure (seats, some [])
  | seats, pot :: rest => do
      match ← decidePot seats board5 pot with
      | .skip => do
          let (seats, potWinners) ← assignPots h board5 seats rest
          pure (seats, potWinners.map ([] :: ·))
      | .won ws => do
          let (seats, potWinners) ← assignPots h board5 seats rest
          pure (seats, potWinners.map (ws :: ·))
      | .refund => do
          let seats ← refundPot seats pot
          let (seats, potWinners) ← assignPots h board5 seats rest
          pure (seats, potWinners.map ([] :: ·))
      | .evalError _ => do
          let seats ← refundCommits seats h
          pure (seats, none)

def awardPot (seats : Seats) (pot : SidePot) (winners : List SeatIdx) :
    Except String Seats :=
  let share := pot.amount / winners.length
  let rem := pot.amount % winners.length
  match winners with
  | [] => pure seats
  | first :: others =>
    if pot.amount = 0 ∨ pot.eligibleSeats = [] then pure seats
    else do
      let seats ← credit seats first share "seat stack award"
      let seats ← credit seats first rem "seat stack remainder award"
      others.foldlM (fun seats i => credit seats i share "seat stack award") seats

def awardPots : Seats → List SidePot → List (List SeatIdx) → Except String Seats
  | seats, pot :: pots, ws :: potWinners => do
      let seats ← awardPot seats pot ws
      awardPots seats pots potWinners
  | seats, _, _ => pure seats

def settleKnownShowdown (seats : Seats) (h : Hand) : Except String Seats :=
  if h.board.length < 5 then pure seats
  else do
    let pots ← computeSidePots h.totalCommit (inHandNotFolded h)
    let board5 := (h.board.take 5).map toCard
    match ← assignPots h board5 seats pots with
    | (seats, none) => pure (clearHoles seats)
    | (seats, some potWinners) => do
        let seats ← awardPots seats pots potWinners
        pure (clearHoles seats)

end OnChainPoker.Poker
