import Mathlib.Data.List.Sort
import OnChainPoker.Foundation.Result
import OnChainPoker.Poker.Types

/-!
# Hand evaluation

The evaluator of `internal/holdem`.  A card is a `uint8`; `cards.Card(x)` of a
wider integer keeps its low byte.  `Evaluate7` panics where `Winners` returns an
error: a panic aborts the transaction, an error is handled by the caller, so
the two failures are kept apart.
-/

namespace OnChainPoker.Holdem

open Foundation
open Poker (SeatIdx)

abbrev Card := Nat

def toCard (x : Nat) : Card := x % 256

def Card.rank (c : Card) : Nat := c % 13 + 2

def Card.suit (c : Card) : Nat := c / 13

inductive HandCategory where
  | highCard
  | onePair
  | twoPair
  | trips
  | straight
  | flush
  | fullHouse
  | quads
  | straightFlush
  deriving DecidableEq, Repr

def HandCategory.toNat : HandCategory → Nat
  | highCard => 0
  | onePair => 1
  | twoPair => 2
  | trips => 3
  | straight => 4
  | flush => 5
  | fullHouse => 6
  | quads => 7
  | straightFlush => 8

structure HandRank where
  category : HandCategory
  tiebreakers : List Nat
  deriving DecidableEq, Repr

/-- Lexicographic comparison in which a missing entry counts as zero. -/
def compareTiebreakers : List Nat → List Nat → Ordering
  | [], bs => if bs.all (· = 0) then .eq else .lt
  | a :: as, bs =>
    if a = bs.headD 0 then compareTiebreakers as bs.tail
    else if a < bs.headD 0 then .lt else .gt

def compareHandRank (a b : HandRank) : Ordering :=
  if a.category ≠ b.category then
    if a.category.toNat < b.category.toNat then .lt else .gt
  else compareTiebreakers a.tiebreakers b.tiebreakers

/-- `err` is a returned error, `crash` a panic. -/
inductive Failure where
  | err (text : String)
  | crash (text : String)
  deriving DecidableEq, Repr

def assertDistinctFrom (label : String) : List Card → List Card → Except Failure Unit
  | _, [] => .ok ()
  | seen, c :: rest =>
    if c > 51 then .error (.err s!"{label} contains invalid card id {c}")
    else if c ∈ seen then
      .error (.err s!"{label} contains duplicate card id {c}")
    else assertDistinctFrom label (c :: seen) rest

def assertDistinct (cards : List Card) (label : String) : Except Failure Unit :=
  assertDistinctFrom label [] cards

def ranksDesc (cards : List Card) : List Nat :=
  (cards.map Card.rank).insertionSort (· ≥ ·)

def straightHighFromRanksDesc (uniqueRanksDesc : List Nat) : Option Nat :=
  match uniqueRanksDesc with
  | [a, b, c, d, e] =>
    if a = 14 ∧ b = 5 ∧ c = 4 ∧ d = 3 ∧ e = 2 then some 5
    else if a - 1 = b ∧ b - 1 = c ∧ c - 1 = d ∧ d - 1 = e then some a
    else none
  | _ => none

def rankGroups (ranks : List Nat) : List (Nat × Nat) :=
  (ranks.dedup.map fun r => (r, ranks.count r)).insertionSort
    fun x y => x.2 > y.2 ∨ (x.2 = y.2 ∧ x.1 ≥ y.1)

def kickers (groups : List (Nat × Nat)) : List Nat :=
  (groups.filter fun g => g.2 = 1).map (·.1)

def rank5 (cards5 : List Card) : HandRank :=
  let isFlush := cards5.all fun c => c.suit = (cards5.headD 0).suit
  let ranks := ranksDesc cards5
  let straightHigh := straightHighFromRanksDesc ranks.dedup
  let groups := rankGroups ranks
  let top := groups.getD 0 (0, 0)
  let next := groups.getD 1 (0, 0)
  match straightHigh, isFlush with
  | some high, true => ⟨.straightFlush, [high]⟩
  | _, _ =>
    if top.2 = 4 then ⟨.quads, [top.1, (kickers groups).headD 0]⟩
    else if top.2 = 3 ∧ next.2 = 2 then ⟨.fullHouse, [top.1, next.1]⟩
    else if isFlush then ⟨.flush, ranks⟩
    else match straightHigh with
    | some high => ⟨.straight, [high]⟩
    | none =>
      if top.2 = 3 then
        ⟨.trips, top.1 :: (kickers groups).insertionSort (· ≥ ·)⟩
      else if top.2 = 2 ∧ next.2 = 2 then
        ⟨.twoPair, [max top.1 next.1, min top.1 next.1, (kickers groups).headD 0]⟩
      else if top.2 = 2 then
        ⟨.onePair, top.1 :: (kickers groups).insertionSort (· ≥ ·)⟩
      else ⟨.highCard, ranks⟩

def evaluate5 (cards5 : List Card) : Except Failure HandRank := do
  rejectIf (cards5.length ≠ 5)
    (.err s!"evaluate5 expected 5 cards, got {cards5.length}")
  assertDistinct cards5 "cards5"
  pure (rank5 cards5)

def combos7Choose5 : List (List Nat) :=
  [[0, 1, 2, 3, 4], [0, 1, 2, 3, 5], [0, 1, 2, 3, 6], [0, 1, 2, 4, 5],
   [0, 1, 2, 4, 6], [0, 1, 2, 5, 6], [0, 1, 3, 4, 5], [0, 1, 3, 4, 6],
   [0, 1, 3, 5, 6], [0, 1, 4, 5, 6], [0, 2, 3, 4, 5], [0, 2, 3, 4, 6],
   [0, 2, 3, 5, 6], [0, 2, 4, 5, 6], [0, 3, 4, 5, 6], [1, 2, 3, 4, 5],
   [1, 2, 3, 4, 6], [1, 2, 3, 5, 6], [1, 2, 4, 5, 6], [1, 3, 4, 5, 6],
   [2, 3, 4, 5, 6]]

/-- A returned error of an inner call that the caller turns into a panic. -/
def crashOnErr {α : Type} (result : Except Failure α) : Except Failure α :=
  result.mapError fun
    | .err text => .crash text
    | .crash text => .crash text

def evaluate7 (cards7 : List Card) : Except Failure HandRank := do
  rejectIf (cards7.length ≠ 7)
    (.crash s!"Evaluate7 expected 7 cards, got {cards7.length}")
  crashOnErr (assertDistinct cards7 "cards7")
  let best ← combos7Choose5.foldlM (fun best idx => do
    let r ← crashOnErr (evaluate5 (idx.map fun i => cards7.getD i 0))
    pure (match best with
      | none => some r
      | some b => if compareHandRank r b = .gt then some r else some b)) none
  require best (.crash "nil dereference")

structure Entry where
  seat : SeatIdx
  hole : Card × Card
  deriving DecidableEq, Repr

def considerEntry (board5 : List Card) (best : Option (HandRank × List SeatIdx))
    (e : Entry) : Except Failure (Option (HandRank × List SeatIdx)) := do
  let cards7 := board5 ++ [e.hole.1, e.hole.2]
  assertDistinct cards7 s!"seat {e.seat} cards"
  let r ← evaluate7 cards7
  pure (match best with
    | none => some (r, [e.seat])
    | some (bestRank, bestSeats) =>
      match compareHandRank r bestRank with
      | .gt => some (r, [e.seat])
      | .eq => some (bestRank, bestSeats ++ [e.seat])
      | .lt => some (bestRank, bestSeats))

/-- `holeBySeat` lists the map's entries; they are visited by ascending seat. -/
def winners (board5 : List Card) (holeBySeat : List Entry) :
    Except Failure (List SeatIdx) := do
  rejectIf (board5.length ≠ 5)
    (.err s!"Winners expected 5 board cards, got {board5.length}")
  assertDistinct board5 "board5"
  let entries := holeBySeat.insertionSort (·.seat ≤ ·.seat)
  let best ← entries.foldlM (considerEntry board5) none
  let (_, bestSeats) ← require best (.err "no eligible hands to evaluate")
  pure (bestSeats.insertionSort (· ≤ ·))

end OnChainPoker.Holdem
