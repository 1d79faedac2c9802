import Mathlib.Algebra.Ring.Nat
import Mathlib.Data.Fin.VecNotation
import Mathlib.Data.Fintype.Pi

/-!
# Data model of x/poker

The records of `poker.proto`.  Lengths that `normalizeTable` enforces on every
load and store are part of the types: a table has exactly nine seats, each seat
two hole cards, and every per-seat array of a hand nine entries.  Seat numbers
with the sentinel `-1` are optional seats.  Amounts are `uint64` values held in
`Nat`; every addition that can overflow goes through `addUint64Checked`.

`StartHand` always attaches dealer data to a hand and nothing removes it, so
`Hand.dealer` is not optional.  Fields that no function of the module reads
(`label`, `max_players`, which is always 9, and `rake_bps`, which is always 0) are
left out, as are the enum values that are never written.
-/

namespace OnChainPoker.Poker

abbrev SeatIdx := Fin 9

instance neZero_nine : NeZero 9 := ⟨by decide⟩

instance neZero_two : NeZero 2 := ⟨by decide⟩

abbrev Bytes := List UInt8

inductive HandPhase where
  | shuffle
  | betting
  | awaitFlop
  | awaitTurn
  | awaitRiver
  | awaitShowdown
  | showdown
  deriving DecidableEq, Repr

inductive Street where
  | preflop
  | flop
  | turn
  | river
  deriving DecidableEq, Repr

structure TableParams where
  smallBlind : Nat
  bigBlind : Nat
  minBuyIn : Nat
  maxBuyIn : Nat
  actionTimeoutSecs : Nat
  dealerTimeoutSecs : Nat
  playerBond : Nat
  passwordHash : Bytes
  passwordSalt : Bytes
  deriving DecidableEq, Repr

/-- The hole-card value that means "not public". -/
def unknownCard : Nat := 255

/-- The deck position that means "unset". -/
def unsetPos : Nat := 255

structure Seat where
  player : String
  pk : Bytes
  stack : Nat
  bond : Nat
  hole : Fin 2 → Nat
  deriving DecidableEq, Repr

abbrev Seats := SeatIdx → Seat

def emptySeat : Seat := ⟨"", [], 0, 0, fun _ => unknownCard⟩

structure DealerMeta where
  epochId : Nat
  deckSize : Nat
  deckFinalized : Bool
  holePos : SeatIdx → Fin 2 → Nat
  cursor : Nat
  revealPos : Nat
  revealDeadline : Int
  deriving DecidableEq, Repr

structure Hand where
  handId : Nat
  phase : HandPhase
  street : Street
  buttonSeat : Option SeatIdx
  smallBlindSeat : SeatIdx
  bigBlindSeat : SeatIdx
  actionOn : Option SeatIdx
  betTo : Nat
  minRaiseSize : Nat
  intervalId : Nat
  inHand : SeatIdx → Bool
  folded : SeatIdx → Bool
  allIn : SeatIdx → Bool
  streetCommit : SeatIdx → Nat
  totalCommit : SeatIdx → Nat
  lastIntervalActed : SeatIdx → Int
  board : List Nat
  actionDeadline : Int
  dealer : DealerMeta
  deriving DecidableEq, Repr

structure Table where
  id : Nat
  creator : String
  params : TableParams
  seats : Seats
  nextHandId : Nat
  buttonSeat : Option SeatIdx
  hand : Option Hand
  deriving DecidableEq, Repr

/-! ## Errors -/

/-- The registered errors of the module; `plain` is an unregistered error. -/
inductive ErrCode where
  | invalidRequest
  | tableNotFound
  | seatOccupied
  | notSeated
  | handInProgress
  | noActiveHand
  | notYourTurn
  | invalidAction
  | invalidTableCfg
  | plain
  deriving DecidableEq, Repr

structure Err where
  code : ErrCode
  text : String
  deriving DecidableEq, Repr

/-! ## Checked arithmetic -/

def maxUint64 : Nat := 2 ^ 64 - 1

def maxInt64 : Int := 2 ^ 63 - 1

def addUint64Checked (a b : Nat) (field : String) : Except String Nat :=
  if a > maxUint64 - b then .error (field ++ " overflows uint64")
  else .ok (a + b)

def mulUint64Checked (a b : Nat) (field : String) : Except String Nat :=
  if a = 0 ∨ b = 0 then .ok 0
  else if a > maxUint64 / b then .error (field ++ " overflows uint64")
  else .ok (a * b)

def addInt64AndU64Checked (base : Int) (delta : Nat) (field : String) :
    Except String Int :=
  if (delta : Int) > maxInt64 then .error (field ++ " overflows int64")
  else if base > maxInt64 - delta then .error (field ++ " overflows int64")
  else .ok (base + delta)

def int32 (x : Nat) : Int := Int.bmod x (2 ^ 32)

variable {a b c : Nat} {field : String}

theorem addUint64Checked_ok (h : addUint64Checked a b field = .ok c) : c = a + b := by
  unfold addUint64Checked at h
  split at h
  · contradiction
  · exact (Except.ok.inj h).symm

theorem addUint64Checked_of_le (field : String) (h : a + b ≤ maxUint64) :
    addUint64Checked a b field = .ok (a + b) := by
  unfold addUint64Checked
  rw [if_neg (by omega)]

theorem addUint64Checked_le (h : addUint64Checked a b field = .ok c) (hb : b ≤ maxUint64) :
    c ≤ maxUint64 := by
  unfold addUint64Checked at h
  split at h
  · contradiction
  · cases h
    omega

theorem mulUint64Checked_ok (h : mulUint64Checked a b field = .ok c) : c = a * b := by
  unfold mulUint64Checked at h
  split at h
  · rename_i hzero
    cases h
    rcases hzero with rfl | rfl <;> simp
  · split at h
    · contradiction
    · exact (Except.ok.inj h).symm

theorem addInt64AndU64Checked_of_le {base : Int} {delta : Nat}
    (field : String) (hbase : 0 ≤ base) (h : base + delta ≤ maxInt64) :
    addInt64AndU64Checked base delta field = .ok (base + delta) := by
  unfold addInt64AndU64Checked
  rw [if_neg (by omega), if_neg (by omega)]

theorem addInt64AndU64Checked_ok {base value : Int} {delta : Nat}
    (h : addInt64AndU64Checked base delta field = .ok value) : value = base + delta := by
  unfold addInt64AndU64Checked at h
  split at h
  · contradiction
  · split at h
    · contradiction
    · exact (Except.ok.inj h).symm

end OnChainPoker.Poker
