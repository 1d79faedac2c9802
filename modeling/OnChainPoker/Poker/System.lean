import OnChainPoker.Foundation.Run
import OnChainPoker.Poker.MsgServer

/-!
# x/poker as a transition system

Besides the module's own messages, a table changes through x/dealer: by the
three callbacks of `dealer_integration.go`, and by the dealer data that
`InitHand` and `finalizeDeck` write into the active hand.  The last step of the
system is any other transaction on the chain, which may pay coins into the
module account and never takes coins out of it.
-/

namespace OnChainPoker.Poker

open Foundation

variable {env : Env}

/-! ## Callbacks of x/dealer -/

def State.loadHand (s : State env) (tableID handID : Nat) :
    Except Err (Table × Hand) := do
  let t ← s.loadTable tableID
  let h ← require t.hand ⟨.noActiveHand, "no active hand"⟩
  rejectIf (h.handId ≠ handID) (invalidRequest "hand_id mismatch")
  pure (t, h)

def abortHandRefundAllCommits (s : State env) (tableID handID : Nat) :
    Except Err (State env) := do
  let (t, h) ← s.loadHand tableID handID
  let seats ← (refundCommits t.seats h).mapError fun text => ⟨.plain, text⟩
  pure (s.setTable { t with seats := clearHoles seats, hand := none })

def applyDealerReveal (s : State env) (tableID handID pos cardID : Nat)
    (nowUnix : Int) : Except Err (State env) := do
  let (t, h) ← s.loadHand tableID handID
  let (seats, hand) ← (applyDealerRevealToPoker t.params t.seats h pos
    cardID).mapError fun text => ⟨.plain, text⟩
  let hand ← (setDeadlinesIfActive t.params seats nowUnix hand).mapError
    fun text => ⟨.plain, text⟩
  pure (s.setTable { t with seats := seats, hand := hand })

def advanceAfterHoleSharesReady (s : State env) (tableID handID : Nat)
    (nowUnix : Int) : Except Err (State env) := do
  let (t, h) ← s.loadHand tableID handID
  rejectIf (h.phase ≠ .shuffle) (invalidRequest "hand not in shuffle phase")
  rejectIf (h.dealer.deckFinalized = false) (invalidRequest "dealer deck not finalized")
  let h := { h with
    phase := if h.actionOn = none then .awaitFlop else .betting }
  let h ← (setDeadlines t.params t.seats h nowUnix).mapError fun text => ⟨.plain, text⟩
  pure (s.setTable { t with hand := some h })

/-! ## Dealer data of the hand -/

def initDealerMeta (epochId deckSize : Nat) : DealerMeta :=
  { freshDealerMeta with epochId := epochId, deckSize := deckSize }

def holeDealOrder (h : Hand) : List SeatIdx :=
  ((List.finRange 9).map fun step => h.smallBlindSeat + step).filter h.inHand

def dealSlots (order : List SeatIdx) : List (SeatIdx × Fin 2) :=
  (List.finRange 2).flatMap fun c => order.map fun seat => (seat, c)

/-- The next position, stopping at the deck's end. -/
def assignSlot (deckLen : Nat) (dealt : (SeatIdx → Fin 2 → Nat) × Nat) (slot : SeatIdx × Fin 2) :
    (SeatIdx → Fin 2 → Nat) × Nat :=
  if dealt.2 ≥ deckLen then dealt
  else
    (Function.update dealt.1 slot.1
      (Function.update (dealt.1 slot.1) slot.2 dealt.2), dealt.2 + 1)

/-- Deal positions `0, 1, ..` over the order twice; the result is the positions and the
number dealt. -/
def assignHolePositions (order : List SeatIdx) (deckLen : Nat) :
    (SeatIdx → Fin 2 → Nat) × Nat :=
  (dealSlots order).foldl (assignSlot deckLen) (fun _ _ => unsetPos, 0)

def finalizeDealerMeta (h : Hand) (deckLen : Nat) : DealerMeta :=
  let dealt := assignHolePositions (holeDealOrder h) deckLen
  { h.dealer with
    deckFinalized := true
    holePos := dealt.1
    cursor := dealt.2
    revealPos := unsetPos
    revealDeadline := 0 }

/-- What `InitHand` does to the table.  A dealer hand exists for an active hand
once its deck size is set, and is never initialised again. -/
def dealerInitHand (s : State env) (tableID handID epochId deckSize : Nat) :
    Except Err (State env) := do
  let (t, h) ← s.loadHand tableID handID
  rejectIf (h.phase ≠ .shuffle) (invalidRequest "hand not in shuffle phase")
  rejectIf (h.dealer.deckSize ≠ 0) (invalidRequest "dealer hand already initialized")
  rejectIf (deckSize < 2 ∨ deckSize > 52)
    (invalidRequest s!"invalid deck_size {deckSize}")
  pure (s.setTable { t with
    hand := some { h with dealer := initDealerMeta epochId deckSize } })

def dealerFinalizeDeck (s : State env) (tableID handID : Nat) :
    Except Err (State env) := do
  let (t, h) ← s.loadHand tableID handID
  rejectIf (h.phase ≠ .shuffle) (invalidRequest "hand not in shuffle phase")
  rejectIf (h.dealer.deckSize = 0) (invalidRequest "dealer hand not initialized")
  rejectIf h.dealer.deckFinalized (invalidRequest "deck already finalized")
  pure (s.setTable { t with
    hand := some { h with dealer := finalizeDealerMeta h h.dealer.deckSize } })

/-! ## The system -/

inductive Msg (env : Env) where
  | createTable (req : MsgCreateTable)
  | sit (req : MsgSit)
  | startHand (block : Block) (req : MsgStartHand)
  | act (block : Block) (req : MsgAct)
  | tick (block : Block) (req : MsgTick)
  | leave (req : MsgLeave)
  | rebuy (req : MsgRebuy)
  | abortHandRefundAllCommits (tableID handID : Nat)
  | applyDealerReveal (block : Block) (tableID handID pos cardID : Nat)
  | advanceAfterHoleSharesReady (block : Block) (tableID handID : Nat)
  | dealerInitHand (tableID handID epochId deckSize : Nat)
  | dealerFinalizeDeck (tableID handID : Nat)
  | otherTransaction (balances : env.bank.Balances)

def handle (s : State env) : Msg env → Except Err (State env)
  | .createTable req => createTable s req
  | .sit req => sit s req
  | .startHand block req => startHand block s req
  | .act block req => act block s req
  | .tick block req => tick block s req
  | .leave req => leave s req
  | .rebuy req => rebuy s req
  | .abortHandRefundAllCommits tableID handID =>
    abortHandRefundAllCommits s tableID handID
  | .applyDealerReveal block tableID handID pos cardID =>
    applyDealerReveal s tableID handID pos cardID block.unix
  | .advanceAfterHoleSharesReady block tableID handID =>
    advanceAfterHoleSharesReady s tableID handID block.unix
  | .dealerInitHand tableID handID epochId deckSize =>
    dealerInitHand s tableID handID epochId deckSize
  | .dealerFinalizeDeck tableID handID => dealerFinalizeDeck s tableID handID
  | .otherTransaction balances => do
      rejectIf (env.bank.moduleBalance balances <
        env.bank.moduleBalance s.balances) ⟨.plain, "insufficient funds"⟩
      pure { s with balances := balances }

end OnChainPoker.Poker
