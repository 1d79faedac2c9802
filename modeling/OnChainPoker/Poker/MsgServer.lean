import OnChainPoker.Poker.Keeper
import OnChainPoker.Poker.Reveal

/-!
# Messages of x/poker

The seven messages of `msg_server.go`, in the order in which the source makes
its checks.  Requests are records of the fields the handler reads.  A handler
returns the new module state or an error; emitted events are not part of the
state.
-/

namespace OnChainPoker.Poker

open Foundation

variable {env : Env}

def maxTableLabelLen : Nat := 64

def maxActionTimeoutSecs : Nat := 600

def maxDealerTimeoutSecs : Nat := 1800

def maxBuyInUchips : Nat := 1000000000000

def interHandCooldownBlocks : Int := 5

def passwordCommitmentBytes : Nat := 32

def passwordSaltMinBytes : Nat := 16

def passwordSaltMaxBytes : Nat := 32

def pointBytes : Nat := 32

def invalidRequest (text : String) : Err := ⟨.invalidRequest, text⟩

def invalidTableCfg (text : String) : Err := ⟨.invalidTableCfg, text⟩

def State.loadTable (s : State env) (tableId : Nat) : Except Err Table :=
  require (s.getTable tableId) ⟨.tableNotFound, s!"table {tableId} not found"⟩

/-! ## CreateTable -/

structure MsgCreateTable where
  creator : String
  smallBlind : Nat
  bigBlind : Nat
  minBuyIn : Nat
  maxBuyIn : Nat
  actionTimeoutSecs : Nat
  dealerTimeoutSecs : Nat
  playerBond : Nat
  rakeBps : Nat
  maxPlayers : Nat
  label : String
  passwordCommitment : Bytes
  passwordSalt : Bytes

def exceedsLimit (field : String) (value limit : Nat) : Except Err Unit :=
  rejectIf (value > limit) (invalidTableCfg s!"{field} exceeds {limit}")

def checkPassword (commitment salt : Bytes) : Except Err Unit := do
  rejectIf ((commitment ≠ []) ≠ (salt ≠ [])) (invalidTableCfg
    "password_commitment and password_salt must both be set or both empty")
  rejectIf (commitment ≠ [] ∧ commitment.length ≠ passwordCommitmentBytes)
    (invalidTableCfg s!"password_commitment must be {passwordCommitmentBytes} bytes")
  rejectIf (commitment ≠ [] ∧ (salt.length < passwordSaltMinBytes ∨
      salt.length > passwordSaltMaxBytes))
    (invalidTableCfg
      s!"password_salt must be {passwordSaltMinBytes}-{passwordSaltMaxBytes} bytes")

def checkTableCfg (req : MsgCreateTable) : Except Err Unit := do
  rejectIf (req.creator = "") (invalidRequest "missing creator")
  rejectIf (req.maxPlayers ≠ 0 ∧ req.maxPlayers ≠ 9)
    (invalidTableCfg "only max_players=9 is supported")
  rejectIf (req.smallBlind = 0 ∨ req.bigBlind = 0 ∨
      req.bigBlind < req.smallBlind) (invalidTableCfg "invalid blinds")
  rejectIf (req.minBuyIn = 0 ∨ req.maxBuyIn = 0 ∨ req.maxBuyIn < req.minBuyIn)
    (invalidTableCfg "invalid buy-in range")
  rejectIf ((req.actionTimeoutSecs : Int) > maxInt64)
    (invalidTableCfg "action_timeout_secs exceeds int64 max")
  rejectIf ((req.dealerTimeoutSecs : Int) > maxInt64)
    (invalidTableCfg "dealer_timeout_secs exceeds int64 max")
  rejectIf (req.rakeBps ≠ 0) (invalidTableCfg "rake_bps must be 0")
  rejectIf (req.label.utf8ByteSize > maxTableLabelLen)
    (invalidTableCfg s!"label exceeds {maxTableLabelLen} bytes")
  checkPassword req.passwordCommitment req.passwordSalt
  exceedsLimit "action_timeout_secs" req.actionTimeoutSecs maxActionTimeoutSecs
  exceedsLimit "dealer_timeout_secs" req.dealerTimeoutSecs maxDealerTimeoutSecs
  exceedsLimit "player_bond" req.playerBond maxBuyInUchips
  exceedsLimit "min_buy_in" req.minBuyIn maxBuyInUchips
  exceedsLimit "max_buy_in" req.maxBuyIn maxBuyInUchips
  exceedsLimit "small_blind" req.smallBlind maxBuyInUchips
  exceedsLimit "big_blind" req.bigBlind maxBuyInUchips

def newTable (id : Nat) (req : MsgCreateTable) : Table where
  id := id
  creator := req.creator
  params :=
    { smallBlind := req.smallBlind
      bigBlind := req.bigBlind
      minBuyIn := req.minBuyIn
      maxBuyIn := req.maxBuyIn
      actionTimeoutSecs := req.actionTimeoutSecs
      dealerTimeoutSecs := req.dealerTimeoutSecs
      playerBond := req.playerBond
      passwordHash := req.passwordCommitment
      passwordSalt := req.passwordSalt }
  seats := fun _ => emptySeat
  nextHandId := 1
  buttonSeat := none
  hand := none

def createTable (s : State env) (req : MsgCreateTable) : Except Err (State env) := do
  checkTableCfg req
  let nextID ← (addUint64Checked s.nextTableId 1 "next table id").mapError
    invalidRequest
  pure ({ s with nextTableId := nextID }.setTable (newTable s.nextTableId req))

/-! ## Sit, Leave and Rebuy -/

structure MsgSit where
  player : String
  tableId : Nat
  buyIn : Nat
  pkPlayer : Bytes
  passwordProof : Bytes

def checkPasswordProof (passwordHash proof : Bytes) : Except Err Unit := do
  rejectIf (passwordHash ≠ [] ∧ proof = []) (invalidRequest "password required")
  rejectIf (passwordHash ≠ [] ∧ proof.length ≠ passwordCommitmentBytes)
    (invalidRequest s!"password_proof must be {passwordCommitmentBytes} bytes")
  rejectIf (passwordHash ≠ [] ∧ proof ≠ passwordHash) (invalidRequest "wrong password")

def playerAddress (env : Env) (player : String) : Except Err env.Addr := do
  rejectIf (player = "") (invalidRequest "missing player")
  require (env.accAddressFromBech32 player) (invalidRequest "invalid player address")

def sit (s : State env) (req : MsgSit) : Except Err (State env) := do
  let playerAddr ← playerAddress env req.player
  let t ← s.loadTable req.tableId
  rejectIf ((seatOfPlayer t.seats req.player).isSome)
    ⟨.seatOccupied, "already seated at this table"⟩
  checkPasswordProof t.params.passwordHash req.passwordProof
  let assignedSeat ← (autoAssignSeat t).mapError fun text =>
    ⟨.seatOccupied, text⟩
  rejectIf (req.buyIn < t.params.minBuyIn ∨ req.buyIn > t.params.maxBuyIn)
    (invalidRequest "buy-in out of range")
  rejectIf (req.pkPlayer.length ≠ pointBytes)
    (invalidRequest "pk_player must be 32 bytes")
  rejectIf (env.canonicalPoint req.pkPlayer = false)
    (invalidRequest "pk_player invalid ristretto point")
  rejectIf (t.params.playerBond ≠ 0 ∧ req.buyIn > maxUint64 - t.params.playerBond)
    (invalidRequest "buy_in + bond overflows uint64")
  let balances ← env.bank.sendCoinsFromAccountToModule s.balances playerAddr
    (req.buyIn + t.params.playerBond)
  let seat : Seat :=
    ⟨req.player, req.pkPlayer, req.buyIn, t.params.playerBond, fun _ => unknownCard⟩
  pure ({ s with balances := balances }.setTable
    { t with seats := Function.update t.seats assignedSeat seat })

structure MsgLeave where
  player : String
  tableId : Nat

/-- The amount paid out of escrow when a seat is vacated; nothing is sent when
it is zero. -/
def payOut (balances : env.bank.Balances) (addr : env.Addr) (amount : Nat) :
    Except Err env.bank.Balances :=
  if amount = 0 then pure balances
  else env.bank.sendCoinsFromModuleToAccount balances addr amount

def leave (s : State env) (req : MsgLeave) : Except Err (State env) := do
  let playerAddr ← playerAddress env req.player
  let t ← s.loadTable req.tableId
  let seat ← require (seatOfPlayer t.seats req.player)
    ⟨.notSeated, "player not seated at table"⟩
  rejectIf (t.hand.any (inHandNotFolded · seat))
    (invalidRequest "cannot leave during active hand")
  rejectIf ((t.seats seat).bond ≠ 0 ∧
      (t.seats seat).stack > maxUint64 - (t.seats seat).bond)
    (invalidRequest "stack + bond overflows uint64")
  let balances ← payOut s.balances playerAddr
    ((t.seats seat).stack + (t.seats seat).bond)
  pure ({ s with balances := balances }.setTable
    { t with seats := Function.update t.seats seat emptySeat })

structure MsgRebuy where
  player : String
  tableId : Nat
  amount : Nat

def rebuy (s : State env) (req : MsgRebuy) : Except Err (State env) := do
  let playerAddr ← playerAddress env req.player
  let t ← s.loadTable req.tableId
  let seat ← require (seatOfPlayer t.seats req.player)
    ⟨.notSeated, "player not seated at table"⟩
  rejectIf (t.hand.any (·.inHand seat))
    ⟨.handInProgress, "cannot rebuy during active hand"⟩
  rejectIf (req.amount = 0) (invalidRequest "rebuy amount must be > 0")
  let newStack ← (addUint64Checked (t.seats seat).stack req.amount
    "rebuy").mapError invalidRequest
  rejectIf (newStack > t.params.maxBuyIn) (invalidRequest
    s!"rebuy would exceed max buy-in: {newStack} > {t.params.maxBuyIn}")
  let balances ← env.bank.sendCoinsFromAccountToModule s.balances playerAddr req.amount
  pure ({ s with balances := balances }.setTable
    { t with
      seats := Function.update t.seats seat { t.seats seat with stack := newStack } })

/-! ## StartHand -/

structure MsgStartHand where
  caller : String
  tableId : Nat

def freshDealerMeta : DealerMeta where
  epochId := 0
  deckSize := 0
  deckFinalized := false
  holePos := fun _ _ => unsetPos
  cursor := 0
  revealPos := unsetPos
  revealDeadline := 0

def freshHand (handId : Nat) (params : TableParams) (seats : Seats)
    (buttonSeat : Option SeatIdx) (sbSeat bbSeat : SeatIdx) : Hand where
  handId := handId
  phase := .shuffle
  street := .preflop
  buttonSeat := buttonSeat
  smallBlindSeat := sbSeat
  bigBlindSeat := bbSeat
  actionOn := none
  betTo := 0
  minRaiseSize := params.bigBlind
  intervalId := 0
  inHand := fun i => 0 < (seats i).stack
  folded := fun _ => false
  allIn := fun _ => false
  streetCommit := fun _ => 0
  totalCommit := fun _ => 0
  lastIntervalActed := fun _ => -1
  board := []
  actionDeadline := 0
  dealer := freshDealerMeta

def advanceButton (t : Table) : Option SeatIdx :=
  match t.buttonSeat with
  | none => (occupiedSeatsWithStack t.seats).head?
  | some i => nextOccupiedSeat t.seats (some i)

def startHandOn (t : Table) : Except Err Table := do
  rejectIf ((occupiedSeatsWithStack t.seats).length < 2)
    (invalidRequest "need at least 2 players with chips")
  let buttonSeat := advanceButton t
  let seats := clearHoles t.seats
  let (sb, bb) := blindSeats seats buttonSeat
  let sbSeat ← require sb (invalidRequest "cannot determine blinds")
  let bbSeat ← require bb (invalidRequest "cannot determine blinds")
  let nextHandID ← (addUint64Checked t.nextHandId 1 "next hand id").mapError
    invalidRequest
  let h := freshHand t.nextHandId t.params seats buttonSeat sbSeat bbSeat
  let (seats, h) ← (postBlindCommit seats h sbSeat t.params.smallBlind).mapError
    fun text => invalidRequest ("small blind: " ++ text)
  let (seats, h) ← (postBlindCommit seats h bbSeat t.params.bigBlind).mapError
    fun text => invalidRequest ("big blind: " ++ text)
  let h := { h with
    betTo := h.streetCommit bbSeat
    minRaiseSize := t.params.bigBlind }
  let h := { h with actionOn := nextActiveToAct h (some bbSeat) }
  pure { t with
    seats := seats
    nextHandId := nextHandID
    buttonSeat := buttonSeat
    hand := some h }

def startHand (block : Block) (s : State env) (req : MsgStartHand) :
    Except Err (State env) := do
  rejectIf (req.caller = "") (invalidRequest "missing caller")
  let t ← s.loadTable req.tableId
  rejectIf (seatOfPlayer t.seats req.caller = none)
    ⟨.notSeated, "caller not seated at table"⟩
  rejectIf t.hand.isSome ⟨.handInProgress, "hand already in progress"⟩
  let lastEnded := s.getLastHandEndedHeight req.tableId
  rejectIf (lastEnded ≠ 0 ∧ block.height < lastEnded + interHandCooldownBlocks)
    (invalidRequest
      s!"inter-hand cooldown: must wait until block {lastEnded + interHandCooldownBlocks}")
  let t ← startHandOn t
  pure (s.setTable t)

/-! ## Act and Tick -/

def ejectSeat (bs : env.bank.Balances × Seats) (i : SeatIdx) :
    Except Err (env.bank.Balances × Seats) :=
  let (balances, seats) := bs
  if (seats i).player = "" ∨ (seats i).bond ≠ 0 then pure (balances, seats)
  else do
    let addr ← require (env.accAddressFromBech32 (seats i).player)
      ⟨.plain, "invalid address"⟩
    let balances ← payOut balances addr (seats i).stack
    pure (balances, Function.update seats i emptySeat)

def ejectBondlessSeats (balances : env.bank.Balances) (t : Table) :
    Except Err (env.bank.Balances × Seats) :=
  if t.hand.isSome ∨ t.params.playerBond = 0 then pure (balances, t.seats)
  else (List.finRange 9).foldlM ejectSeat (balances, t.seats)

/-- Store the table after an action; when the hand is over, eject the seats
without a bond and note the height. -/
def storeAfterAction (block : Block) (s : State env) (t : Table) :
    Except Err (State env) := do
  -- `SetTable` normalises the table in place before the seats are examined.
  let t := normalizeTable t
  let s := s.setTable t
  if t.hand.isSome then pure s
  else do
    let (balances, seats) ← ejectBondlessSeats s.balances t
    let s := { s with balances := balances }.setTable { t with seats := seats }
    pure { s with
      lastHandEndedHeight := s.lastHandEndedHeight.insert t.id block.height }

structure MsgAct where
  player : String
  tableId : Nat
  action : String
  amount : Nat

def act (block : Block) (s : State env) (req : MsgAct) : Except Err (State env) := do
  let _ ← playerAddress env req.player
  let t ← s.loadTable req.tableId
  let h ← require t.hand ⟨.noActiveHand, "no active hand"⟩
  rejectIf (h.phase ≠ .betting) (invalidRequest "hand not in betting phase")
  let actionOn ← require h.actionOn (invalidRequest "invalid actionOn seat")
  rejectIf ((t.seats actionOn).player ≠ req.player) ⟨.notYourTurn, "not your turn"⟩
  let (seats, hand) ← (applyAction t.params t.seats h
    (Action.ofString req.action) req.amount block.unix).mapError
      fun text => ⟨.invalidAction, text⟩
  storeAfterAction block s { t with seats := seats, hand := hand }

structure MsgTick where
  caller : String
  tableId : Nat

def defaultAction (h : Hand) (seat : SeatIdx) : Action :=
  if toCall h seat = 0 then .check else .fold

def timeoutSlash (params : TableParams) (seat : Seat) : Nat :=
  min (if params.bigBlind = 0 then 1 else params.bigBlind) seat.bond

def collectSlash (balances : env.bank.Balances) (slashAmt : Nat) :
    Except Err env.bank.Balances :=
  if slashAmt = 0 then pure balances
  else env.bank.sendCoinsFromModuleToFeeCollector balances slashAmt

def slashSeat (params : TableParams) (seat : Seat) : Seat :=
  { seat with bond := seat.bond - timeoutSlash params seat }

def tick (block : Block) (s : State env) (req : MsgTick) : Except Err (State env) := do
  rejectIf (req.caller = "") (invalidRequest "missing caller")
  let _ ← require (env.accAddressFromBech32 req.caller)
    (invalidRequest "invalid caller address")
  let t ← s.loadTable req.tableId
  let h ← require t.hand ⟨.noActiveHand, "no active hand"⟩
  rejectIf (h.phase ≠ .betting) (invalidRequest "hand not in betting phase")
  let actorSeat ← require h.actionOn (invalidRequest "invalid actionOn seat")
  rejectIf (¬ (h.actionDeadline ≠ 0 ∧ block.unix ≥ h.actionDeadline) ∧
      seatOfPlayer t.seats req.caller = none)
    (invalidRequest "caller not authorized: must be seated before action deadline")
  if h.actionDeadline = 0 then do
    -- Older saved states may not have the deadline initialised.
    let h ← (setActionDeadlineIfBetting t.params h block.unix).mapError
      fun text => ⟨.plain, text⟩
    pure (s.setTable { t with hand := some h })
  else do
    rejectIf (block.unix < h.actionDeadline) (invalidRequest "action not timed out")
    let seat := t.seats actorSeat
    let balances ← collectSlash s.balances (timeoutSlash t.params seat)
    let seats := Function.update t.seats actorSeat (slashSeat t.params seat)
    let (seats, hand) ← (applyAction t.params seats h (defaultAction h actorSeat)
      0 block.unix).mapError fun text => ⟨.invalidAction, text⟩
    storeAfterAction block { s with balances := balances }
      { t with seats := seats, hand := hand }

end OnChainPoker.Poker
