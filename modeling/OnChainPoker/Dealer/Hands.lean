import OnChainPoker.Dealer.Dkg
import OnChainPoker.Poker.System

/-!
# Hand messages of x/dealer

`InitHand` to `Timeout`, over the state of both modules: a dealer hand is kept
beside the table whose cards it deals.  `finalizeDeck`, `finalizeReveal`,
`abortHand` and `timeout` are the functions of `ops.go`.
-/

namespace OnChainPoker.Dealer

open Foundation Crypto
open Poker (Block Table Hand DealerMeta SeatIdx Seats unsetPos
  addInt64AndU64Checked tableDealerTimeoutSecs initDealerMeta finalizeDealerMeta)

structure Chain (env : Env) where
  poker : Poker.State env.poker
  dealer : State env

variable {env : Env}

/-! ## Requests -/

structure MsgInitHand where
  caller : String
  tableId : Nat
  handId : Nat
  epochId : Nat
  deckSize : Nat

structure MsgSubmitShuffle where
  shuffler : String
  tableId : Nat
  handId : Nat
  round : Nat
  proofShuffle : Bytes

structure MsgSubmitEncShare where
  validator : String
  tableId : Nat
  handId : Nat
  pos : Nat
  pkPlayer : Bytes
  encShare : Bytes
  proofEncShare : Bytes

structure MsgSubmitPubShare where
  validator : String
  tableId : Nat
  handId : Nat
  pos : Nat
  pubShare : Bytes
  proofShare : Bytes

structure MsgFinalizeReveal where
  caller : String
  tableId : Nat
  handId : Nat
  pos : Nat

structure MsgHand where
  caller : String
  tableId : Nat
  handId : Nat

/-! ## Stored hands -/

def State.getHand (s : State env) (tableID handID : Nat) : Option DealerHand :=
  s.hands.lookup (tableID, handID)

def Chain.setHand (c : Chain env) (tableID handID : Nat) (dh : DealerHand) :
    Chain env :=
  { c with
    dealer := { c.dealer with hands := c.dealer.hands.insert (tableID, handID) dh } }

def Chain.deleteHand (c : Chain env) (tableID handID : Nat) : Chain env :=
  { c with
    dealer := { c.dealer with hands := c.dealer.hands.erase (tableID, handID) } }

def Chain.setTable (c : Chain env) (t : Table) : Chain env :=
  { c with poker := c.poker.setTable t }

/-! ## Shared checks -/

def requireIds (tableId handId : Nat) : Except Err Unit :=
  rejectIf (tableId = 0 ∨ handId = 0)
    (invalidRequest "table_id and hand_id must be > 0")

def Chain.activeHand (c : Chain env) (tableID handID : Nat) (missing : String) :
    Except Err (Table × Hand) := do
  let t ← require (c.poker.getTable tableID) (invalidRequest missing)
  let h ← require t.hand (invalidRequest missing)
  rejectIf (h.handId ≠ handID) (invalidRequest "hand_id mismatch")
  pure (t, h)

def Chain.dealerHand (c : Chain env) (tableID handID : Nat) : Except Err DealerHand :=
  require (c.dealer.getHand tableID handID)
    ⟨.handNotFound, "dealer hand not initialized"⟩

def Chain.handEpoch (c : Chain env) (dh : DealerHand) : Except Err DealerEpoch := do
  let epoch ← require c.dealer.epoch (invalidRequest "epoch not available")
  rejectIf (epoch.epochId ≠ dh.epochId) (invalidRequest "epoch not available")
  pure epoch

def activeMember (epoch : DealerEpoch) (valoper role : String) :
    Except Err DealerMember := do
  let mem ← require (findEpochMember epoch valoper)
    (invalidRequest (role ++ " not in committee"))
  rejectIf (isSlashed epoch.slashed valoper) (invalidRequest (role ++ " is slashed"))
  pure mem

/-! ## Initialisation -/

def initSaltOf (lastBlockHash : Bytes) : Bytes :=
  if lastBlockHash.length ≠ 32 then
    (lastBlockHash ++ List.replicate 32 0).take 32
  else lastBlockHash

def encodeCiphertext (S : Suite) (ct : S.ElGamalCiphertext) : DealerCiphertext :=
  ⟨S.pointBytes ct.c1, S.pointBytes ct.c2⟩

def initialCard (S : Suite) (k : S.Scalar) (pkHand : S.Point) (i : Nat) :
    Except String DealerCiphertext := do
  let r ← hashToNonzeroScalar S "ocp/v1/dealer/deck-init" [S.scalarBytes k, u16le i]
  let ct ← Suite.elGamalEncrypt pkHand (cardPoint S i) r
  pure (encodeCiphertext S ct)

/-- The creator of the table may initialise its hands, and so may every bonded
validator. -/
def requireInitialiser (c : Chain env) (caller creator : String) : Except Err Unit :=
  if caller = creator then pure ()
  else requireActiveBondedCaller c.dealer caller

def initHand (c : Chain env) (block : Block) (lastBlockHash : Bytes)
    (req : MsgInitHand) : Except Err (Chain env) := do
  requireCaller env req.caller
  requireIds req.tableId req.handId
  let t ← require (c.poker.getTable req.tableId) (invalidRequest "no active hand")
  let h ← require t.hand (invalidRequest "no active hand")
  requireInitialiser c req.caller t.creator
  rejectIf (h.handId ≠ req.handId) (invalidRequest "hand_id mismatch")
  rejectIf (h.phase ≠ .shuffle) (invalidRequest "hand not in shuffle phase")
  rejectIf (c.dealer.getHand req.tableId req.handId).isSome
    (invalidRequest "dealer hand already initialized")
  let epoch ← require c.dealer.epoch ⟨.noActiveEpoch, "no active dealer epoch"⟩
  rejectIf (epoch.epochId ≠ req.epochId) (invalidRequest
    s!"epoch_id mismatch: expected {epoch.epochId} got {req.epochId}")
  let deckSize := if req.deckSize = 0 then 52 else req.deckSize
  rejectIf (deckSize < 2 ∨ deckSize > 52)
    (invalidRequest s!"invalid deck_size {deckSize}")
  let initSalt := initSaltOf lastBlockHash
  let k ← (deriveHandScalar env.suite epoch.epochId t.id h.handId block.height
    initSalt).mapError plain
  let pkEpoch ← decodePoint env.suite epoch.pkEpoch "pk_epoch"
  let pkHand := k • pkEpoch
  let deck ← ((List.range deckSize).mapM
    (initialCard env.suite k pkHand)).mapError plain
  let shuffleDeadline ← (addInt64AndU64Checked block.unix
    (tableDealerTimeoutSecs t.params) "dealer shuffle deadline").mapError plain
  let dh : DealerHand :=
    { epochId := epoch.epochId
      pkHand := env.suite.pointBytes pkHand
      deckSize := deckSize
      deck := deck
      shuffleStep := 0
      finalized := false
      shuffleDeadline := shuffleDeadline
      holeSharesDeadline := 0
      pubShares := []
      encShares := []
      reveals := []
      initHeight := block.height
      initHashSalt := initSalt }
  let meta_ := initDealerMeta epoch.epochId deckSize
  pure ((c.setTable { t with hand := some { h with dealer := meta_ } }).setHand
    req.tableId req.handId dh)

/-! ## Shuffling -/

def decodeDeckCiphertext (S : Suite) (ct : DealerCiphertext) :
    Except String S.ElGamalCiphertext := do
  let c1 ← (S.pointFromBytesCanonical ct.c1).mapError ("deck c1 invalid: " ++ ·)
  let c2 ← (S.pointFromBytesCanonical ct.c2).mapError ("deck c2 invalid: " ++ ·)
  pure ⟨c1, c2⟩

def verifyShuffle (S : Suite) (pkHandBytes : Bytes)
    (deckIn : List DealerCiphertext) (proofBytes context : Bytes) :
    Except String (List DealerCiphertext) := do
  let pkHand ← (S.pointFromBytesCanonical pkHandBytes).mapError
    ("pkHand invalid: " ++ ·)
  let deck ← deckIn.mapM (decodeDeckCiphertext S)
  let out ← (Suite.shuffleVerifyV1 pkHand deck proofBytes (some context)).mapError
    ("shuffle verify failed: " ++ ·)
  pure (out.map (encodeCiphertext S))

def submitShuffle (c : Chain env) (block : Block) (req : MsgSubmitShuffle) :
    Except Err (Chain env) := do
  rejectIf (req.shuffler = "") (invalidRequest "missing shuffler")
  requireValAddress env req.shuffler "shuffler"
  requireIds req.tableId req.handId
  rejectIf (req.proofShuffle = []) (invalidRequest "missing proof_shuffle")
  let (t, h) ← c.activeHand req.tableId req.handId "dealer hand not initialized"
  rejectIf (h.phase ≠ .shuffle) (invalidRequest "hand not in shuffle phase")
  let dh ← c.dealerHand req.tableId req.handId
  rejectIf (dh.shuffleDeadline ≠ 0 ∧ block.unix ≥ dh.shuffleDeadline)
    (invalidRequest "shuffle deadline passed; call dealer/timeout")
  rejectIf dh.finalized (invalidRequest "deck already finalized")
  rejectIf (req.round ≠ dh.shuffleStep + 1) (invalidRequest
    s!"round mismatch: expected {dh.shuffleStep + 1} got {req.round}")
  let epoch ← c.handEpoch dh
  let _ ← activeMember epoch req.shuffler "shuffler"
  let expected ← require (epochQualMembers epoch)[dh.shuffleStep]?
    (invalidRequest "no qualified shuffler available")
  rejectIf (req.shuffler ≠ expected.validator) (invalidRequest
    ("unexpected shuffler: expected " ++ expected.validator ++ " got " ++ req.shuffler))
  let shuffleCtx ← (Suite.buildShuffleContext req.tableId req.handId req.round
    req.shuffler).mapError fun err =>
      invalidRequest ("failed to build shuffle context: " ++ err)
  let deckOut ← (verifyShuffle env.suite dh.pkHand dh.deck req.proofShuffle
    shuffleCtx).mapError plain
  let shuffleDeadline ← (addInt64AndU64Checked block.unix
    (tableDealerTimeoutSecs t.params) "dealer shuffle deadline").mapError plain
  pure (c.setHand req.tableId req.handId { dh with
    deck := deckOut
    shuffleStep := req.round
    shuffleDeadline := shuffleDeadline })

def finalizeDeck (c : Chain env) (block : Block) (tableID handID : Nat) :
    Except Err (Chain env) := do
  let (t, h) ← c.activeHand tableID handID "dealer hand not initialized"
  rejectIf (h.phase ≠ .shuffle) (invalidRequest "hand not in shuffle phase")
  let dh ← c.dealerHand tableID handID
  rejectIf dh.finalized (invalidRequest "deck already finalized")
  let epoch ← c.handEpoch dh
  let qual := epochQualMembers epoch
  rejectIf (qual.length < epoch.threshold) (invalidRequest
    s!"insufficient qualified members: have {qual.length} need {epoch.threshold}")
  rejectIf (dh.shuffleStep ≠ qual.length) (invalidRequest
    ("deck must be shuffled by all qualified members before finalization: " ++
      s!"have {dh.shuffleStep} need {qual.length}"))
  let holeSharesDeadline ← (addInt64AndU64Checked block.unix
    (tableDealerTimeoutSecs t.params) "dealer hole shares deadline").mapError plain
  let meta_ := finalizeDealerMeta h dh.deck.length
  pure ((c.setTable { t with hand := some { h with dealer := meta_ } }).setHand
    tableID handID { dh with
      finalized := true
      shuffleDeadline := 0
      holeSharesDeadline := holeSharesDeadline })

/-! ## Encrypted hole shares -/

def requiredHolePos (h : Hand) : List SeatIdx → Except String (List Nat)
  | [] => pure []
  | seat :: rest =>
    if h.inHand seat = false then requiredHolePos h rest
    else do
      rejectIf (h.dealer.holePos seat 0 = unsetPos ∨
        h.dealer.holePos seat 1 = unsetPos) s!"hole_pos unset for seat {seat}"
      let required ← requiredHolePos h rest
      pure (h.dealer.holePos seat 0 :: h.dealer.holePos seat 1 :: required)

def sortStrings (l : List String) : List String :=
  sortSlice (fun a b => decide (a < b)) l

def dealerMissingHoleEncShares (epoch : DealerEpoch) (h : Hand)
    (dh : DealerHand) : Except String (List String) := do
  let required ← requiredHolePos h (List.finRange 9)
  let missing := (epochQualMembers epoch).filter fun m =>
    let posted := dh.encShares.filter (·.validator = m.validator)
    posted.isEmpty || required.any fun pos => !posted.any (·.pos = pos)
  pure (sortStrings (missing.map (·.validator)))

def seatSharesReady (need : Nat) (meta_ : DealerMeta) (dh : DealerHand)
    (seat : SeatIdx) (pk : Bytes) : List (Fin 2) → Except String Bool
  | [] => pure true
  | card :: rest => do
      let pos := meta_.holePos seat card
      rejectIf (pos = unsetPos) s!"hole_pos unset for seat {seat}"
      let n := dh.encShares.countP fun es => es.pos = pos && es.pkPlayer = pk
      if n < need then pure false
      else seatSharesReady need meta_ dh seat pk rest

def seatsSharesReady (need : Nat) (seats : Seats) (h : Hand) (dh : DealerHand) :
    List SeatIdx → Except String Bool
  | [] => pure true
  | seat :: rest =>
    if h.inHand seat = false then seatsSharesReady need seats h dh rest
    else do
      rejectIf ((seats seat).pk.length ≠ 32) s!"seat {seat} missing pk"
      let ok ← seatSharesReady need h.dealer dh seat (seats seat).pk [0, 1]
      if ok then seatsSharesReady need seats h dh rest else pure false

def dealerHoleEncSharesReady (epoch : DealerEpoch) (seats : Seats) (h : Hand)
    (dh : DealerHand) : Except String Bool :=
  if h.dealer.deckFinalized = false then pure false
  else do
    rejectIf (epoch.threshold = 0) "invalid threshold"
    seatsSharesReady epoch.threshold seats h dh (List.finRange 9)

def isHolePos (h : Hand) (pos : Nat) : Option SeatIdx :=
  (List.finRange 9).find? fun seat =>
    h.inHand seat && (h.dealer.holePos seat 0 = pos || h.dealer.holePos seat 1 = pos)

def advanceHand (c : Chain env) (block : Block) (tableID handID : Nat)
    (dh : DealerHand) : Except Err (Chain env) := do
  let c := c.setHand tableID handID { dh with holeSharesDeadline := 0 }
  let poker ← (Poker.advanceAfterHoleSharesReady c.poker tableID handID
    block.unix).mapError ofPoker
  pure { c with poker := poker }

/-- The scalar of a hand, and a member's public share under it. -/
def handShareKey (S : Suite) (dh : DealerHand) (tableID handID : Nat)
    (mem : DealerMember) : Except Err S.Point := do
  let k ← (deriveHandScalar S dh.epochId tableID handID dh.initHeight
    dh.initHashSalt).mapError plain
  let yEpoch ← decodePoint S mem.pubShare "pub_share"
  pure (k • yEpoch)

def submitEncShare (c : Chain env) (block : Block) (req : MsgSubmitEncShare) :
    Except Err (Chain env) := do
  rejectIf (req.validator = "") (invalidRequest "missing validator")
  requireValAddress env req.validator "validator"
  requireIds req.tableId req.handId
  requireLength req.pkPlayer 32 "pk_player must be 32 bytes"
  requireLength req.encShare 64 "enc_share must be 64 bytes"
  requireLength req.proofEncShare 160 "proof_enc_share must be 160 bytes"
  let (t, h) ← c.activeHand req.tableId req.handId "dealer hand not initialized"
  rejectIf (h.phase ≠ .shuffle) (invalidRequest "hand not in shuffle phase")
  rejectIf (h.dealer.deckFinalized = false) (invalidRequest "deck not finalized")
  let dh ← c.dealerHand req.tableId req.handId
  rejectIf (dh.finalized = false) (invalidRequest "deck not finalized")
  let card ← require dh.deck[req.pos]? (invalidRequest "pos out of bounds")
  rejectIf (dh.holeSharesDeadline = 0)
    (invalidRequest "hole shares deadline not initialized")
  rejectIf (block.unix ≥ dh.holeSharesDeadline)
    (invalidRequest "hole shares deadline passed; call dealer/timeout")
  let epoch ← c.handEpoch dh
  let mem ← activeMember epoch req.validator "validator"
  let holeSeat ← require (isHolePos h req.pos)
    (invalidRequest "pos is not a hole card position")
  requireLength (t.seats holeSeat).pk 32 "seat missing pk"
  rejectIf ((t.seats holeSeat).pk ≠ req.pkPlayer)
    (invalidRequest s!"pk_player mismatch for seat {holeSeat}")
  rejectIf (dh.encShares.any fun es =>
      es.pos = req.pos && es.validator = req.validator)
    (invalidRequest "duplicate enc share")
  let yHand ← handShareKey env.suite dh t.id h.handId mem
  let c1 ← decodePoint env.suite card.c1 "ciphertext c1"
  let pkPlayer ← decodePoint env.suite req.pkPlayer "pk_player"
  let u ← decodePoint env.suite (req.encShare.take 32) "enc_share.u"
  let v ← decodePoint env.suite (req.encShare.drop 32) "enc_share.v"
  let proof ← (env.suite.decodeEncShareProof req.proofEncShare).mapError fun err =>
    invalidRequest ("proof_enc_share invalid: " ++ err)
  let ok ← (Suite.encShareVerify yHand c1 pkPlayer u v proof).mapError plain
  rejectIf (ok = false) (invalidRequest "invalid enc share proof")
  let dh := { dh with
    encShares := sortEncShares (dh.encShares ++
      [⟨req.pos, req.validator, mem.index, req.pkPlayer, req.encShare,
        req.proofEncShare⟩]) }
  let ready ← (dealerHoleEncSharesReady epoch t.seats h dh).mapError plain
  if ready then advanceHand c block req.tableId req.handId dh
  else pure (c.setHand req.tableId req.handId dh)

/-! ## Public shares and reveals -/

def requireRevealPos (h : Hand) (pos : Nat) : Except Err Unit := do
  rejectIf (h.dealer.revealPos = unsetPos ∨ h.dealer.revealDeadline = 0)
    (invalidRequest "hand not awaiting a reveal")
  rejectIf (pos ≠ h.dealer.revealPos) (invalidRequest "pos not currently revealable")

def submitPubShare (c : Chain env) (block : Block) (req : MsgSubmitPubShare) :
    Except Err (Chain env) := do
  rejectIf (req.validator = "") (invalidRequest "missing validator")
  requireValAddress env req.validator "validator"
  requireIds req.tableId req.handId
  rejectIf (req.pubShare = [] ∨ req.proofShare = [])
    (invalidRequest "missing pub_share/proof_share")
  let (t, h) ← c.activeHand req.tableId req.handId "dealer hand not initialized"
  requireRevealPos h req.pos
  rejectIf (block.unix ≥ h.dealer.revealDeadline)
    (invalidRequest "reveal deadline passed; call dealer/timeout")
  let dh ← c.dealerHand req.tableId req.handId
  let card ← require dh.deck[req.pos]? (invalidRequest "pos out of bounds")
  let epoch ← c.handEpoch dh
  let mem ← activeMember epoch req.validator "validator"
  rejectIf (dh.pubShares.any fun ps =>
      ps.pos = req.pos && ps.validator = req.validator)
    (invalidRequest "duplicate pub share")
  let yHand ← handShareKey env.suite dh t.id h.handId mem
  let c1 ← decodePoint env.suite card.c1 "ciphertext c1"
  let share ← decodePoint env.suite req.pubShare "pub_share"
  let proof ← (env.suite.decodeChaumPedersenProof req.proofShare).mapError fun err =>
    invalidRequest ("proof_share invalid: " ++ err)
  let ok ← (Suite.chaumPedersenVerify yHand c1 share proof).mapError plain
  rejectIf (ok = false) (invalidRequest "invalid pub share proof")
  pure (c.setHand req.tableId req.handId { dh with
    pubShares := sortPubShares (dh.pubShares ++
      [⟨req.pos, req.validator, mem.index, req.pubShare, req.proofShare⟩]) })

def dealerMissingPubShares (epoch : DealerEpoch) (dh : DealerHand) (pos : Nat) :
    List String :=
  sortStrings (((epochQualMembers epoch).filter fun m =>
    !dh.pubShares.any fun ps => ps.pos = pos && ps.validator = m.validator).map
      (·.validator))

structure ShareRec (S : Suite) where
  validator : String
  index : Nat
  share : S.Point

def collectShares (S : Suite) (pubShares : List DealerPubShare) (pos : Nat) :
    Except Err (List (ShareRec S)) :=
  (pubShares.filter (·.pos = pos)).mapM fun ps => do
    let p ← (S.pointFromBytesCanonical ps.share).mapError fun err =>
      plain ("stored share invalid: " ++ err)
    pure ⟨ps.validator, ps.index, p⟩

def revealCard (S : Suite) (dh : DealerHand) (threshold pos : Nat) :
    Except Err Nat := do
  let shares ← collectShares S dh.pubShares pos
  rejectIf (shares.length < threshold) (invalidRequest
    s!"insufficient shares: have {shares.length} need {threshold}")
  let shares := (sortSlice (lessBy (·.index) (·.validator)) shares).take threshold
  let lambdas ← (S.lagrangeAtZero (shares.map (·.index))).mapError plain
  let combined := (List.zipWith (fun lambda (s : ShareRec S) => lambda • s.share)
    lambdas shares).sum
  let card ← require dh.deck[pos]? (invalidRequest "pos out of bounds")
  let c2 ← (S.pointFromBytesCanonical card.c2).mapError fun err =>
    plain ("ciphertext c2 invalid: " ++ err)
  (pointToCardID (c2 - combined) dh.deckSize).mapError plain

def Chain.cleanUp (c : Chain env) (tableID handID : Nat) : Chain env :=
  match (c.poker.getTable tableID).bind (·.hand) with
  | none => c.deleteHand tableID handID
  | some _ => c

def finalizeReveal (c : Chain env) (block : Block) (tableID handID pos : Nat) :
    Except Err (Chain env) := do
  let (_, h) ← c.activeHand tableID handID "dealer hand not initialized"
  requireRevealPos h pos
  let dh ← c.dealerHand tableID handID
  rejectIf (pos ≥ dh.deck.length) (invalidRequest "pos out of bounds")
  let epoch ← c.handEpoch dh
  rejectIf (block.unix ≥ h.dealer.revealDeadline ∧
      dealerMissingPubShares epoch dh pos ≠ [])
    (invalidRequest "reveal deadline passed; call dealer/timeout")
  rejectIf (dh.reveals.any (·.pos = pos)) (invalidRequest "pos already revealed")
  let cardID ← revealCard env.suite dh epoch.threshold pos
  let reveals := sortSlice (fun a b => decide (a.pos < b.pos))
    (dh.reveals ++ [⟨pos, cardID⟩])
  let c := c.setHand tableID handID { dh with reveals := reveals }
  let poker ← (Poker.applyDealerReveal c.poker tableID handID pos cardID
    block.unix).mapError ofPoker
  pure (Chain.cleanUp { c with poker := poker } tableID handID)

def abortHand (c : Chain env) (tableID handID : Nat) : Except Err (Chain env) := do
  let poker ← (Poker.abortHandRefundAllCommits c.poker tableID handID).mapError ofPoker
  pure (Chain.deleteHand { c with poker := poker } tableID handID)

/-! ## Timeout -/

/-- Slash a member in the epoch and, when it is new there, in staking. -/
def epochPenalise (c : Chain env) (block : Block)
    (current : env.staking.Staking × DealerEpoch) (valoper : String) :
    Except Err (env.staking.Staking × DealerEpoch) :=
  let (staking, epoch) := current
  match slash epoch.slashed valoper with
  | (_, false) => pure (staking, epoch)
  | (slashed, true) => do
      let power := (findEpochMember epoch valoper).elim 0 (·.power)
      let distH := if epoch.startHeight = 0 then block.height else epoch.startHeight
      let staking ← applyPenalty env.staking staking valoper distH power
        c.dealer.params.slashBpsHandDealer c.dealer.params.jailSecondsHandDealer
        block.unix
      pure (staking, { epoch with slashed := slashed })

def penaliseAll (c : Chain env) (block : Block) (epoch : DealerEpoch)
    (validators : List String) : Except Err (Chain env × DealerEpoch) := do
  let (staking, epoch) ← validators.foldlM (epochPenalise c block)
    (c.dealer.staking, epoch)
  pure ({ c with
    dealer := { c.dealer with staking := staking, epoch := some epoch } }, epoch)

def timeoutShuffle (c : Chain env) (block : Block) (tableID handID timeoutSecs : Nat)
    (dh : DealerHand) (epoch : DealerEpoch) : Except Err (Chain env) := do
  rejectIf (dh.shuffleDeadline = 0) (invalidRequest "shuffle deadline not initialized")
  rejectIf (block.unix < dh.shuffleDeadline) (invalidRequest "shuffle not timed out")
  let qual := epochQualMembers epoch
  if qual.length = 0 then abortHand c tableID handID
  else if dh.shuffleStep = qual.length then finalizeDeck c block tableID handID
  else do
    let expected ← require qual[dh.shuffleStep]? (invalidRequest
      s!"shuffle_step out of range: step={dh.shuffleStep} qual={qual.length}")
    let (c, epoch) ← penaliseAll c block epoch [expected.validator]
    let qual := epochQualMembers epoch
    if qual.length < epoch.threshold then abortHand c tableID handID
    else if dh.shuffleStep = qual.length then finalizeDeck c block tableID handID
    else do
      let shuffleDeadline ← (addInt64AndU64Checked block.unix timeoutSecs
        "dealer shuffle deadline").mapError plain
      pure (c.setHand tableID handID { dh with shuffleDeadline := shuffleDeadline })

def timeoutHoleShares (c : Chain env) (block : Block) (tableID handID : Nat)
    (t : Table) (h : Hand) (dh : DealerHand) (epoch : DealerEpoch) :
    Except Err (Chain env) := do
  rejectIf (dh.holeSharesDeadline = 0)
    (invalidRequest "hole shares deadline not initialized")
  rejectIf (block.unix < dh.holeSharesDeadline)
    (invalidRequest "hole shares not timed out")
  let missing ← (dealerMissingHoleEncShares epoch h dh).mapError plain
  let (c, epoch) ← penaliseAll c block epoch missing
  if (epochQualMembers epoch).length < epoch.threshold then
    abortHand c tableID handID
  else do
    let ready ← (dealerHoleEncSharesReady epoch t.seats h dh).mapError plain
    if ready then advanceHand c block tableID handID dh
    else abortHand c tableID handID

def timeoutReveal (c : Chain env) (block : Block) (tableID handID : Nat)
    (h : Hand) (dh : DealerHand) (epoch : DealerEpoch) :
    Except Err (Chain env) := do
  rejectIf (h.dealer.revealPos = unsetPos ∨ h.dealer.revealDeadline = 0)
    (invalidRequest "no dealer timeout applicable")
  rejectIf (block.unix < h.dealer.revealDeadline)
    (invalidRequest "reveal not timed out")
  let pos := h.dealer.revealPos
  let (c, epoch) ← penaliseAll c block epoch (dealerMissingPubShares epoch dh pos)
  if (epochQualMembers epoch).length < epoch.threshold then
    abortHand c tableID handID
  else finalizeReveal c block tableID handID pos

def Chain.currentEpoch (c : Chain env) (dh : DealerHand) : Option DealerEpoch :=
  c.dealer.epoch.filter (·.epochId = dh.epochId)

def timeoutHand (c : Chain env) (block : Block) (tableID handID : Nat) :
    Except Err (Chain env) := do
  let (t, h) ← c.activeHand tableID handID "no active dealer hand"
  let dh ← c.dealerHand tableID handID
  match c.currentEpoch dh with
  | none => abortHand c tableID handID
  | some epoch => do
      let timeoutSecs := tableDealerTimeoutSecs t.params
      rejectIf (timeoutSecs = 0) (invalidRequest "dealerTimeoutSecs must be > 0")
      rejectIf (epoch.threshold = 0) (invalidRequest "invalid epoch threshold")
      if h.phase = .shuffle ∧ dh.finalized = false then
        timeoutShuffle c block tableID handID timeoutSecs dh epoch
      else if h.phase = .shuffle then
        timeoutHoleShares c block tableID handID t h dh epoch
      else timeoutReveal c block tableID handID h dh epoch

/-! ## The remaining handlers -/

def msgFinalizeDeck (c : Chain env) (block : Block) (req : MsgHand) :
    Except Err (Chain env) := do
  requireCaller env req.caller
  requireIds req.tableId req.handId
  finalizeDeck c block req.tableId req.handId

def msgFinalizeReveal (c : Chain env) (block : Block) (req : MsgFinalizeReveal) :
    Except Err (Chain env) := do
  requireCaller env req.caller
  requireIds req.tableId req.handId
  finalizeReveal c block req.tableId req.handId req.pos

def msgTimeout (c : Chain env) (block : Block) (req : MsgHand) :
    Except Err (Chain env) := do
  requireCaller env req.caller
  requireIds req.tableId req.handId
  timeoutHand c block req.tableId req.handId

end OnChainPoker.Dealer
