import OnChainPoker.Dealer.Logic

/-!
# DKG messages of x/dealer

`BeginEpoch` to `FinalizeEpoch` and `DkgTimeout`, and `finalizeEpoch` of
`ops.go`.  Heights and windows are block numbers.  A handler that fails leaves
no trace, so a step is a function to `Except`.
-/

namespace OnChainPoker.Dealer

open Foundation Crypto
open Poker (Block addUint64Checked addInt64AndU64Checked)

variable {env : Env}

/-! ## Requests -/

structure MsgBeginEpoch where
  caller : String
  epochId : Nat
  committeeSize : Nat
  threshold : Nat
  randEpoch : Bytes
  commitBlocks : Nat
  complaintBlocks : Nat
  revealBlocks : Nat
  finalizeBlocks : Nat

structure MsgDkgCommit where
  dealer : String
  epochId : Nat
  commitments : List Bytes
  ephemeralPubkey : Bytes

structure MsgDkgEncryptedShare where
  dealer : String
  epochId : Nat
  recipientIndex : Nat
  u : Bytes
  v : Bytes
  proof : Bytes
  scalarCt : Bytes

structure MsgDkgComplaintMissing where
  complainer : String
  epochId : Nat
  dealer : String

structure MsgDkgComplaintInvalid where
  complainer : String
  epochId : Nat
  dealer : String
  shareMsg : Bytes

structure MsgDkgComplaintAEADBad where
  complainer : String
  epochId : Nat
  dealer : String
  recipientIndex : Nat
  dhShare : Bytes
  dleqProof : Bytes

structure MsgDkgShareReveal where
  dealer : String
  epochId : Nat
  recipient : String
  share : Bytes

/-- `MsgFinalizeEpoch` and `MsgDkgTimeout`. -/
structure MsgEpoch where
  caller : String
  epochId : Nat

/-! ## Shared checks -/

def requireCaller (env : Env) (caller : String) : Except Err Unit := do
  rejectIf (caller = "") (invalidRequest "missing caller")
  rejectIf (env.poker.accAddressFromBech32 caller).isNone
    (invalidRequest "invalid caller address")

def requireValAddress (env : Env) (valoper role : String) : Except Err Unit :=
  match env.staking.valAddressFromBech32 valoper with
  | .ok _ => .ok ()
  | .error _ => .error (invalidRequest ("invalid " ++ role ++ " address"))

def requireActiveBondedCaller (s : State env) (caller : String) : Except Err Unit := do
  let acc ← require (env.poker.accAddressFromBech32 caller)
    (invalidRequest "invalid caller")
  let bonded ← (env.staking.bondedValidatorsByPower s.staking).mapError plain
  rejectIf (env.callerValoper acc ∉ bonded)
    ⟨.unauthorized, "caller " ++ caller ++ " is not an active bonded validator"⟩

def State.loadDKG (s : State env) (epochId : Nat) : Except Err DealerDKG := do
  let dkg ← require s.dkg ⟨.noDkgInFlight, "no dkg in progress"⟩
  rejectIf (epochId ≠ dkg.epochId) (invalidRequest "epoch_id mismatch")
  pure dkg

/-! ## Beginning -/

def dkgMaxWindowBlocks : Nat := 1000000

def windowBlocks (requested : Nat) : Nat := if requested = 0 then 5 else requested

def validateDKGWindow (name : String) (blocks : Nat) : Except Err Unit :=
  rejectIf (blocks > dkgMaxWindowBlocks)
    (invalidRequest (name ++ " exceeds max window of 1000000 blocks"))

def sampleMembers (s : State env) (epochID : Nat) (randEpoch : Bytes) (k : Nat) :
    Except Err (List DealerMember) := do
  let snaps ← (env.sampleBondedMemberSnapshotsByPower s.staking randEpoch epochID
    k).mapError plain
  (dealerMembersFromSnapshots snaps).mapError plain

def beginEpoch (s : State env) (block : Block) (req : MsgBeginEpoch) :
    Except Err (State env) := do
  requireCaller env req.caller
  rejectIf (req.threshold < 2) (invalidRequest "threshold must be >= 2")
  rejectIf (req.committeeSize < req.threshold)
    (invalidRequest "committee_size must be >= threshold")
  requireActiveBondedCaller s req.caller
  rejectIf s.dkg.isSome (invalidRequest "dkg already in progress")
  let next := s.nextEpochId
  let epochID := if req.epochId = 0 then next else req.epochId
  rejectIf (epochID = 0) (invalidRequest "epoch_id must be > 0")
  rejectIf (epochID ≠ next)
    (invalidRequest s!"unexpected epoch_id: expected {next} got {epochID}")
  let nextEpochID ← (addUint64Checked epochID 1 "next epoch id").mapError invalidRequest
  let (randEpoch, staking) ← (env.selectRandEpoch s.staking s.params block epochID
    req.randEpoch).mapError invalidRequest
  let members ← sampleMembers { s with staking := staking } epochID randEpoch
    req.committeeSize
  let commitBlocks := windowBlocks req.commitBlocks
  validateDKGWindow "commitBlocks" commitBlocks
  let complaintBlocks := windowBlocks req.complaintBlocks
  validateDKGWindow "complaintBlocks" complaintBlocks
  let revealBlocks := windowBlocks req.revealBlocks
  validateDKGWindow "revealBlocks" revealBlocks
  let finalizeBlocks := windowBlocks req.finalizeBlocks
  validateDKGWindow "finalizeBlocks" finalizeBlocks
  let commitDL ← (addInt64AndU64Checked block.height commitBlocks
    "dkg commit deadline").mapError plain
  let complaintDL ← (addInt64AndU64Checked commitDL complaintBlocks
    "dkg complaint deadline").mapError plain
  let revealDL ← (addInt64AndU64Checked complaintDL revealBlocks
    "dkg reveal deadline").mapError plain
  let finalizeDL ← (addInt64AndU64Checked revealDL finalizeBlocks
    "dkg finalize deadline").mapError plain
  let dkg : DealerDKG :=
    ⟨epochID, req.threshold, members, block.height, commitDL, complaintDL, revealDL,
      finalizeDL, randEpoch, [], [], [], [], []⟩
  pure { s with staking := staking, dkg := some dkg, nextEpochId := nextEpochID }

/-! ## Commitments and encrypted shares -/

def checkCommitments (S : Suite) : Nat → List Bytes → Except Err Unit
  | _, [] => pure ()
  | i, c :: rest => do
      rejectIf (c.length ≠ 32) (invalidRequest s!"commitment[{i}] must be 32 bytes")
      let _ ← (S.pointFromBytesCanonical c).mapError fun err =>
        invalidRequest (s!"commitment[{i}] invalid: " ++ err)
      checkCommitments S (i + 1) rest

def checkEphemeralPubkey (S : Suite) (key : Bytes) : Except Err Unit :=
  if key = [] then pure ()
  else do
    rejectIf (key.length ≠ 32) (invalidRequest "ephemeral_pubkey must be 32 bytes")
    let _ ← (S.pointFromBytesCanonical key).mapError fun err =>
      invalidRequest ("ephemeral_pubkey invalid: " ++ err)
    pure ()

def setEphemeralPubkey (valoper : String) (key : Bytes) :
    List DealerMember → List DealerMember
  | [] => []
  | m :: rest =>
    if m.validator = valoper then { m with ephemeralPubkey := key } :: rest
    else m :: setEphemeralPubkey valoper key rest

def dkgCommit (s : State env) (block : Block) (req : MsgDkgCommit) :
    Except Err (State env) := do
  rejectIf (req.dealer = "") (invalidRequest "missing dealer")
  requireValAddress env req.dealer "dealer"
  let dkg ← s.loadDKG req.epochId
  rejectIf (block.height > dkg.commitDeadline) (invalidRequest "commit deadline passed")
  rejectIf (findDKGMember dkg req.dealer).isNone
    (invalidRequest "dealer not in committee")
  rejectIf (findDKGCommit dkg req.dealer).isSome
    (invalidRequest "commit already submitted")
  rejectIf (req.commitments.length ≠ dkg.threshold)
    (invalidRequest
      s!"commitments length mismatch: expected {dkg.threshold} got {req.commitments.length}")
  checkCommitments env.suite 0 req.commitments
  checkEphemeralPubkey env.suite req.ephemeralPubkey
  let members :=
    if req.ephemeralPubkey = [] then dkg.members
    else setEphemeralPubkey req.dealer req.ephemeralPubkey dkg.members
  let commits := sortDKGCommits (dkg.commits ++ [⟨req.dealer, req.commitments⟩])
  pure { s with dkg := some { dkg with members := members, commits := commits } }

def requireLength (b : Bytes) (n : Nat) (text : String) : Except Err Unit :=
  rejectIf (b.length ≠ n) (invalidRequest text)

def decodePoint (S : Suite) (b : Bytes) (what : String) : Except Err S.Point :=
  (S.pointFromBytesCanonical b).mapError fun err =>
    invalidRequest (what ++ " invalid: " ++ err)

def dkgEncryptedShare (s : State env) (block : Block)
    (req : MsgDkgEncryptedShare) : Except Err (State env) := do
  rejectIf (req.dealer = "") (invalidRequest "missing dealer")
  requireValAddress env req.dealer "dealer"
  let dkg ← s.loadDKG req.epochId
  rejectIf (block.height > dkg.revealDeadline) (invalidRequest "reveal deadline passed")
  rejectIf (findDKGMember dkg req.dealer).isNone
    (invalidRequest "dealer not in committee")
  let recipient ← require (dkg.members.find? (·.index = req.recipientIndex))
    (invalidRequest "recipient_index not in committee")
  rejectIf (recipient.validator = req.dealer)
    (invalidRequest "dealer cannot address itself")
  rejectIf (recipient.ephemeralPubkey = [])
    (invalidRequest "recipient has no ephemeral_pubkey yet")
  let pkR ← decodePoint env.suite recipient.ephemeralPubkey "recipient ephemeral_pubkey"
  let commit ← require (findDKGCommit dkg req.dealer)
    (invalidRequest "dealer has not committed")
  requireLength req.u 32 "u must be 32 bytes"
  requireLength req.v 32 "v must be 32 bytes"
  requireLength req.proof 160 "proof must be 160 bytes"
  requireLength req.scalarCt 48 "scalar_ct must be 48 bytes"
  let u ← decodePoint env.suite req.u "u"
  let v ← decodePoint env.suite req.v "v"
  let proof ← (env.suite.decodeDkgEncShareProof req.proof).mapError fun err =>
    invalidRequest ("proof invalid: " ++ err)
  let commitments ← (decodeCommitments env.suite
    (fun i err => s!"stored commitment[{i}] invalid: " ++ err) 0
    commit.commitments).mapError invalidRequest
  let ok ← (Suite.dkgEncShareVerify commitments req.recipientIndex pkR u v
    proof).mapError plain
  rejectIf (ok = false) (invalidRequest "invalid encrypted-share proof")
  rejectIf (findEncryptedShare dkg req.dealer req.recipientIndex).isSome
    (invalidRequest "encrypted share already submitted for this (dealer, recipient)")
  let shares := sortDKGEncryptedShares (dkg.encryptedShares ++
    [⟨req.dealer, req.recipientIndex, req.u, req.v, req.proof, req.scalarCt⟩])
  pure { s with dkg := some { dkg with encryptedShares := shares } }

/-! ## Penalties during a DKG -/

def dkgPenalise (s : State env) (block : Block) (valoper : String) (power : Int)
    (current : env.staking.Staking × DealerDKG) :
    Except Err (env.staking.Staking × DealerDKG) :=
  let (staking, dkg) := current
  match slash dkg.slashed valoper with
  | (_, false) => pure (staking, dkg)
  | (slashed, true) => do
      let staking ← applyPenalty env.staking staking valoper dkg.startHeight power
        s.params.slashBpsDkg s.params.jailSecondsDkg block.unix
      pure (staking, { dkg with slashed := slashed })

def slashMissingCommit (s : State env) (block : Block)
    (current : env.staking.Staking × DealerDKG) (mem : DealerMember) :
    Except Err (env.staking.Staking × DealerDKG) :=
  if (findDKGCommit current.2 mem.validator).isSome then pure current
  else dkgPenalise s block mem.validator mem.power current

/-! ## Complaints -/

/-- The checks that the three kinds of complaint make in the same order. -/
def loadForComplaint (s : State env) (block : Block) (epochId : Nat) :
    Except Err DealerDKG := do
  let dkg ← s.loadDKG epochId
  rejectIf (block.height < dkg.commitDeadline)
    (invalidRequest "complaints not yet allowed")
  rejectIf (block.height > dkg.complaintDeadline)
    (invalidRequest "complaint deadline passed")
  pure dkg

def requireParties (complainer dealer : String) : Except Err Unit := do
  rejectIf (complainer = "" ∨ dealer = "") (invalidRequest "missing complainer/dealer")
  rejectIf (complainer = dealer) (invalidRequest "complainer and dealer must differ")

def requireMember (dkg : DealerDKG) (valoper role : String) : Except Err DealerMember :=
  require (findDKGMember dkg valoper) (invalidRequest (role ++ " not in committee"))

def addComplaint (dkg : DealerDKG) (complainer dealer : String)
    (kind : ComplaintKind) (shareMsg : Bytes) : DealerDKG :=
  { dkg with
    complaints := sortDKGComplaints (dkg.complaints ++
      [⟨dkg.epochId, complainer, dealer, kind, shareMsg⟩]) }

def dkgComplaintMissing (s : State env) (block : Block)
    (req : MsgDkgComplaintMissing) : Except Err (State env) := do
  requireParties req.complainer req.dealer
  requireValAddress env req.complainer "complainer"
  requireValAddress env req.dealer "dealer"
  let dkg ← loadForComplaint s block req.epochId
  let _ ← requireMember dkg req.complainer "complainer"
  let _ ← requireMember dkg req.dealer "dealer"
  rejectIf (findDKGComplaint dkg req.complainer req.dealer).isSome
    (invalidRequest "complaint already filed")
  pure { s with dkg := some (addComplaint dkg req.complainer req.dealer .missing []) }

/-- The evidence against a dealer holds: no commit, or the share does not match. -/
def checkInvalidShare (env : Env) (dkg : DealerDKG) (dealer : String) (toIndex : Nat)
    (share : Bytes) : Except Err Unit :=
  match findDKGCommit dkg dealer with
  | none => pure ()
  | some commit => do
      let ok ← (dkgVerifyShare env.suite commit.commitments toIndex
        share).mapError plain
      rejectIf (ok = true) (invalidRequest "share matches commitments")

def dkgComplaintInvalid (s : State env) (block : Block)
    (req : MsgDkgComplaintInvalid) : Except Err (State env) := do
  requireParties req.complainer req.dealer
  rejectIf (req.shareMsg = []) (invalidRequest "missing share_msg")
  requireValAddress env req.complainer "complainer"
  requireValAddress env req.dealer "dealer"
  let dkg ← loadForComplaint s block req.epochId
  let toMem ← requireMember dkg req.complainer "complainer"
  let dealerMem ← requireMember dkg req.dealer "dealer"
  rejectIf (findDKGComplaint dkg req.complainer req.dealer).isSome
    (invalidRequest "complaint already filed")
  let shareMsg ← (decodeDKGShareMsgV1 req.shareMsg).mapError invalidRequest
  rejectIf (shareMsg.epochID ≠ dkg.epochId)
    (invalidRequest "share_msg epoch_id mismatch")
  rejectIf (shareMsg.dealer ≠ stringBytes req.dealer)
    (invalidRequest "share_msg dealer mismatch")
  rejectIf (shareMsg.recipient ≠ stringBytes req.complainer)
    (invalidRequest "share_msg to mismatch")
  rejectIf (verifyShareMsgSig env.suite dealerMem.consPubkey shareMsg = false)
    (invalidRequest "invalid share_msg signature")
  checkInvalidShare env dkg req.dealer toMem.index shareMsg.share
  let (staking, dkg) ← dkgPenalise s block req.dealer dealerMem.power (s.staking, dkg)
  pure { s with
    staking := staking
    dkg := some (addComplaint dkg req.complainer req.dealer .invalid req.shareMsg) }

def adjudicate (S : Suite) (dh v : S.Point) (es : DealerDKGEncryptedShare) :
    ComplaintKind :=
  match S.dkgScalarAeadOpen dh es.scalarCt es.proof with
  | .error _ => .aeadBad
  | .ok sPrime => if S.mulBase sPrime ≠ v - dh then .aeadBad else .aeadSpurious

def dkgComplaintAEADBad (s : State env) (block : Block)
    (req : MsgDkgComplaintAEADBad) : Except Err (State env) := do
  requireParties req.complainer req.dealer
  requireValAddress env req.complainer "complainer"
  requireValAddress env req.dealer "dealer"
  requireLength req.dhShare 32 "dh_share must be 32 bytes"
  requireLength req.dleqProof 96 "dleq_proof must be 96 bytes"
  let dkg ← loadForComplaint s block req.epochId
  let complainerMem ← requireMember dkg req.complainer "complainer"
  let dealerMem ← requireMember dkg req.dealer "dealer"
  rejectIf (req.recipientIndex ≠ complainerMem.index)
    (invalidRequest "recipient_index must equal complainer's committee index")
  rejectIf (findDKGComplaint dkg req.complainer req.dealer).isSome
    (invalidRequest "complaint already filed")
  let es ← require (findEncryptedShare dkg req.dealer req.recipientIndex)
    (invalidRequest "no encrypted share from dealer to this recipient")
  requireLength complainerMem.ephemeralPubkey 32 "complainer has no ephemeral_pubkey"
  let pkR ← decodePoint env.suite complainerMem.ephemeralPubkey
    "complainer ephemeral_pubkey"
  let u ← decodePoint env.suite es.u "stored u"
  let v ← decodePoint env.suite es.v "stored v"
  let dh ← decodePoint env.suite req.dhShare "dh_share"
  let proof ← (env.suite.decodeChaumPedersenProof req.dleqProof).mapError fun err =>
    invalidRequest ("dleq_proof invalid: " ++ err)
  let ok ← (Suite.chaumPedersenVerify pkR u dh proof).mapError plain
  rejectIf (ok = false) (invalidRequest "invalid DLEQ proof for dh_share")
  let kind := adjudicate env.suite dh v es
  let guilty := if kind = .aeadBad then dealerMem else complainerMem
  let guiltyAddr := if kind = .aeadBad then req.dealer else req.complainer
  let (staking, dkg) ← dkgPenalise s block guiltyAddr guilty.power (s.staking, dkg)
  pure { s with
    staking := staking
    dkg := some (addComplaint dkg req.complainer req.dealer kind []) }

def dkgShareReveal (s : State env) (block : Block) (req : MsgDkgShareReveal) :
    Except Err (State env) := do
  rejectIf (s.params.dkgVersionOrDefault ≥ 2) (invalidRequest
    "DkgShareReveal is disabled under DkgVersion >= 2; use MsgDkgEncryptedShare")
  rejectIf (req.dealer = "" ∨ req.recipient = "") (invalidRequest "missing dealer/to")
  rejectIf (req.dealer = req.recipient) (invalidRequest "dealer and to must differ")
  requireValAddress env req.dealer "dealer"
  requireValAddress env req.recipient "to"
  let dkg ← s.loadDKG req.epochId
  rejectIf (block.height > dkg.revealDeadline) (invalidRequest "reveal deadline passed")
  let _ ← requireMember dkg req.dealer "dealer"
  let toMem ← requireMember dkg req.recipient "to"
  rejectIf (findDKGComplaint dkg req.recipient req.dealer).isNone
    (invalidRequest "no complaint for this dealer/to")
  rejectIf (findDKGReveal dkg req.dealer req.recipient).isSome
    (invalidRequest "reveal already submitted")
  let commit ← require (findDKGCommit dkg req.dealer)
    (invalidRequest "dealer has not committed")
  let ok ← (dkgVerifyShare env.suite commit.commitments toMem.index
    req.share).mapError plain
  rejectIf (ok = false) (invalidRequest "share does not match commitments")
  let reveals := sortDKGReveals (dkg.reveals ++
    [⟨dkg.epochId, req.dealer, req.recipient, req.share⟩])
  pure { s with dkg := some { dkg with reveals := reveals } }

/-! ## Finalisation -/

def complaintResolved (S : Suite) (dkg : DealerDKG) (c : DealerDKGComplaint) : Bool :=
  match findDKGCommit dkg c.dealer, findDKGReveal dkg c.dealer c.complainer,
      findDKGMember dkg c.complainer with
  | some commit, some reveal, some toMem =>
    match dkgVerifyShare S commit.commitments toMem.index reveal.share with
    | .ok ok => ok
    | .error _ => false
  | _, _, _ => false

def settleComplaint (s : State env) (block : Block)
    (current : env.staking.Staking × DealerDKG) (c : DealerDKGComplaint) :
    Except Err (env.staking.Staking × DealerDKG) :=
  if isSlashed current.2.slashed c.dealer then pure current
  else if complaintResolved env.suite current.2 c then pure current
  else dkgPenalise s block c.dealer
    ((findDKGMember current.2 c.dealer).elim 0 (·.power)) current

def epochKey (S : Suite) (dkg : DealerDKG) (qualDealers : List DealerMember) :
    Except String S.Point :=
  qualDealers.foldlM (fun pk mem =>
    match (findDKGCommit dkg mem.validator).bind (·.commitments.head?) with
    | none => pure pk
    | some c0Bytes => do
        let c0 ← S.pointFromBytesCanonical c0Bytes
        pure (pk + c0)) 0

def publicShare (S : Suite) (dkg : DealerDKG) (qualDealers : List DealerMember)
    (x : Nat) : Except String S.Point :=
  qualDealers.foldlM (fun y dealer =>
    match findDKGCommit dkg dealer.validator with
    | none => pure y
    | some commit => do
        let pt ← dkgEvalCommitment S commit.commitments x
        pure (y + pt)) 0

def withPubShare (S : Suite) (dkg : DealerDKG) (qualDealers : List DealerMember)
    (mem : DealerMember) : Except String DealerMember := do
  let y ← publicShare S dkg qualDealers mem.index
  pure { mem with pubShare := S.pointBytes y }

def computeEpoch (S : Suite) (dkg : DealerDKG) : Except String DealerEpoch := do
  let qualDealers := qualMembers dkg.members dkg.slashed
  let pk ← epochKey S dkg qualDealers
  let membersOut ← dkg.members.mapM (withPubShare S dkg qualDealers)
  pure ⟨dkg.epochId, dkg.threshold, S.pointBytes pk, dkgTranscriptRoot S dkg,
    dkg.startHeight, dkg.slashed, sortMembers membersOut⟩

def settle (s : State env) (block : Block) (dkg : DealerDKG) :
    Except Err (env.staking.Staking × DealerDKG) := do
  let current ← dkg.members.foldlM (slashMissingCommit s block) (s.staking, dkg)
  dkg.complaints.foldlM (settleComplaint s block) current

/-- `finalizeEpoch` of the keeper: a new epoch, or an abort below threshold. -/
def completeEpoch (s : State env) (block : Block) (dkg : DealerDKG) :
    Except Err (State env) := do
  let (staking, dkg) ← settle s block dkg
  if (qualMembers dkg.members dkg.slashed).length < dkg.threshold then
    pure { s with staking := staking, dkg := none }
  else do
    let epoch ← (computeEpoch env.suite dkg).mapError plain
    pure { s with staking := staking, epoch := some epoch, dkg := none }

def finalizeEpoch (s : State env) (block : Block) (req : MsgEpoch) :
    Except Err (State env) := do
  requireCaller env req.caller
  let dkg ← s.loadDKG req.epochId
  rejectIf (block.height ≤ dkg.revealDeadline) (invalidRequest
    s!"too early to finalize: height={block.height} revealDeadline={dkg.revealDeadline}")
  completeEpoch s block dkg

def dkgTimeout (s : State env) (block : Block) (req : MsgEpoch) :
    Except Err (State env) := do
  requireCaller env req.caller
  let dkg ← s.loadDKG req.epochId
  rejectIf (block.height ≤ dkg.commitDeadline) (invalidRequest
    s!"too early for dkg timeout: height={block.height} commitDeadline={dkg.commitDeadline}")
  let (staking, dkg) ← dkg.members.foldlM (slashMissingCommit s block) (s.staking, dkg)
  let s := { s with staking := staking }
  if (qualMembers dkg.members dkg.slashed).length < dkg.threshold then
    pure { s with dkg := none }
  else if block.height > dkg.revealDeadline then
    completeEpoch { s with dkg := some dkg } block dkg
  else pure { s with dkg := some dkg }

end OnChainPoker.Dealer
