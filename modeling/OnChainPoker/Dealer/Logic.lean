import OnChainPoker.Dealer.Types

/-!
# Helpers of the dealer keeper

`logic.go` and `penalty.go`: lookups in the stored records, the derivation of a
hand's scalar, card points, evaluation and verification of DKG shares, the
transcript root, and the penalty on a validator.
-/

namespace OnChainPoker.Dealer

open Foundation Crypto

/-! ## Lookups -/

def findMember (members : List DealerMember) (valoper : String) : Option DealerMember :=
  if valoper = "" then none else members.find? (·.validator = valoper)

def findDKGMember (dkg : DealerDKG) (valoper : String) : Option DealerMember :=
  findMember dkg.members valoper

def findEpochMember (epoch : DealerEpoch) (valoper : String) : Option DealerMember :=
  findMember epoch.members valoper

def findDKGCommit (dkg : DealerDKG) (dealer : String) : Option DealerDKGCommit :=
  if dealer = "" then none else dkg.commits.find? (·.dealer = dealer)

def findDKGComplaint (dkg : DealerDKG) (complainer dealer : String) :
    Option DealerDKGComplaint :=
  if complainer = "" ∨ dealer = "" then none
  else dkg.complaints.find? fun c => c.complainer = complainer ∧ c.dealer = dealer

def findDKGReveal (dkg : DealerDKG) (dealer recipient : String) :
    Option DealerDKGShareReveal :=
  if dealer = "" ∨ recipient = "" then none
  else dkg.reveals.find? fun r => r.dealer = dealer ∧ r.recipient = recipient

def findEncryptedShare (dkg : DealerDKG) (dealer : String)
    (recipientIndex : Nat) : Option DealerDKGEncryptedShare :=
  dkg.encryptedShares.find? fun es =>
    es.dealer = dealer ∧ es.recipientIndex = recipientIndex

def qualMembers (members : List DealerMember) (slashed : List String) :
    List DealerMember :=
  members.filter fun m => !isSlashed slashed m.validator

def epochQualMembers (epoch : DealerEpoch) : List DealerMember :=
  qualMembers epoch.members epoch.slashed

/-! ## Sorting -/

def sortDKGCommits (commits : List DealerDKGCommit) : List DealerDKGCommit :=
  sortSlice (fun a b => decide (a.dealer < b.dealer)) commits

def sortDKGComplaints (complaints : List DealerDKGComplaint) :
    List DealerDKGComplaint :=
  sortSlice (lessBy (·.dealer) (·.complainer)) complaints

def sortDKGReveals (reveals : List DealerDKGShareReveal) : List DealerDKGShareReveal :=
  sortSlice (lessBy (·.dealer) (·.recipient)) reveals

def sortDKGEncryptedShares (shares : List DealerDKGEncryptedShare) :
    List DealerDKGEncryptedShare :=
  sortSlice (lessBy (·.dealer) (·.recipientIndex)) shares

def sortPubShares (shares : List DealerPubShare) : List DealerPubShare :=
  sortSlice (lessBy (·.pos) (·.validator)) shares

def sortEncShares (shares : List DealerEncShare) : List DealerEncShare :=
  sortSlice (lessBy (·.pos) (·.validator)) shares

def sortMembers (members : List DealerMember) : List DealerMember :=
  sortSlice (lessBy (·.validator) (·.index)) members

/-! ## Hand scalar and cards -/

section Suite

variable (S : Suite)

def deriveHandScalar (epochID tableID handID : Nat) (initHeight : Int)
    (initSalt : Bytes) : Except String S.Scalar := do
  rejectIf (initSalt.length ≠ 32)
    s!"deriveHandScalar: initSalt must be 32 bytes, got {initSalt.length}"
  S.hashToScalar "ocp/v1/dealer/hand-derive/v2"
    [u64le epochID, u64le tableID, u64le handID, leInt64 initHeight, initSalt]

/-- The search of `hashToNonzeroScalar` from `counter` on, `left` tries long. -/
def hashToNonzeroScalarFrom (domain : String) (msgs : List Bytes) :
    (left counter : Nat) → Except String S.Scalar
  | 0, _ => throw "hashToNonzeroScalar: failed to find non-zero scalar"
  | left + 1, counter => do
      let s ← S.hashToScalar domain
        (if counter = 0 then msgs else msgs ++ [[UInt8.ofNat counter]])
      if s ≠ 0 then pure s
      else hashToNonzeroScalarFrom domain msgs left (counter + 1)

def hashToNonzeroScalar (domain : String) (msgs : List Bytes) :
    Except String S.Scalar :=
  hashToNonzeroScalarFrom S domain msgs 256 0

def cardPoint (cardID : Nat) : S.Point := S.mulBase (S.scalarFromUint64 (cardID + 1))

/-- The table of card encodings; later entries overwrite earlier ones. -/
def cardIDOfBytes (b : Bytes) : Option Nat :=
  (List.range 52).reverse.find? fun c => S.pointBytes (cardPoint S c) = b

variable {S}

def pointToCardID (p : S.Point) (deckSize : Nat) : Except String Nat :=
  let deckSize := if deckSize = 0 ∨ deckSize > 52 then 52 else deckSize
  match cardIDOfBytes S (S.pointBytes p) with
  | some id =>
    if id < deckSize then .ok id
    else .error "plaintext does not map to a known card id"
  | none => .error "plaintext does not map to a known card id"

/-! ## DKG shares -/

variable (S)

def decodeCommitments (errorText : Nat → String → String) :
    Nat → List Bytes → Except String (List S.Point)
  | _, [] => pure []
  | i, cBytes :: rest => do
      let c ← (S.pointFromBytesCanonical cBytes).mapError (errorText i)
      let cs ← decodeCommitments errorText (i + 1) rest
      pure (c :: cs)

def dkgEvalCommitment (commitments : List Bytes) (x : Nat) : Except String S.Point := do
  let points ← decodeCommitments S
    (fun i err => s!"commitment[{i}] invalid: " ++ err) 0 commitments
  pure (S.evalPowers points (S.scalarFromUint64 x))

def dkgVerifyShare (commitments : List Bytes) (toIndex : Nat)
    (shareBytes : Bytes) : Except String Bool := do
  rejectIf (shareBytes.length ≠ 32) "share must be 32 bytes"
  let share ← S.scalarFromBytesCanonical shareBytes
  let right ← dkgEvalCommitment S commitments toIndex
  pure (decide (S.mulBase share = right))

/-! ## Signed share messages -/

structure DkgShareMsgV1 where
  epochID : Nat
  dealer : Bytes
  recipient : Bytes
  share : Bytes
  sig : Bytes
  body : Bytes

def decodeDKGShareMsgV1 (b : Bytes) : Except String DkgShareMsgV1 := do
  rejectIf (b.length < 4 + 8 + 2 + 2 + 32 + 64) "shareMsg too short"
  rejectIf (b.take 4 ≠ stringBytes "OCP1") "shareMsg bad magic"
  let epochID := leNat ((b.drop 4).take 8)
  let dealerLen := leNat ((b.drop 12).take 2)
  rejectIf (dealerLen = 0 ∨ 14 + dealerLen + 2 > b.length) "shareMsg bad dealer length"
  let dealer := (b.drop 14).take dealerLen
  let off := 14 + dealerLen
  let toLen := leNat ((b.drop off).take 2)
  let off := off + 2
  rejectIf (toLen = 0 ∨ off + toLen + 32 + 64 > b.length) "shareMsg bad to length"
  let recipient := (b.drop off).take toLen
  let off := off + toLen
  rejectIf (off + 32 + 64 ≠ b.length) "shareMsg trailing bytes"
  pure ⟨epochID, dealer, recipient, (b.drop off).take 32, (b.drop (off + 32)).take 64,
    b.take (b.length - 64)⟩

def verifyShareMsgSig (consPubkey : Bytes) (shareMsg : DkgShareMsgV1) : Bool :=
  consPubkey.length = 32 &&
    S.ed25519Verify consPubkey
      (stringBytes "ocp/dkg/sharemsg/v1" ++ [0] ++ shareMsg.body) shareMsg.sig

/-! ## Transcript root -/

def lenList {α : Type} (encode : α → Bytes) (l : List α) : Bytes :=
  u32le l.length ++ l.flatMap encode

def lenString (s : String) : Bytes := lenBytes (stringBytes s)

def encodeDKG (dkg : DealerDKG) : Bytes :=
  u64le dkg.epochId ++ u32le dkg.threshold ++
  lenList (fun m => lenString m.validator ++ u32le m.index ++ leInt64 m.power ++
    lenBytes m.consPubkey) (sortMembers dkg.members) ++
  leInt64 dkg.startHeight ++ leInt64 dkg.commitDeadline ++
  leInt64 dkg.complaintDeadline ++ leInt64 dkg.revealDeadline ++
  leInt64 dkg.finalizeDeadline ++ lenBytes dkg.randEpoch ++
  lenList (fun c => lenString c.dealer ++ lenList lenBytes c.commitments)
    (sortDKGCommits dkg.commits) ++
  lenList (fun c => u64le c.epochId ++ lenString c.complainer ++
    lenString c.dealer ++ lenString c.kind.text ++ lenBytes c.shareMsg)
    (sortDKGComplaints dkg.complaints) ++
  lenList (fun r => u64le r.epochId ++ lenString r.dealer ++
    lenString r.recipient ++ lenBytes r.share) (sortDKGReveals dkg.reveals) ++
  lenList lenString (sortSlice (fun a b => decide (a < b)) dkg.slashed)

def dkgTranscriptRoot (dkg : DealerDKG) : Bytes :=
  S.sha256 (stringBytes "ocp/v1/dkg/transcript/v2" ++ encodeDKG dkg)

end Suite

/-! ## Penalties -/

section Penalty

variable (keeper : StakingKeeper)

/-- Jail unless jailed already; "already jailed" counts as success. -/
def jailOnce (staking : keeper.Staking) (val : Validator keeper.ConsAddr) :
    Except String keeper.Staking :=
  if val.jailed then .ok staking
  else match keeper.jail staking val.consAddr with
    | .ok staking => .ok staking
    | .error err =>
      if err = keeper.errValidatorJailed then .ok staking else .error err

def extendJail (staking : keeper.Staking) (consAddr : keeper.ConsAddr)
    (blockUnix : Int) (jailSeconds : Nat) : Except String keeper.Staking :=
  if jailSeconds = 0 then .ok staking
  else do
    let newUntil := blockUnix + jailSeconds
    let until_ ← keeper.jailedUntil staking consAddr
    if until_ < newUntil then keeper.jailUntil staking consAddr newUntil
    else .ok staking

def slashFraction (staking : keeper.Staking) (consAddr : keeper.ConsAddr)
    (slashBps : Nat) (power distributionHeight : Int) :
    Except String keeper.Staking :=
  if slashBps = 0 then .ok staking
  else keeper.slashWithInfractionReason staking consAddr slashBps power
    distributionHeight

def onlyBonded (staking : keeper.Staking) (valAddr : keeper.ValAddr) : Bool :=
  match keeper.bondedValidatorsByPower staking with
  | .ok [operator] => operator = keeper.valAddrString valAddr
  | _ => false

def slashAndJailValidator (staking : keeper.Staking) (valAddr : keeper.ValAddr)
    (distributionHeight power : Int) (slashBps jailSeconds : Nat)
    (blockUnix : Int) : Except String keeper.Staking := do
  let found ← keeper.validator staking valAddr
  let val ← require found ("validator not found: " ++ keeper.valAddrString valAddr)
  let staking ← slashFraction keeper staking val.consAddr slashBps power
    distributionHeight
  if onlyBonded keeper staking valAddr then pure staking
  else do
    let staking ← jailOnce keeper staking val
    extendJail keeper staking val.consAddr blockUnix jailSeconds

def applyPenalty (staking : keeper.Staking) (valoper : String)
    (distributionHeight power : Int) (slashBps jailSeconds : Nat)
    (blockUnix : Int) : Except Err keeper.Staking := do
  let valAddr ← (keeper.valAddressFromBech32 valoper).mapError plain
  (slashAndJailValidator keeper staking valAddr distributionHeight power slashBps
    jailSeconds blockUnix).mapError plain

end Penalty

/-! ## Committee -/

/-- Canonical members of an ordered committee: operators that are not empty and
not repeated, indices from one on. -/
def membersOfSnapshots : (index : Nat) → (seen : List String) →
    List MemberSnapshot → Except String (List DealerMember)
  | _, _, [] => pure []
  | index, seen, s :: rest => do
      rejectIf (s.operator = "") "member operator address is empty"
      rejectIf (s.operator ∈ seen) ("duplicate member operator: " ++ s.operator)
      rejectIf (s.consPubKey.length ≠ 32)
        s!"member {s.operator} consensus pubkey is {s.consPubKey.length} bytes, expected 32"
      let members ← membersOfSnapshots (index + 1) (s.operator :: seen) rest
      pure (⟨s.operator, index, [], s.consPubKey, s.power, []⟩ :: members)

def dealerMembersFromSnapshots (snaps : List MemberSnapshot) :
    Except String (List DealerMember) :=
  membersOfSnapshots 1 []
    (sortSlice (fun a b => decide (a.operator < b.operator)) snaps)

end OnChainPoker.Dealer
