import OnChainPoker.Dealer.System

/-!
# The randomness beacon

Validators commit to salts and reveal them; `BeginEpoch` hashes the revealed salts into
the randomness of the new epoch and penalises those who committed and did not reveal.
`Committee` has the pure functions of the package `committee`, the rest is `beacon.go`
and `beacon_select_beacon.go`.  The beacon is kept beside the staking state, which is
what `BeginEpoch` draws a committee from.
-/

namespace OnChainPoker.Dealer

open Foundation Crypto
open Poker (Block addInt64AndU64Checked)

/-! ## Records -/

structure BeaconCommitEntry where
  validator : String
  commit : Bytes
  deriving DecidableEq, Repr

structure BeaconRevealEntry where
  validator : String
  salt : Bytes
  deriving DecidableEq, Repr

structure BeaconState where
  epochId : Nat
  commitOpenHeight : Int
  commitCloseHeight : Int
  revealCloseHeight : Int
  threshold : Nat
  commits : List BeaconCommitEntry
  reveals : List BeaconRevealEntry
  final : Bytes
  fallback : Bool
  deriving DecidableEq, Repr

/-! ## Pure functions -/

namespace Committee

def beaconSaltBytes : Nat := 32

def beaconCommitBytes : Nat := 32

def hashDomain (sha256 : Bytes → Bytes) (domain : String) (parts : List Bytes) : Bytes :=
  sha256 (stringBytes domain ++ parts.flatMap lenBytes)

def commit (sha256 : Bytes → Bytes) (validator : String) (epochID : Nat) (salt : Bytes) :
    Except String Bytes := do
  rejectIf (validator = "") "validator is empty"
  rejectIf (salt.length ≠ beaconSaltBytes) s!"salt must be {beaconSaltBytes} bytes"
  pure (hashDomain sha256 "ocp/v1/beacon/commit"
    [stringBytes validator, u64le epochID, salt])

def reveal (sha256 : Bytes → Bytes) (validator : String) (epochID : Nat)
    (salt storedCommit : Bytes) : Except String Unit := do
  rejectIf (storedCommit.length ≠ beaconCommitBytes)
    s!"stored commit must be {beaconCommitBytes} bytes"
  let recomputed ← commit sha256 validator epochID salt
  rejectIf (recomputed ≠ storedCommit) "reveal does not match commit"

def revealedSalts : (seen : List String) → List BeaconRevealEntry →
    Except String (List Bytes)
  | _, [] => pure []
  | seen, r :: rest => do
      rejectIf (r.validator = "") "reveal has empty validator"
      rejectIf (r.validator ∈ seen) ("duplicate reveal for validator " ++ r.validator)
      rejectIf (r.salt.length ≠ beaconSaltBytes)
        s!"validator {r.validator}: salt must be {beaconSaltBytes} bytes"
      let salts ← revealedSalts (r.validator :: seen) rest
      pure (r.salt :: salts)

def final (sha256 : Bytes → Bytes) (chainID : String) (epochID : Nat)
    (reveals : List BeaconRevealEntry) (threshold : Nat) :
    Except String (Option Bytes) := do
  let salts ← revealedSalts [] reveals
  if salts.length < threshold then pure none
  else
    let sorted := sortSlice (fun a b => decide (a < b)) salts
    pure (some (hashDomain sha256 "ocp/v1/beacon/final"
      [stringBytes chainID, u64le epochID, sorted.flatMap lenBytes]))

def isWord (word : List Char) : Bool :=
  word ≠ [] && word.all fun ch => ch.isLower || ch.isDigit

/-- A name, the kind of network and any suffixes, joined by dashes. -/
def isDevnetChainID (chainID : String) : Bool :=
  match (chainID.toList.map Char.toLower).splitOn '-' with
  | name :: kind :: suffixes =>
    isWord name && (kind ∈ ["devnet", "localnet", "local"].map String.toList) &&
      suffixes.all isWord
  | _ => false

def devnetRandEpochFrom (sha256 : Bytes → Bytes) (chainID : String) (height : Int)
    (lastBlockHash : Bytes) (epochID : Nat) : Bytes :=
  hashDomain sha256 "ocp/v1/dkg/rand"
    [stringBytes chainID, leInt64 height, u64le epochID, lastBlockHash]

end Committee

/-! ## The keepers -/

/-- What the beacon reads of its context.  The account of a validator has the bytes of
its operator address. -/
structure Randomness (env : Env) where
  chainId : String
  sha256 : Bytes → Bytes
  sha256_length : ∀ text, (sha256 text).length = 32
  lastBlockHash : Block → Bytes
  /-- The consensus power, zero for a validator that is not known. -/
  consensusPower : env.staking.Staking → env.staking.ValAddr → Int
  accAddrString : env.staking.ValAddr → String
  valoper_accAddr : ∀ valAddr acc,
    env.poker.accAddressFromBech32 (accAddrString valAddr) = some acc →
      env.callerValoper acc = env.staking.valAddrString valAddr

theorem reversed_length (text : Bytes) :
    ((text.reverse ++ List.replicate 32 0).take 32).length = 32 := by
  simp

@[reducible] def StakingKeeper.withBeacon (keeper : StakingKeeper) : StakingKeeper where
  Staking := keeper.Staking × Option BeaconState
  ValAddr := keeper.ValAddr
  ConsAddr := keeper.ConsAddr
  valAddressFromBech32 := keeper.valAddressFromBech32
  valAddrString := keeper.valAddrString
  validator := fun s => keeper.validator s.1
  bondedValidatorsByPower := fun s => keeper.bondedValidatorsByPower s.1
  slashWithInfractionReason := fun s consAddr slashBps power height =>
    (keeper.slashWithInfractionReason s.1 consAddr slashBps power height).map (·, s.2)
  jail := fun s consAddr => (keeper.jail s.1 consAddr).map (·, s.2)
  errValidatorJailed := keeper.errValidatorJailed
  jailedUntil := fun s => keeper.jailedUntil s.1
  jailUntil := fun s consAddr time => (keeper.jailUntil s.1 consAddr time).map (·, s.2)

section Consume

variable {env : Env} (rand : Randomness env)

def devnetRandEpoch (block : Block) (epochID : Nat) : Bytes :=
  Committee.devnetRandEpochFrom rand.sha256 rand.chainId block.height
    (rand.lastBlockHash block) epochID

def beaconMissingReveals (bs : BeaconState) : List String :=
  (bs.commits.map BeaconCommitEntry.validator).filter fun v =>
    v ∉ bs.reveals.map BeaconRevealEntry.validator

def penaliseMissingReveals (params : Params) (block : Block) :
    env.staking.Staking → List String → Except String env.staking.Staking
  | staking, [] => pure staking
  | staking, v :: rest =>
    match env.staking.valAddressFromBech32 v with
    | .error _ => penaliseMissingReveals params block staking rest
    | .ok acc => do
        let staking ← (applyPenalty env.staking staking v block.height
          (rand.consensusPower staking acc) params.slashBpsDkg params.jailSecondsDkg
          block.unix).mapError Err.text
        penaliseMissingReveals params block staking rest

def consumeBeacon (params : Params) (block : Block) (staking : env.staking.Staking)
    (bs : BeaconState) : Except String (Bytes × env.staking.withBeacon.Staking) := do
  rejectIf (block.height ≤ bs.revealCloseHeight) "reveal window still open"
  let staking ← penaliseMissingReveals rand params block staking (beaconMissingReveals bs)
  match ← Committee.final rand.sha256 rand.chainId bs.epochId bs.reveals bs.threshold with
  | some value =>
    pure (value, staking, some { bs with final := value, fallback := false })
  | none =>
    rejectIf (Committee.isDevnetChainID rand.chainId = false)
      "beacon below threshold and chain is not devnet/local"
    let value := devnetRandEpoch rand block bs.epochId
    pure (value, staking, some { bs with final := value, fallback := true })

def consumeBeaconForEpoch (params : Params) (block : Block) (epochID : Nat)
    (s : env.staking.withBeacon.Staking) :
    Except String (Bytes × env.staking.withBeacon.Staking) :=
  match s.2.filter (·.epochId = epochID) with
  | some bs => consumeBeacon rand params block s.1 bs
  | none => do
      rejectIf (Committee.isDevnetChainID rand.chainId = false)
        ("beacon state missing for epoch; production chains must open a beacon window "
          ++ "before BeginEpoch")
      pure (devnetRandEpoch rand block epochID, s)

/-- A closed beacon of the epoch is consumed; other sources are for test networks. -/
def selectRandEpoch (s : env.staking.withBeacon.Staking) (params : Params) (block : Block)
    (epochID : Nat) (supplied : Bytes) :
    Except String (Bytes × env.staking.withBeacon.Staking) :=
  if s.2.any fun bs => bs.epochId = epochID ∧ block.height > bs.revealCloseHeight then
    consumeBeaconForEpoch rand params block epochID s
  else do
    rejectIf (Committee.isDevnetChainID rand.chainId = false)
      (s!"production chain \"{rand.chainId}\" requires a randomness-beacon window to be "
        ++ s!"opened and closed before BeginEpoch (epoch {epochID})")
    rejectIf (supplied.length ≠ 32 ∧ supplied ≠ [])
      "rand_epoch must be 32 bytes or empty"
    pure (if supplied.length = 32 then supplied else devnetRandEpoch rand block epochID, s)

@[reducible] def Env.withBeacon (env : Env) (rand : Randomness env) : Env where
  poker := env.poker
  suite := env.suite
  staking := env.staking.withBeacon
  callerValoper := env.callerValoper
  selectRandEpoch := Dealer.selectRandEpoch rand
  sampleBondedMemberSnapshotsByPower := fun s =>
    env.sampleBondedMemberSnapshotsByPower s.1

end Consume

/-! ## Messages -/

structure MsgOpenBeaconWindow where
  caller : String
  epochId : Nat
  commitBlocks : Nat
  revealBlocks : Nat
  threshold : Nat

structure MsgBeaconCommit where
  validator : String
  epochId : Nat
  commit : Bytes

structure MsgBeaconReveal where
  validator : String
  epochId : Nat
  salt : Bytes

section Handlers

variable {env : Env} {rand : Randomness env}

def State.beacon (s : State (env.withBeacon rand)) : Option BeaconState := s.staking.2

def State.setBeacon (s : State (env.withBeacon rand)) (bs : BeaconState) :
    State (env.withBeacon rand) :=
  { s with staking := (s.staking.1, some bs) }

def beaconMaxWindowBlocks : Nat := 1000000

/-- From this height on a beacon without enough reveals can be replaced. -/
def beaconStuckRecoveryHeight : Int := 1036000

def beaconDefaultWindow (chainID : String) : Nat :=
  if Committee.isDevnetChainID chainID then 5 else 50

/-- An unconsumed beacon is kept while its windows are open or it can be consumed, and
below the recovery height always. -/
def BeaconState.blocksOpening (bs : BeaconState) (height : Int) : Bool :=
  bs.final = [] &&
    (height ≤ bs.revealCloseHeight || bs.threshold ≤ bs.reveals.length ||
      height < beaconStuckRecoveryHeight)

def beaconWindow (chainID : String) (name : String) (requested : Nat) :
    Except Err Nat := do
  let blocks := if requested = 0 then beaconDefaultWindow chainID else requested
  rejectIf (blocks > beaconMaxWindowBlocks)
    (invalidRequest s!"{name} exceeds max of {beaconMaxWindowBlocks}")
  pure blocks

def openBeacon (s : State (env.withBeacon rand)) (block : Block)
    (epochID commitBlocks revealBlocks threshold : Nat) :
    Except Err (State (env.withBeacon rand)) := do
  rejectIf (epochID = 0) (invalidRequest "epoch_id must be > 0")
  rejectIf (s.beacon.any (·.blocksOpening block.height))
    (invalidRequest
      "beacon window already open; consume the previous one before opening a new one")
  let commitBlocks ← beaconWindow rand.chainId "commit_blocks" commitBlocks
  let revealBlocks ← beaconWindow rand.chainId "reveal_blocks" revealBlocks
  rejectIf (threshold < 2) (invalidRequest "threshold must be >= 2")
  let commitClose ← (addInt64AndU64Checked block.height commitBlocks
    "beacon commit_close_height").mapError plain
  let revealClose ← (addInt64AndU64Checked commitClose revealBlocks
    "beacon reveal_close_height").mapError plain
  pure (s.setBeacon
    ⟨epochID, block.height, commitClose, revealClose, threshold, [], [], [], false⟩)

/-- At the beginning of a block a window for the next epoch opens when none is open and
no DKG is in flight. -/
def maybeAutoOpenBeacon (s : State (env.withBeacon rand)) (block : Block) :
    State (env.withBeacon rand) :=
  if s.beacon.any (·.blocksOpening block.height) ∨ s.dkg.isSome ∨ s.nextEpochId = 0 ∨
      s.beacon.any fun bs => bs.epochId = s.nextEpochId ∧
        (block.height < beaconStuckRecoveryHeight ∨ bs.final ≠ []) then s
  else
    -- The threshold of the current epoch, and never less than two.
    let threshold := max 2 ((s.epoch.map DealerEpoch.threshold).getD 0)
    match openBeacon s block s.nextEpochId 0 0 threshold with
    | .ok s' => s'
    | .error _ => s

def openBeaconWindow (s : State (env.withBeacon rand)) (block : Block)
    (req : MsgOpenBeaconWindow) : Except Err (State (env.withBeacon rand)) := do
  requireCaller (env.withBeacon rand) req.caller
  requireActiveBondedCaller s req.caller
  openBeacon s block req.epochId req.commitBlocks req.revealBlocks req.threshold

def beaconValidator (s : State (env.withBeacon rand)) (validator : String)
    (wellFormed : Except Err Unit) : Except Err Unit := do
  rejectIf (validator = "") (invalidRequest "missing validator")
  let valAddr ← (env.staking.valAddressFromBech32 validator).mapError fun _ =>
    invalidRequest "invalid validator address"
  wellFormed
  requireActiveBondedCaller s (rand.accAddrString valAddr)

def State.loadBeacon (s : State (env.withBeacon rand)) (epochId : Nat) :
    Except Err BeaconState := do
  let bs ← require s.beacon (invalidRequest "no beacon window open")
  rejectIf (epochId ≠ bs.epochId) (invalidRequest "epoch_id mismatch")
  pure bs

def beaconCommit (s : State (env.withBeacon rand)) (block : Block)
    (req : MsgBeaconCommit) : Except Err (State (env.withBeacon rand)) := do
  beaconValidator s req.validator
    (rejectIf (req.commit.length ≠ Committee.beaconCommitBytes)
      (invalidRequest s!"commit must be {Committee.beaconCommitBytes} bytes"))
  let bs ← s.loadBeacon req.epochId
  rejectIf (block.height < bs.commitOpenHeight)
    (invalidRequest "commit window not yet open")
  rejectIf (block.height > bs.commitCloseHeight) (invalidRequest "commit window closed")
  rejectIf (req.validator ∈ bs.commits.map BeaconCommitEntry.validator)
    (invalidRequest "commit already submitted")
  pure (s.setBeacon { bs with
    commits := sortSlice (fun a b => decide (a.validator < b.validator))
      (bs.commits ++ [⟨req.validator, req.commit⟩]) })

def beaconReveal (s : State (env.withBeacon rand)) (block : Block)
    (req : MsgBeaconReveal) : Except Err (State (env.withBeacon rand)) := do
  beaconValidator s req.validator
    (rejectIf (req.salt.length ≠ Committee.beaconSaltBytes)
      (invalidRequest s!"salt must be {Committee.beaconSaltBytes} bytes"))
  let bs ← s.loadBeacon req.epochId
  rejectIf (block.height ≤ bs.commitCloseHeight)
    (invalidRequest "reveal window not yet open")
  rejectIf (block.height > bs.revealCloseHeight) (invalidRequest "reveal window closed")
  let stored ← require (bs.commits.find? (·.validator = req.validator))
    (invalidRequest "no commit from this validator")
  rejectIf (req.validator ∈ bs.reveals.map BeaconRevealEntry.validator)
    (invalidRequest "reveal already submitted")
  (Committee.reveal rand.sha256 req.validator req.epochId req.salt
    stored.commit).mapError invalidRequest
  pure (s.setBeacon { bs with
    reveals := sortSlice (fun a b => decide (a.validator < b.validator))
      (bs.reveals ++ [⟨req.validator, req.salt⟩]) })

end Handlers

/-! ## The chain with its beacon -/

inductive BeaconMsg where
  | openBeaconWindow (req : MsgOpenBeaconWindow)
  | beaconCommit (req : MsgBeaconCommit)
  | beaconReveal (req : MsgBeaconReveal)
  /-- No message, but the beginning of a block. -/
  | beginBlock

/-- The messages of both modules; other transactions leave the beacon alone. -/
inductive FullMsg (env : Env) where
  | player (msg : PlayerMsg env.poker)
  | dkg (block : Block) (msg : DkgMsg)
  | hand (block : Block) (msg : HandMsg)
  | beacon (block : Block) (msg : BeaconMsg)
  | otherStaking (staking : env.staking.Staking)

section System

variable {env : Env} {rand : Randomness env}

def handleBeacon (s : State (env.withBeacon rand)) (block : Block) :
    BeaconMsg → Except Err (State (env.withBeacon rand))
  | .openBeaconWindow req => openBeaconWindow s block req
  | .beaconCommit req => beaconCommit s block req
  | .beaconReveal req => beaconReveal s block req
  | .beginBlock => pure (maybeAutoOpenBeacon s block)

def handleFull (c : Chain (env.withBeacon rand)) :
    FullMsg env → Except Err (Chain (env.withBeacon rand))
  | .player msg => handle c (.player msg)
  | .dkg block msg => handle c (.dkg block msg)
  | .hand block msg => handle c (.hand block msg)
  | .beacon block msg => do
      let dealer ← handleBeacon c.dealer block msg
      pure { c with dealer := dealer }
  | .otherStaking staking => handle c (.otherStaking (staking, c.dealer.beacon))

def fullGenesis (rand : Randomness env) (balances : env.poker.bank.Balances)
    (staking : env.staking.Staking) (params : Params) : Chain (env.withBeacon rand) :=
  Chain.genesis (env.withBeacon rand) balances (staking, none) params

end System

end OnChainPoker.Dealer
