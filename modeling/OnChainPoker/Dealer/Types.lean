import Mathlib.Data.String.Basic
import OnChainPoker.Foundation.Bisect
import OnChainPoker.Crypto.Shuffle
import OnChainPoker.Poker.Keeper

/-!
# Data model of x/dealer

The records of `dealer.proto` as the keeper stores them: points, scalars and
proofs stay encoded.  The staking and slashing keepers and the choice of a
committee are external code.

Slashed validators are kept in a sorted list that is searched by bisection;
`searchStrings` is the index bisection finds in a sorted list.
-/

namespace OnChainPoker.Dealer

open Foundation Crypto
open Poker (Block)

/-! ## Records -/

structure Params where
  slashBpsDkg : Nat
  slashBpsHandDealer : Nat
  jailSecondsDkg : Nat
  jailSecondsHandDealer : Nat
  dkgVersion : Nat
  deriving DecidableEq, Repr

def Params.dkgVersionOrDefault (p : Params) : Nat :=
  if p.dkgVersion = 0 then 1 else p.dkgVersion

structure DealerMember where
  validator : String
  index : Nat
  pubShare : Bytes
  consPubkey : Bytes
  power : Int
  ephemeralPubkey : Bytes
  deriving DecidableEq, Repr

structure DealerEpoch where
  epochId : Nat
  threshold : Nat
  pkEpoch : Bytes
  transcriptRoot : Bytes
  startHeight : Int
  slashed : List String
  members : List DealerMember
  deriving DecidableEq, Repr

structure DealerDKGCommit where
  dealer : String
  commitments : List Bytes
  deriving DecidableEq, Repr

inductive ComplaintKind where
  | missing
  | invalid
  | aeadBad
  | aeadSpurious
  deriving DecidableEq, Repr

def ComplaintKind.text : ComplaintKind → String
  | .missing => "missing"
  | .invalid => "invalid"
  | .aeadBad => "aead-bad"
  | .aeadSpurious => "aead-spurious"

structure DealerDKGComplaint where
  epochId : Nat
  complainer : String
  dealer : String
  kind : ComplaintKind
  shareMsg : Bytes
  deriving DecidableEq, Repr

structure DealerDKGShareReveal where
  epochId : Nat
  dealer : String
  recipient : String
  share : Bytes
  deriving DecidableEq, Repr

structure DealerDKGEncryptedShare where
  dealer : String
  recipientIndex : Nat
  u : Bytes
  v : Bytes
  proof : Bytes
  scalarCt : Bytes
  deriving DecidableEq, Repr

structure DealerDKG where
  epochId : Nat
  threshold : Nat
  members : List DealerMember
  startHeight : Int
  commitDeadline : Int
  complaintDeadline : Int
  revealDeadline : Int
  finalizeDeadline : Int
  randEpoch : Bytes
  commits : List DealerDKGCommit
  complaints : List DealerDKGComplaint
  reveals : List DealerDKGShareReveal
  slashed : List String
  encryptedShares : List DealerDKGEncryptedShare
  deriving DecidableEq, Repr

abbrev DealerCiphertext := Ciphertext Bytes

structure DealerPubShare where
  pos : Nat
  validator : String
  index : Nat
  share : Bytes
  proof : Bytes
  deriving DecidableEq, Repr

structure DealerEncShare where
  pos : Nat
  validator : String
  index : Nat
  pkPlayer : Bytes
  encShare : Bytes
  proof : Bytes
  deriving DecidableEq, Repr

structure DealerReveal where
  pos : Nat
  cardId : Nat
  deriving DecidableEq, Repr

structure DealerHand where
  epochId : Nat
  pkHand : Bytes
  deckSize : Nat
  deck : List DealerCiphertext
  shuffleStep : Nat
  finalized : Bool
  shuffleDeadline : Int
  holeSharesDeadline : Int
  pubShares : List DealerPubShare
  encShares : List DealerEncShare
  reveals : List DealerReveal
  initHeight : Int
  initHashSalt : Bytes
  deriving DecidableEq

/-! ## Errors -/

/-- The registered errors of the module; an error of x/poker passes through and
`plain` is an unregistered one. -/
inductive ErrCode where
  | invalidRequest
  | noActiveEpoch
  | noDkgInFlight
  | handNotFound
  | unauthorized
  | poker (code : Poker.ErrCode)
  | plain
  deriving DecidableEq, Repr

structure Err where
  code : ErrCode
  text : String
  deriving DecidableEq, Repr

def invalidRequest (text : String) : Err := ⟨.invalidRequest, text⟩

def plain (text : String) : Err := ⟨.plain, text⟩

def ofPoker (err : Poker.Err) : Err := ⟨.poker err.code, err.text⟩

/-! ## External keepers -/

structure Validator (ConsAddr : Type) where
  consAddr : ConsAddr
  jailed : Bool

structure StakingKeeper where
  Staking : Type
  ValAddr : Type
  ConsAddr : Type
  valAddressFromBech32 : String → Except String ValAddr
  valAddrString : ValAddr → String
  validator : Staking → ValAddr → Except String (Option (Validator ConsAddr))
  bondedValidatorsByPower : Staking → Except String (List String)
  slashWithInfractionReason : Staking → ConsAddr → (slashBps : Nat) →
    (power distributionHeight : Int) → Except String Staking
  jail : Staking → ConsAddr → Except String Staking
  errValidatorJailed : String
  jailedUntil : Staking → ConsAddr → Except String Int
  jailUntil : Staking → ConsAddr → Int → Except String Staking

structure MemberSnapshot where
  operator : String
  power : Int
  consPubKey : Bytes
  deriving DecidableEq, Repr

/-- The code the two modules call and do not contain, the randomness of a new
epoch and the sampling of its committee.  Drawing the randomness may penalise
validators. -/
structure Env where
  poker : Poker.Env
  suite : Suite
  staking : StakingKeeper
  callerValoper : poker.Addr → String
  selectRandEpoch : staking.Staking → Params → Block → (epochID : Nat) → Bytes →
    Except String (Bytes × staking.Staking)
  sampleBondedMemberSnapshotsByPower : staking.Staking → (randEpoch : Bytes) →
    (epochID k : Nat) → Except String (List MemberSnapshot)

instance Env.fact_prime (env : Env) : Fact env.suite.order.Prime := env.suite.prime

structure State (env : Env) where
  staking : env.staking.Staking
  params : Params
  nextEpochId : Nat
  epoch : Option DealerEpoch
  dkg : Option DealerDKG
  hands : Store (Nat × Nat) DealerHand

def State.genesis (env : Env) (staking : env.staking.Staking) (params : Params) :
    State env :=
  ⟨staking, params, 1, none, none, ∅⟩

/-! ## Canonical order -/

/-- `sort.Slice`; the keys it is used with are unique, so stability is no
matter. -/
def sortSlice {α : Type} (less : α → α → Bool) (l : List α) : List α :=
  l.insertionSort fun a b => less b a = false

def lessBy {α κ μ : Type} [DecidableEq κ] [LT κ] [DecidableLT κ] [LT μ]
    [DecidableLT μ] (first : α → κ) (second : α → μ) (a b : α) : Bool :=
  if first a ≠ first b then decide (first a < first b)
  else decide (second a < second b)

def searchStrings (l : List String) (x : String) : Nat := bisect l x

def isSlashed (slashed : List String) (valoper : String) : Bool :=
  valoper ≠ "" && slashed[searchStrings slashed valoper]? == some valoper

/-- Insert into the sorted list of slashed validators.  The flag says whether
the validator is new. -/
def slash (slashed : List String) (valoper : String) : List String × Bool :=
  if valoper = "" then (slashed, false)
  else if isSlashed slashed valoper then (slashed, false)
  else (slashed.insertIdx (searchStrings slashed valoper) valoper, true)

end OnChainPoker.Dealer
