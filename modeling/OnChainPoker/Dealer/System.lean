import OnChainPoker.Dealer.Hands

/-!
# The two modules as one transition system

Messages of both modules in any order, over any number of tables, and any other
transaction of the chain, which may change the staking state and pay coins into
the poker account.
-/

namespace OnChainPoker.Dealer

open Foundation Crypto
open Poker (Block)

inductive PlayerMsg (env : Poker.Env) where
  | createTable (req : Poker.MsgCreateTable)
  | sit (req : Poker.MsgSit)
  | startHand (block : Block) (req : Poker.MsgStartHand)
  | act (block : Block) (req : Poker.MsgAct)
  | tick (block : Block) (req : Poker.MsgTick)
  | leave (req : Poker.MsgLeave)
  | rebuy (req : Poker.MsgRebuy)
  | otherTransaction (balances : env.bank.Balances)

def PlayerMsg.toPoker {env : Poker.Env} : PlayerMsg env → Poker.Msg env
  | .createTable req => .createTable req
  | .sit req => .sit req
  | .startHand block req => .startHand block req
  | .act block req => .act block req
  | .tick block req => .tick block req
  | .leave req => .leave req
  | .rebuy req => .rebuy req
  | .otherTransaction balances => .otherTransaction balances

inductive DkgMsg where
  | beginEpoch (req : MsgBeginEpoch)
  | dkgCommit (req : MsgDkgCommit)
  | dkgEncryptedShare (req : MsgDkgEncryptedShare)
  | dkgComplaintMissing (req : MsgDkgComplaintMissing)
  | dkgComplaintInvalid (req : MsgDkgComplaintInvalid)
  | dkgComplaintAEADBad (req : MsgDkgComplaintAEADBad)
  | dkgShareReveal (req : MsgDkgShareReveal)
  | finalizeEpoch (req : MsgEpoch)
  | dkgTimeout (req : MsgEpoch)

inductive HandMsg where
  | initHand (lastBlockHash : Bytes) (req : MsgInitHand)
  | submitShuffle (req : MsgSubmitShuffle)
  | finalizeDeck (req : MsgHand)
  | submitEncShare (req : MsgSubmitEncShare)
  | submitPubShare (req : MsgSubmitPubShare)
  | finalizeReveal (req : MsgFinalizeReveal)
  | timeout (req : MsgHand)

inductive Msg (env : Env) where
  | player (msg : PlayerMsg env.poker)
  | dkg (block : Block) (msg : DkgMsg)
  | hand (block : Block) (msg : HandMsg)
  | otherStaking (staking : env.staking.Staking)

variable {env : Env}

def handleDkg (s : State env) (block : Block) : DkgMsg → Except Err (State env)
  | .beginEpoch req => beginEpoch s block req
  | .dkgCommit req => dkgCommit s block req
  | .dkgEncryptedShare req => dkgEncryptedShare s block req
  | .dkgComplaintMissing req => dkgComplaintMissing s block req
  | .dkgComplaintInvalid req => dkgComplaintInvalid s block req
  | .dkgComplaintAEADBad req => dkgComplaintAEADBad s block req
  | .dkgShareReveal req => dkgShareReveal s block req
  | .finalizeEpoch req => finalizeEpoch s block req
  | .dkgTimeout req => dkgTimeout s block req

def handleHand (c : Chain env) (block : Block) : HandMsg → Except Err (Chain env)
  | .initHand lastBlockHash req => initHand c block lastBlockHash req
  | .submitShuffle req => submitShuffle c block req
  | .finalizeDeck req => msgFinalizeDeck c block req
  | .submitEncShare req => submitEncShare c block req
  | .submitPubShare req => submitPubShare c block req
  | .finalizeReveal req => msgFinalizeReveal c block req
  | .timeout req => msgTimeout c block req

def handle (c : Chain env) : Msg env → Except Err (Chain env)
  | .player msg => do
      let poker ← (Poker.handle c.poker msg.toPoker).mapError ofPoker
      pure { c with poker := poker }
  | .dkg block msg => do
      let dealer ← handleDkg c.dealer block msg
      pure { c with dealer := dealer }
  | .hand block msg => handleHand c block msg
  | .otherStaking staking =>
    pure { c with dealer := { c.dealer with staking := staking } }

inductive ChainStep (c : Chain env) : Msg env → Chain env → Prop where
  | player (msg : PlayerMsg env.poker) (poker : Poker.State env.poker)
      (hpoker : Poker.handle c.poker msg.toPoker = .ok poker) :
      ChainStep c (.player msg) { c with poker := poker }
  | dkg (block : Block) (msg : DkgMsg) (dealer : State env)
      (hdealer : handleDkg c.dealer block msg = .ok dealer) :
      ChainStep c (.dkg block msg) { c with dealer := dealer }
  | hand (block : Block) (msg : HandMsg) {c' : Chain env}
      (hok : handleHand c block msg = .ok c') : ChainStep c (.hand block msg) c'
  | otherStaking (staking : env.staking.Staking) :
      ChainStep c (.otherStaking staking)
        { c with dealer := { c.dealer with staking := staking } }

theorem handle_step {c c' : Chain env} {msg : Msg env} (hok : handle c msg = .ok c') :
    ChainStep c msg c' := by
  cases msg with
  | player msg =>
    simp only [handle, ok_iff] at hok
    obtain ⟨poker, hpoker, rfl⟩ := hok
    exact .player msg poker hpoker
  | dkg block msg =>
    simp only [handle, ok_iff] at hok
    obtain ⟨dealer, hdealer, rfl⟩ := hok
    exact .dkg block msg dealer hdealer
  | hand block msg => exact .hand block msg hok
  | otherStaking staking =>
    cases hok
    exact .otherStaking staking

def Chain.genesis (env : Env) (balances : env.poker.bank.Balances)
    (staking : env.staking.Staking) (params : Params) : Chain env :=
  ⟨Poker.State.genesis env.poker balances, State.genesis env staking params⟩

def Reachable (c : Chain env) : Prop :=
  Foundation.Reachable handle (fun c => ∃ balances staking params,
    c = Chain.genesis env balances staking params) c

theorem reachable_of_reaches {balances : env.poker.bank.Balances}
    {staking : env.staking.Staking} {params : Params} {log : List (Msg env)}
    (hreach : Reaches handle (Chain.genesis env balances staking params) log c) :
    Reachable c :=
  ⟨_, log, ⟨balances, staking, params, rfl⟩, hreach⟩

theorem reachable_run (balances : env.poker.bank.Balances)
    (staking : env.staking.Staking) (params : Params) (messages : List (Msg env)) :
    Reachable (run handle (Chain.genesis env balances staking params) messages) :=
  reachable_of_reaches (reaches_run messages)

/-! ## A concrete environment -/

/-- A staking module in which every penalty goes through. -/
def lenientStaking : StakingKeeper where
  Staking := Unit
  ValAddr := String
  ConsAddr := String
  valAddressFromBech32 := .ok
  valAddrString := id
  validator := fun _ valAddr => .ok (some ⟨valAddr, false⟩)
  bondedValidatorsByPower := fun _ => .ok ["A", "B", "C", "D"]
  slashWithInfractionReason := fun _ _ _ _ _ => .ok ()
  jail := fun _ _ => .ok ()
  errValidatorJailed := "validator already jailed"
  jailedUntil := fun _ _ => .ok 0
  jailUntil := fun _ _ _ => .ok ()

def snapshot (operator : String) : MemberSnapshot := ⟨operator, 1, List.replicate 32 0⟩

/-- Four validators, of whom the first ones are the committee. -/
def residueEnv : Env where
  poker := Poker.ledgerEnv
  suite := residueSuite
  staking := lenientStaking
  callerValoper := fun address => address
  selectRandEpoch := fun staking _ _ _ randEpoch => .ok (randEpoch, staking)
  sampleBondedMemberSnapshotsByPower := fun _ _ _ k =>
    .ok ((["A", "B", "C", "D"].map snapshot).take k)

def residueParams : Params := ⟨0, 0, 0, 0, 2⟩

def residueGenesis : Chain residueEnv :=
  Chain.genesis residueEnv (0 : Nat) () residueParams

def dkgMsgAt (height : Int) (msg : DkgMsg) : Msg residueEnv :=
  .dkg ⟨height, 1000, Poker.thousand_pos, Poker.thousand_le⟩ msg

/-- Threshold two; every window is one block long. -/
def beginEpochMsg (committeeSize : Nat) : Msg residueEnv :=
  dkgMsgAt 1 (.beginEpoch ⟨"A", 1, committeeSize, 2, [], 1, 1, 1, 1⟩)

/-- A dealer commits to `a + b x` and publishes the ephemeral key `1`. -/
def dkgCommitMsg (dealer : String) (a b : ZMod 53) : Msg residueEnv :=
  dkgMsgAt 2 (.dkgCommit ⟨dealer, 1, [residueBytes a, residueBytes b], residueBytes 1⟩)

def finalizeEpochMsg : Msg residueEnv := dkgMsgAt 5 (.finalizeEpoch ⟨"A", 1⟩)

/-- Three members with the key of `15 + 7 x`. -/
def committeeRun : List (Msg residueEnv) :=
  [beginEpochMsg 3, dkgCommitMsg "A" 3 1, dkgCommitMsg "B" 5 2,
    dkgCommitMsg "C" 7 4, finalizeEpochMsg]

instance neZero_tenThousand : NeZero 10000 := ⟨by decide⟩

def blockAt (seconds : Fin 10000) : Block := ⟨10, 1000 + seconds, by omega, by omega⟩

def handMsgAt (seconds : Fin 10000) (msg : HandMsg) : Msg residueEnv :=
  .hand (blockAt seconds) msg

def dealRun (tableId deckSize : Nat) : List (Msg residueEnv) :=
  [.player (.createTable ⟨"gm", 1, 2, 1, 1000, 30, 120, 0, 0, 9, "table", [], []⟩),
    .player (.sit ⟨"P", tableId, 100, residueBytes 1, []⟩),
    .player (.sit ⟨"Q", tableId, 100, residueBytes 2, []⟩),
    .player (.startHand (blockAt 0) ⟨"P", tableId⟩),
    handMsgAt 0 (.initHand (List.replicate 32 0) ⟨"gm", tableId, 1, 1, deckSize⟩)]

def residueRelation (z : ZMod 53) : Bytes :=
  residueBytes 0 ++ residueBytes 0 ++ residueBytes z

/-- The proof of a shuffle that moves no card and adds `1` to every exponent, for
an even deck that was shuffled `round - 1` times in that way. -/
def reencryptProof (tableId round : Nat) (shuffler : String) (deckSize : Nat) : Bytes :=
  let context := u64le tableId ++ u64le 1 ++ u16le round ++
    u16le (stringBytes shuffler).length ++ stringBytes shuffler
  [2] ++ u16le deckSize ++ u16le 1 ++ u16le context.length ++ context ++
    (List.range deckSize).flatMap (fun i =>
      residueBytes ((round + 1 : Nat) : ZMod 53) ++
        residueBytes ((i + 1 + (round + 1) * 15 : Nat) : ZMod 53)) ++
    (List.replicate (deckSize / 2) (residueBytes 1 ++ residueRelation 1 ++
      residueRelation 1 ++ residueRelation 0 ++ residueRelation 0)).flatten

def shuffleMsgAt (seconds : Fin 10000) (tableId round : Nat) (shuffler : String)
    (deckSize : Nat) : Msg residueEnv :=
  handMsgAt seconds (.submitShuffle ⟨shuffler, tableId, 1, round,
    reencryptProof tableId round shuffler deckSize⟩)

def encShareMsgAt (seconds : Fin 10000) (tableId : Nat) (validator : String)
    (secret c1 : ZMod 53) (pos : Nat) (pk : ZMod 53) : Msg residueEnv :=
  handMsgAt seconds (.submitEncShare ⟨validator, tableId, 1, pos, residueBytes pk,
    residueBytes 1 ++ residueBytes (secret * c1 + pk),
    residueRelation 0 ++ residueBytes secret ++ residueBytes 1⟩)

/-- `A` and `B` shuffle; `C` misses its turn, and the deck is final. -/
def shufflesRun (deckSize : Nat) : List (Msg residueEnv) :=
  [shuffleMsgAt 10 1 1 "A" deckSize, shuffleMsgAt 20 1 2 "B" deckSize,
    handMsgAt 200 (.timeout ⟨"gm", 1, 1⟩)]

def holeSharesRun : List (Msg residueEnv) :=
  [("A", 22), ("B", 29)].flatMap (fun (member : String × ZMod 53) =>
    [(0, 1), (1, 2), (2, 1), (3, 2)].map fun (slot : Nat × ZMod 53) =>
      encShareMsgAt 210 1 member.1 member.2 3 slot.1 slot.2)

def preflopRun : List (Msg residueEnv) :=
  [.player (.act (blockAt 220) ⟨"P", 1, "call", 0⟩),
    .player (.act (blockAt 220) ⟨"Q", 1, "check", 0⟩)]

end OnChainPoker.Dealer
