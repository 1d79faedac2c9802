import OnChainPoker.Dealer.BeaconPenalties

/-!
# The daemon's part in the beacon

`maybeBeaconParticipate` of the dealer daemon (`handlers/beacon.ts`) runs in every poll.
It takes the epoch after the last stored one for the epoch of the beacon, derives its
salt from its passphrase, and sends a commit and the reveal.  The chain numbers its
windows by the next epoch to begin, which runs ahead of the stored epoch when a DKG is
aborted.
-/

namespace OnChainPoker.Dealer

open Foundation Crypto
open Poker (Block maxUint64)

/-! ## The handler -/

structure Hmac where
  mac : (key text : Bytes) → Bytes
  mac_length : ∀ key text, (mac key text).length = 32

/-- What the handler reads of the configuration; `loadConfig` asks for an address. -/
structure BeaconConfig where
  validatorAddress : String
  statePassphrase : String
  address_ne : validatorAddress ≠ ""

namespace BeaconDaemon

/-- `writeBigUInt64LE` throws on numbers that do not fit. -/
def u64LE (n : Nat) : Except String Bytes := do
  rejectIf (n > maxUint64) "The value of \"value\" is out of range."
  pure (leBytes 8 n)

def u32LE (n : Nat) : Bytes := leBytes 4 n

def lengthPrefixed (parts : List Bytes) : Bytes :=
  (parts.foldl (fun chunks p => chunks ++ [u32LE p.length, p]) []).flatten

def hashDomain (sha256 : Bytes → Bytes) (domain : String) (parts : List Bytes) : Bytes :=
  sha256 (stringBytes domain ++ lengthPrefixed parts)

def computeCommit (sha256 : Bytes → Bytes) (validator : String) (epochId : Nat)
    (salt : Bytes) : Except String Bytes := do
  let epoch ← u64LE epochId
  pure (hashDomain sha256 "ocp/v1/beacon/commit" [stringBytes validator, epoch, salt])

def deriveSalt (hmac : Hmac) (passphrase validator : String) (epochId : Nat) :
    Except String Bytes := do
  let epoch ← u64LE epochId
  pure (hmac.mac (stringBytes passphrase)
    (stringBytes "ocp/v1/beacon/salt/v1" ++ stringBytes validator ++ epoch))

def targetEpoch (epoch : Option DealerEpoch) : Nat :=
  (epoch.map DealerEpoch.epochId).getD 0 + 1

def maybeBeaconParticipate (sha256 : Bytes → Bytes) (hmac : Hmac) (config : BeaconConfig)
    (epoch : Option DealerEpoch) : Except String (MsgBeaconCommit × MsgBeaconReveal) := do
  let target := targetEpoch epoch
  let salt ← deriveSalt hmac config.statePassphrase config.validatorAddress target
  let commit ← computeCommit sha256 config.validatorAddress target salt
  pure (⟨config.validatorAddress, target, commit⟩, ⟨config.validatorAddress, target, salt⟩)

/-! ## Both sides compute the same commit -/

variable {validator : String} {epochId : Nat} {salt : Bytes} {hmac : Hmac}
  {epoch : Option DealerEpoch}

theorem computeCommit_ok {sha256 : Bytes → Bytes} {commit : Bytes}
    (hvalidator : validator ≠ "") (hsalt : salt.length = Committee.beaconSaltBytes)
    (hok : computeCommit sha256 validator epochId salt = .ok commit) :
    Committee.commit sha256 validator epochId salt = .ok commit := by
  simp only [computeCommit, u64LE, ok_iff] at hok
  obtain ⟨epoch, ⟨-, -, rfl⟩, rfl⟩ := hok
  simp only [Committee.commit, ok_iff]
  exact ⟨(), hvalidator, (), not_not.mpr hsalt, rfl⟩

theorem deriveSalt_length {passphrase : String}
    (hok : deriveSalt hmac passphrase validator epochId = .ok salt) :
    salt.length = Committee.beaconSaltBytes := by
  simp only [deriveSalt, ok_iff] at hok
  obtain ⟨epoch, -, rfl⟩ := hok
  exact hmac.mac_length _ _

/-- The messages of one poll belong together: the chain recomputes the commit from the
salt, byte for byte. -/
structure Participates (sha256 : Bytes → Bytes) (hmac : Hmac) (config : BeaconConfig)
    (target : Nat) (commit : MsgBeaconCommit) (reveal : MsgBeaconReveal) : Prop where
  commitValidator : commit.validator = config.validatorAddress
  commitEpoch : commit.epochId = target
  revealValidator : reveal.validator = config.validatorAddress
  revealEpoch : reveal.epochId = target
  salt : deriveSalt hmac config.statePassphrase config.validatorAddress target =
    .ok reveal.salt
  length : commit.commit.length = Committee.beaconCommitBytes
  opens : Committee.reveal sha256 config.validatorAddress target reveal.salt
    commit.commit = .ok ()

theorem maybeBeaconParticipate_ok {env : Env} {rand : Randomness env}
    {config : BeaconConfig} {commit : MsgBeaconCommit} {reveal : MsgBeaconReveal}
    (hok : maybeBeaconParticipate rand.sha256 hmac config epoch = .ok (commit, reveal)) :
    Participates rand.sha256 hmac config (targetEpoch epoch) commit reveal := by
  simp only [maybeBeaconParticipate, ok_iff, Prod.mk.injEq] at hok
  obtain ⟨salt, hsalt, bytes, hcommit, rfl, rfl⟩ := hok
  have hchain := computeCommit_ok config.address_ne (deriveSalt_length hsalt) hcommit
  have hlength : bytes.length = Committee.beaconCommitBytes := by
    simp only [computeCommit, ok_iff] at hcommit
    obtain ⟨_, -, rfl⟩ := hcommit
    exact rand.sha256_length _
  refine ⟨rfl, rfl, rfl, rfl, hsalt, hlength, ?_⟩
  simp only [Committee.reveal, ok_iff]
  exact ⟨(), not_not.mpr hlength, bytes, hchain, not_not.mpr rfl⟩

theorem maybeBeaconParticipate_isOk (sha256 : Bytes → Bytes) (hmac : Hmac)
    (config : BeaconConfig) (hfits : targetEpoch epoch ≤ maxUint64) :
    ∃ commit reveal, maybeBeaconParticipate sha256 hmac config epoch = .ok (commit, reveal) := by
  have hbytes : u64LE (targetEpoch epoch) = .ok (leBytes 8 (targetEpoch epoch)) := by
    rw [u64LE, rejectIf_of_not (not_lt.mpr hfits)]
    rfl
  simp only [maybeBeaconParticipate, deriveSalt, computeCommit, hbytes, ok_bind]
  exact ⟨_, _, rfl⟩

end BeaconDaemon

variable {env : Env} {rand : Randomness env}

/-! ## Epoch numbers fit -/

variable {block : Block} {balances : env.poker.bank.Balances} {staking : env.staking.Staking}
  {params : Params} {log : List (FullMsg env)} {c : Chain (env.withBeacon rand)}
  {s : State (env.withBeacon rand)} {account : env.staking.ValAddr}

theorem beginEpoch_next_le {s s' : State env} {req : MsgBeginEpoch}
    (hok : beginEpoch s block req = .ok s') : s'.nextEpochId ≤ maxUint64 := by
  simp only [beginEpoch, ok_iff] at hok
  obtain ⟨-, -, -, -, -, -, -, -, -, -, -, -, -, -, next, hnext, _, -, _, -, -,
    -, -, -, -, -, -, -, -, -, -, -, -, -, -, -, rfl⟩ := hok
  exact Poker.addUint64Checked_le hnext (by decide)

theorem handle_next_le {c c' : Chain env} {msg : Msg env} (hsound : DealerSound c.dealer)
    (hle : c.dealer.nextEpochId ≤ maxUint64) (hok : handle c msg = .ok c') :
    c'.dealer.nextEpochId ≤ maxUint64 := by
  rcases handle_dkg_or_same hok with ⟨_, msg, _, rfl, hdealer, rfl⟩ | ⟨_, hsame⟩
  · by_cases hbegins : ∃ req, msg = .beginEpoch req
    · obtain ⟨req, rfl⟩ := hbegins
      exact beginEpoch_next_le hdealer
    · push Not at hbegins
      obtain ⟨calls, hcalls⟩ := handleDkg_calls
        (fun d hd => (hsound.record d hd).slashed) hbegins hdealer
      cases hcalls with
      | moved _ _ _ | aborted _ _ | finalised _ _ _ => exact hle
  · exact hsame.nextEpochId ▸ hle

theorem reachable_next_le
    (hreach : Reaches handleFull (fullGenesis rand balances staking params) log c) :
    c.dealer.nextEpochId ≤ maxUint64 := by
  induction hreach with
  | refl => exact (by decide : 1 ≤ maxUint64)
  | step hbefore hok ih =>
    obtain ⟨msg, hmsg⟩ := handleFull_core hok
    exact handle_next_le (reachable_fullSound hbefore) ih hmsg

open BeaconDaemon in
theorem reachable_target_le
    (hreach : Reaches handleFull (fullGenesis rand balances staking params) log c) :
    targetEpoch c.dealer.epoch ≤ maxUint64 := by
  have hnext := reachable_next_le hreach
  cases he : c.dealer.epoch with
  | none => exact (by decide : 0 + 1 ≤ maxUint64)
  | some e =>
    have hlt := (reachable_fullSound hreach).epoch_lt e he
    show e.epochId + 1 ≤ maxUint64
    omega

/-! ## The commit window -/

def AccountsDecode (rand : Randomness env) : Prop :=
  ∀ valAddr, (env.poker.accAddressFromBech32 (rand.accAddrString valAddr)).isSome = true

theorem requireActiveBondedCaller_of_bonded (hdecode : AccountsDecode rand)
    (hbonded : BondedAccount env s.staking.1 account) :
    requireActiveBondedCaller s (rand.accAddrString account) = .ok () := by
  obtain ⟨acc, hacc⟩ := Option.isSome_iff_exists.mp (hdecode account)
  obtain ⟨bonded, hlist, hmem⟩ := hbonded
  have hvaloper := rand.valoper_accAddr account acc hacc
  simp only [requireActiveBondedCaller, ok_iff, not_not]
  refine ⟨acc, hacc, bonded, hlist, ?_⟩
  rw [hvaloper]
  exact hmem

theorem beaconCommit_isOk_iff {req : MsgBeaconCommit} {bs : BeaconState}
    (hdecode : AccountsDecode rand) (hbs : s.beacon = some bs)
    (hopen : bs.commitOpenHeight ≤ block.height)
    (hclose : block.height ≤ bs.commitCloseHeight) (hnamed : req.validator ≠ "")
    (haccount : env.staking.valAddressFromBech32 req.validator = .ok account)
    (hbonded : BondedAccount env s.staking.1 account)
    (hlength : req.commit.length = Committee.beaconCommitBytes)
    (hnew : req.validator ∉ bs.commits.map BeaconCommitEntry.validator) :
    (beaconCommit s block req).isOk = true ↔ req.epochId = bs.epochId := by
  rw [isOk_iff]
  constructor
  · rintro ⟨s', hok⟩
    simp only [beaconCommit, ok_iff] at hok
    obtain ⟨-, -, stored, hload, -⟩ := hok
    obtain ⟨hstored, hid⟩ := loadBeacon_ok hload
    cases hbs.symm.trans hstored
    exact hid
  · intro hid
    have hvalidator : beaconValidator s req.validator
        (rejectIf (req.commit.length ≠ Committee.beaconCommitBytes)
          (invalidRequest s!"commit must be {Committee.beaconCommitBytes} bytes")) =
        .ok () := by
      simp only [beaconValidator, ok_iff]
      exact ⟨(), hnamed, account, haccount, (), not_not.mpr hlength,
        requireActiveBondedCaller_of_bonded hdecode hbonded⟩
    have hload : s.loadBeacon req.epochId = .ok bs := by
      simp only [State.loadBeacon, ok_iff]
      exact ⟨bs, hbs, (), not_not.mpr hid, rfl⟩
    refine ⟨s.setBeacon { bs with
      commits := sortSlice (fun a b => decide (a.validator < b.validator))
        (bs.commits ++ [⟨req.validator, req.commit⟩]) }, ?_⟩
    simp only [beaconCommit, hvalidator, hload, ok_bind, ok_iff]
    exact ⟨(), not_lt.mpr hopen, (), not_lt.mpr hclose, (), hnew, trivial⟩

theorem autoOpened_epoch (hopens : OpensWindow c (.beacon block .beginBlock)) :
    ∃ bs, (maybeAutoOpenBeacon c.dealer block).beacon = some bs ∧
      bs.epochId = c.dealer.nextEpochId := by
  obtain ⟨s', hauto⟩ : ∃ s', maybeAutoOpenBeacon c.dealer block = s' := ⟨_, rfl⟩
  have hok : handleBeacon c.dealer block .beginBlock = .ok s' := congrArg Except.ok hauto
  simp only [OpensWindow, hauto] at hopens ⊢
  cases handleBeacon_handled hok with
  | idle => exact absurd rfl hopens
  | autoOpened _ => exact ⟨_, rfl, rfl⟩

open BeaconDaemon in
/-- After every run and in every commit window, the daemon of a bonded validator that has
not committed yet sends a commit that its salt opens; the chain accepts it exactly if the
window is for the epoch after the stored one.  The windows that open by themselves are
for the next epoch to begin. -/
theorem daemon_commit_accepted_iff (env : Env) (rand : Randomness env) (hmac : Hmac)
    (config : BeaconConfig) (balances : env.poker.bank.Balances)
    (staking : env.staking.Staking) (params : Params) (messages : List (FullMsg env))
    (block : Block) {bs : BeaconState} {account : env.staking.ValAddr}
    (hdecode : AccountsDecode rand)
    (hbs : (run handleFull (fullGenesis rand balances staking params)
      messages).dealer.beacon = some bs)
    (hopen : bs.commitOpenHeight ≤ block.height)
    (hclose : block.height ≤ bs.commitCloseHeight)
    (haccount : env.staking.valAddressFromBech32 config.validatorAddress = .ok account)
    (hbonded : BondedAccount env (run handleFull
      (fullGenesis rand balances staking params) messages).dealer.staking.1 account)
    (hnew : config.validatorAddress ∉ bs.commits.map BeaconCommitEntry.validator) :
    let c := run handleFull (fullGenesis rand balances staking params) messages
    (∃ commit reveal,
      maybeBeaconParticipate rand.sha256 hmac config c.dealer.epoch =
        .ok (commit, reveal) ∧
      Participates rand.sha256 hmac config (targetEpoch c.dealer.epoch) commit reveal ∧
      ((handleFull c (.beacon block (.beaconCommit commit))).isOk = true ↔
        bs.epochId = targetEpoch c.dealer.epoch)) ∧
    ∀ next, OpensWindow c (.beacon next .beginBlock) →
      ∃ opened, (maybeAutoOpenBeacon c.dealer next).beacon = some opened ∧
        opened.epochId = c.dealer.nextEpochId := by
  intro c
  have hreach : Reaches handleFull (fullGenesis rand balances staking params) _ c :=
    reaches_run messages
  refine ⟨?_, fun next hopens => autoOpened_epoch hopens⟩
  obtain ⟨commit, reveal, hsent⟩ := maybeBeaconParticipate_isOk rand.sha256 hmac config
    (reachable_target_le hreach)
  have hparts := maybeBeaconParticipate_ok hsent
  refine ⟨commit, reveal, hsent, hparts, ?_⟩
  have haccepted : (handleFull c (.beacon block (.beaconCommit commit))).isOk = true ↔
      (beaconCommit c.dealer block commit).isOk = true := by
    simp only [isOk_iff, handleFull, handleBeacon, ok_iff]
    constructor
    · rintro ⟨c', dealer, hdealer, -⟩
      exact ⟨dealer, hdealer⟩
    · rintro ⟨dealer, hdealer⟩
      exact ⟨_, dealer, hdealer, rfl⟩
  have hiff := beaconCommit_isOk_iff hdecode hbs hopen hclose
    (hparts.commitValidator ▸ config.address_ne)
    (hparts.commitValidator ▸ haccount) hbonded hparts.length
    (hparts.commitValidator ▸ hnew)
  rw [haccepted, hiff, hparts.commitEpoch]
  exact eq_comm

def tailHmac : Hmac where
  mac := fun _ text => (text.reverse ++ List.replicate 32 0).take 32
  mac_length := fun _ text => by simp

def thirdConfig : BeaconConfig := ⟨"ocp1ccc", "passphrase", by decide⟩

def beginBlockAt (height : Int) : FullMsg threeEnv := .beacon (threeBlock height) .beginBlock

/-- The first window has two salts and is consumed, nobody commits to a polynomial, and
the DKG is aborted. -/
def abortedDkgRun : List (FullMsg threeEnv) :=
  [beginBlockAt 1,
    .beacon (threeBlock 2) (.beaconCommit ⟨"ocp1aaa", 1, List.replicate 32 1⟩),
    .beacon (threeBlock 2) (.beaconCommit ⟨"ocp1bbb", 1, List.replicate 32 2⟩),
    .beacon (threeBlock 52) (.beaconReveal ⟨"ocp1aaa", 1, List.replicate 32 1⟩),
    .beacon (threeBlock 52) (.beaconReveal ⟨"ocp1bbb", 1, List.replicate 32 2⟩),
    .dkg (threeBlock 102) (.beginEpoch ⟨"ocp1aaa", 1, 3, 2, [], 1, 1, 1, 1⟩),
    .dkg (threeBlock 104) (.dkgTimeout ⟨"ocp1aaa", 1⟩)]

theorem firstWindow_accepts_daemon :
    ∃ commit reveal,
      BeaconDaemon.maybeBeaconParticipate threeRandomness.sha256 tailHmac thirdConfig
        (run handleFull threeGenesis [beginBlockAt 1]).dealer.epoch =
          .ok (commit, reveal) ∧
      (handleFull (run handleFull threeGenesis [beginBlockAt 1])
        (.beacon (threeBlock 2) (.beaconCommit commit))).isOk = true := by
  have hbs : (run handleFull threeGenesis [beginBlockAt 1]).dealer.beacon =
      some ⟨1, 1, 51, 101, 2, [], [], [], false⟩ := by
    decide +kernel
  have hepoch : (run handleFull threeGenesis [beginBlockAt 1]).dealer.epoch = none := by
    decide +kernel
  have haccount : threeEnv.staking.valAddressFromBech32 thirdConfig.validatorAddress =
      .ok "ocp1ccc" := rfl
  have hbonded : BondedAccount threeEnv () "ocp1ccc" :=
    ⟨["ocp1aaa", "ocp1bbb", "ocp1ccc"], rfl, by decide +kernel⟩
  obtain ⟨⟨commit, reveal, hsent, -, hiff⟩, -⟩ := daemon_commit_accepted_iff threeEnv
    threeRandomness tailHmac thirdConfig (0 : Nat) () residueParams [beginBlockAt 1]
    (threeBlock 2) (fun _ => rfl) hbs (by decide) (by decide) haccount hbonded (by simp)
  refine ⟨commit, reveal, hsent, hiff.mpr ?_⟩
  exact (congrArg BeaconDaemon.targetEpoch hepoch).symm

theorem abortedDkgRun_rejects_daemon :
    OpensWindow (run handleFull threeGenesis abortedDkgRun) (beginBlockAt 105) ∧
      (run handleFull threeGenesis
        (abortedDkgRun ++ [beginBlockAt 105])).dealer.beacon =
          some ⟨2, 105, 155, 205, 2, [], [], [], false⟩ ∧
      (run handleFull threeGenesis
        (abortedDkgRun ++ [beginBlockAt 105])).dealer.epoch = none ∧
      ∀ commit reveal,
        BeaconDaemon.maybeBeaconParticipate threeRandomness.sha256 tailHmac thirdConfig
          none = .ok (commit, reveal) →
        (handleFull (run handleFull threeGenesis (abortedDkgRun ++ [beginBlockAt 105]))
          (.beacon (threeBlock 106) (.beaconCommit commit))).isOk = false := by
  have hbs : (run handleFull threeGenesis (abortedDkgRun ++ [beginBlockAt 105])).dealer.beacon =
      some ⟨2, 105, 155, 205, 2, [], [], [], false⟩ := by
    decide +kernel
  refine ⟨by decide +kernel, hbs, by decide +kernel, fun commit reveal hsent => ?_⟩
  have hparts := BeaconDaemon.maybeBeaconParticipate_ok hsent
  cases hresult : handleFull
      (run handleFull threeGenesis (abortedDkgRun ++ [beginBlockAt 105]))
      (.beacon (threeBlock 106) (.beaconCommit commit)) with
  | error err => rfl
  | ok c' =>
    simp only [handleFull, ok_iff] at hresult
    obtain ⟨_, hcommit, -⟩ := hresult
    cases handleBeacon_handled hcommit with
    | committed hstored _ _ hid _ _ =>
      cases hbs.symm.trans hstored
      exact absurd (hparts.commitEpoch.symm.trans hid) (by decide)

end OnChainPoker.Dealer
