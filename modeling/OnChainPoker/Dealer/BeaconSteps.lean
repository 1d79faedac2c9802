import OnChainPoker.Dealer.Beacon
import OnChainPoker.Dealer.Penalties

/-!
# What a message does to the beacon

Penalties leave the beacon alone, so it moves only by its own messages, at the beginning
of a block and when `BeginEpoch` consumes it.  For the rest of the chain a beacon message
is a change of the staking state, and every run with the beacon is a run without it.
-/

namespace OnChainPoker.Dealer

open Foundation Crypto
open Poker (Block)

variable {env : Env} {rand : Randomness env} {params : Params} {block : Block} {epochID : Nat}
  {s s' : State (env.withBeacon rand)} {m : FullMsg env} {c c' : Chain (env.withBeacon rand)}

/-! ## Penalties leave the beacon alone -/

section Penalty

variable {keeper : StakingKeeper} {s s' : keeper.withBeacon.Staking}

section

variable (s : keeper.withBeacon.Staking)

theorem slashFraction_withBeacon (consAddr : keeper.ConsAddr) (slashBps : Nat)
    (power height : Int) :
    slashFraction keeper.withBeacon s consAddr slashBps power height =
      (slashFraction keeper s.1 consAddr slashBps power height).map (·, s.2) := by
  unfold slashFraction
  split <;> rfl

theorem jailOnce_withBeacon (val : Validator keeper.ConsAddr) :
    jailOnce keeper.withBeacon s val = (jailOnce keeper s.1 val).map (·, s.2) := by
  unfold jailOnce
  split
  · rfl
  · dsimp only
    cases keeper.jail s.1 val.consAddr with
    | ok staking => rfl
    | error err =>
      simp only [Except.map]
      split <;> rfl

theorem extendJail_withBeacon (consAddr : keeper.ConsAddr) (blockUnix : Int) (jailSeconds : Nat) :
    extendJail keeper.withBeacon s consAddr blockUnix jailSeconds =
      (extendJail keeper s.1 consAddr blockUnix jailSeconds).map (·, s.2) := by
  unfold extendJail
  split
  · rfl
  · dsimp only
    cases keeper.jailedUntil s.1 consAddr with
    | error err => rfl
    | ok time =>
      dsimp only [bind, Except.bind]
      split <;> rfl

theorem applyPenalty_withBeacon (valoper : String) (height power : Int)
    (slashBps jailSeconds : Nat) (blockUnix : Int) :
    applyPenalty keeper.withBeacon s valoper height power slashBps jailSeconds blockUnix =
      (applyPenalty keeper s.1 valoper height power slashBps jailSeconds blockUnix).map
        (·, s.2) := by
  unfold applyPenalty slashAndJailValidator
  cases keeper.valAddressFromBech32 valoper with
  | error err => rfl
  | ok valAddr =>
    dsimp only [bind, Except.bind, Except.mapError]
    cases keeper.validator s.1 valAddr with
    | error err => rfl
    | ok found =>
      cases found with
      | none => rfl
      | some val =>
        simp only [require, slashFraction_withBeacon]
        cases slashFraction keeper s.1 val.consAddr slashBps power height with
        | error err => rfl
        | ok slashed =>
          have hbonded : onlyBonded keeper.withBeacon (slashed, s.2) valAddr =
            onlyBonded keeper slashed valAddr := rfl
          simp only [Except.map, hbonded, jailOnce_withBeacon]
          cases onlyBonded keeper slashed valAddr with
          | true => rfl
          | false =>
            cases jailOnce keeper slashed val with
            | error err => rfl
            | ok jailed =>
              simp only [Except.map, extendJail_withBeacon, Bool.false_eq_true, if_false]
              cases extendJail keeper jailed val.consAddr blockUnix jailSeconds <;> rfl

end

theorem applyPenalty_beacon {valoper : String} {height power : Int}
    {slashBps jailSeconds : Nat} {blockUnix : Int}
    (hok : applyPenalty keeper.withBeacon s valoper height power slashBps jailSeconds
      blockUnix = .ok s') : s'.2 = s.2 := by
  rw [applyPenalty_withBeacon] at hok
  cases hresult : applyPenalty keeper s.1 valoper height power slashBps jailSeconds
    blockUnix <;> rw [hresult] at hok <;> cases hok
  rfl

theorem penalties_beacon {calls : List PenaltyCall}
    (hok : calls.foldlM (PenaltyCall.apply keeper.withBeacon) s = .ok s') :
    s'.2 = s.2 := by
  induction calls generalizing s with
  | nil =>
    cases hok
    rfl
  | cons call rest ih =>
    rw [List.foldlM_cons, bind_ok_iff] at hok
    obtain ⟨middle, hcall, hrest⟩ := hok
    rw [ih hrest, applyPenalty_beacon hcall]

end Penalty

/-! ## Consuming -/

variable {staking : env.staking.Staking} {bs : BeaconState} {value : Bytes} {u : Unit}
  {validator : String} {msg : BeaconMsg} {balances : env.poker.bank.Balances}
  {log : List (FullMsg env)}

theorem consumeBeacon_ok {s' : env.staking.withBeacon.Staking}
    (hok : consumeBeacon rand params block staking bs = .ok (value, s')) :
    bs.revealCloseHeight < block.height ∧
      ∃ fallback, s'.2 = some { bs with final := value, fallback := fallback } ∧
        (fallback = false → Committee.final rand.sha256 rand.chainId bs.epochId bs.reveals
          bs.threshold = .ok (some value)) := by
  simp only [consumeBeacon, ok_iff, not_le] at hok
  obtain ⟨-, hclosed, penalised, -, result, hfinal, hrest⟩ := hok
  refine ⟨hclosed, ?_⟩
  cases result with
  | some final =>
    cases hrest
    exact ⟨false, rfl, fun _ => hfinal⟩
  | none =>
    simp only [ok_iff] at hrest
    obtain ⟨-, -, hrest⟩ := hrest
    cases hrest
    exact ⟨true, rfl, fun h => by cases h⟩

theorem consumeBeaconForEpoch_ok {s s' : env.staking.withBeacon.Staking}
    (hok : consumeBeaconForEpoch rand params block epochID s = .ok (value, s')) :
    (s' = s ∧ ∀ bs, s.2 = some bs → bs.epochId ≠ epochID) ∨
      ∃ bs, s.2 = some bs ∧ bs.epochId = epochID ∧
        consumeBeacon rand params block s.1 bs = .ok (value, s') := by
  unfold consumeBeaconForEpoch at hok
  split at hok
  · rename_i bs hbs
    obtain ⟨hstored, hepoch⟩ := Option.filter_eq_some_iff.mp hbs
    exact .inr ⟨bs, hstored, by simpa using hepoch, hok⟩
  · rename_i hnone
    simp only [ok_iff, Prod.mk.injEq] at hok
    obtain ⟨-, -, -, rfl⟩ := hok
    refine .inl ⟨rfl, fun bs hbs hepoch => ?_⟩
    rw [hbs] at hnone
    simp [Option.filter, hepoch] at hnone

theorem selectRandEpoch_beacon {supplied : Bytes} {s s' : env.staking.withBeacon.Staking}
    (hok : selectRandEpoch rand s params block epochID supplied = .ok (value, s')) :
    s'.2 = s.2 ∨ ∃ bs fallback, s.2 = some bs ∧ bs.epochId = epochID ∧
      s'.2 = some { bs with final := value, fallback := fallback } := by
  unfold selectRandEpoch at hok
  split at hok
  · rcases consumeBeaconForEpoch_ok hok with ⟨rfl, -⟩ | ⟨bs, hbs, hepoch, hconsumed⟩
    · exact .inl rfl
    · obtain ⟨-, fallback, hs', -⟩ := consumeBeacon_ok hconsumed
      exact .inr ⟨bs, fallback, hbs, hepoch, hs'⟩
  · simp only [ok_iff, Prod.mk.injEq] at hok
    obtain ⟨-, -, -, -, -, rfl⟩ := hok
    exact .inl rfl

theorem beginEpoch_draws {env : Env} {s s' : State env} {req : MsgBeginEpoch}
    (hok : beginEpoch s block req = .ok s') :
    s'.nextEpochId = s.nextEpochId + 1 ∧
      ∃ value, env.selectRandEpoch s.staking s.params block s.nextEpochId req.randEpoch =
        .ok (value, s'.staking) := by
  simp only [beginEpoch, ok_iff] at hok
  obtain ⟨-, -, -, -, -, -, -, -, -, -, -, -, -, hid, next, hnext, ⟨value, staking⟩,
    hdrawn, _, -, -, -, -, -, -, -, -, -, -, -, -, -, -, -, -, -, rfl⟩ := hok
  rw [ne_eq, not_not] at hid
  obtain rfl := Poker.addUint64Checked_ok hnext
  rw [hid] at hdrawn ⊢
  exact ⟨rfl, value, hdrawn⟩

/-! ## Steps -/

def BondedAccount (env : Env) (staking : env.staking.Staking)
    (account : env.staking.ValAddr) : Prop :=
  ∃ bonded, env.staking.bondedValidatorsByPower staking = .ok bonded ∧
    env.staking.valAddrString account ∈ bonded

inductive BeaconStep (s : State (env.withBeacon rand)) (m : FullMsg env)
    (s' : State (env.withBeacon rand)) : Prop
  | same : s'.beacon = s.beacon → s.nextEpochId ≤ s'.nextEpochId → BeaconStep s m s'
  | opened {bs : BeaconState} : s'.beacon = some bs → bs.commits = [] →
      bs.reveals = [] → bs.final = [] → s'.nextEpochId = s.nextEpochId →
      BeaconStep s m s'
  | committed {block : Block} {req : MsgBeaconCommit} {bs : BeaconState}
      {account : env.staking.ValAddr} :
      m = .beacon block (.beaconCommit req) → s.beacon = some bs →
      env.staking.valAddressFromBech32 req.validator = .ok account →
      BondedAccount env s.staking.1 account → req.epochId = bs.epochId →
      bs.commitOpenHeight ≤ block.height → block.height ≤ bs.commitCloseHeight →
      s'.beacon = some { bs with
        commits := sortSlice (fun a b => decide (a.validator < b.validator))
          (bs.commits ++ [⟨req.validator, req.commit⟩]) } →
      s'.nextEpochId = s.nextEpochId → BeaconStep s m s'
  | revealed {block : Block} {req : MsgBeaconReveal} {bs : BeaconState}
      {account : env.staking.ValAddr} {commit : Bytes} :
      m = .beacon block (.beaconReveal req) → s.beacon = some bs →
      req.validator ≠ "" →
      env.staking.valAddressFromBech32 req.validator = .ok account →
      BondedAccount env s.staking.1 account → req.epochId = bs.epochId →
      bs.commitCloseHeight < block.height → block.height ≤ bs.revealCloseHeight →
      ⟨req.validator, commit⟩ ∈ bs.commits →
      req.validator ∉ bs.reveals.map BeaconRevealEntry.validator →
      Committee.commit rand.sha256 req.validator bs.epochId req.salt = .ok commit →
      s'.beacon = some { bs with
        reveals := sortSlice (fun a b => decide (a.validator < b.validator))
          (bs.reveals ++ [⟨req.validator, req.salt⟩]) } →
      s'.nextEpochId = s.nextEpochId → BeaconStep s m s'
  | consumed {bs : BeaconState} {value : Bytes} {fallback : Bool} :
      s.beacon = some bs → bs.epochId = s.nextEpochId →
      s'.beacon = some { bs with final := value, fallback := fallback } →
      s'.nextEpochId = s.nextEpochId + 1 → BeaconStep s m s'

inductive BeaconHandled (s : State (env.withBeacon rand)) (block : Block) :
    BeaconMsg → State (env.withBeacon rand) → Prop
  | idle : BeaconHandled s block .beginBlock s
  | autoOpened {commitClose revealClose : Int} {threshold : Nat} :
      s.beacon.any (·.blocksOpening block.height) = false →
      BeaconHandled s block .beginBlock (s.setBeacon ⟨s.nextEpochId, block.height,
        commitClose, revealClose, threshold, [], [], [], false⟩)
  | opened {req : MsgOpenBeaconWindow} {commitClose revealClose : Int} :
      s.beacon.any (·.blocksOpening block.height) = false →
      BeaconHandled s block (.openBeaconWindow req) (s.setBeacon ⟨req.epochId,
        block.height, commitClose, revealClose, req.threshold, [], [], [], false⟩)
  | committed {req : MsgBeaconCommit} {bs : BeaconState}
      {account : env.staking.ValAddr} : s.beacon = some bs →
      env.staking.valAddressFromBech32 req.validator = .ok account →
      BondedAccount env s.staking.1 account → req.epochId = bs.epochId →
      bs.commitOpenHeight ≤ block.height → block.height ≤ bs.commitCloseHeight →
      BeaconHandled s block (.beaconCommit req) (s.setBeacon { bs with
        commits := sortSlice (fun a b => decide (a.validator < b.validator))
          (bs.commits ++ [⟨req.validator, req.commit⟩]) })
  | revealed {req : MsgBeaconReveal} {bs : BeaconState}
      {account : env.staking.ValAddr} {row : BeaconCommitEntry} : s.beacon = some bs →
      req.validator ≠ "" →
      env.staking.valAddressFromBech32 req.validator = .ok account →
      BondedAccount env s.staking.1 account → req.epochId = bs.epochId →
      bs.commitCloseHeight < block.height → block.height ≤ bs.revealCloseHeight →
      bs.commits.find? (·.validator = req.validator) = some row →
      req.validator ∉ bs.reveals.map BeaconRevealEntry.validator →
      Committee.commit rand.sha256 req.validator bs.epochId req.salt = .ok row.commit →
      BeaconHandled s block (.beaconReveal req) (s.setBeacon { bs with
        reveals := sortSlice (fun a b => decide (a.validator < b.validator))
          (bs.reveals ++ [⟨req.validator, req.salt⟩]) })

theorem requireActiveBondedCaller_ok {account : env.staking.ValAddr}
    (hok : requireActiveBondedCaller s (rand.accAddrString account) = .ok u) :
    BondedAccount env s.staking.1 account := by
  simp only [requireActiveBondedCaller, ok_iff, not_not] at hok
  obtain ⟨acc, hacc, bonded, hbonded, hmem⟩ := hok
  rw [rand.valoper_accAddr account acc hacc] at hmem
  exact ⟨bonded, hbonded, hmem⟩

theorem beaconValidator_ok {wellFormed : Except Err Unit}
    (hok : beaconValidator s validator wellFormed = .ok u) :
    validator ≠ "" ∧ ∃ account, env.staking.valAddressFromBech32 validator = .ok account ∧
      BondedAccount env s.staking.1 account := by
  simp only [beaconValidator, ok_iff] at hok
  obtain ⟨-, hnamed, account, haccount, -, -, hbonded⟩ := hok
  exact ⟨hnamed, account, haccount, requireActiveBondedCaller_ok hbonded⟩

theorem loadBeacon_ok {epochId : Nat} (hok : s.loadBeacon epochId = .ok bs) :
    s.beacon = some bs ∧ epochId = bs.epochId := by
  simp only [State.loadBeacon, ok_iff, ne_eq, not_not] at hok
  obtain ⟨stored, hstored, -, hepoch, rfl⟩ := hok
  exact ⟨hstored, hepoch⟩

theorem openBeacon_ok {commitBlocks revealBlocks threshold : Nat}
    (hok : openBeacon s block epochID commitBlocks revealBlocks threshold = .ok s') :
    s.beacon.any (·.blocksOpening block.height) = false ∧ ∃ commitClose revealClose,
      s' = s.setBeacon ⟨epochID, block.height, commitClose, revealClose, threshold,
        [], [], [], false⟩ := by
  simp only [openBeacon, ok_iff, Bool.not_eq_true] at hok
  obtain ⟨-, -, -, hfree, _, -, _, -, -, -, commitClose, -, revealClose, -, rfl⟩ := hok
  exact ⟨hfree, commitClose, revealClose, rfl⟩

theorem committee_reveal_ok {sha256 : Bytes → Bytes} {salt stored : Bytes}
    (hok : Committee.reveal sha256 validator epochID salt stored = .ok u) :
    Committee.commit sha256 validator epochID salt = .ok stored := by
  simp only [Committee.reveal, ok_iff, ne_eq, not_not] at hok
  obtain ⟨-, -, recomputed, hcommit, rfl⟩ := hok
  exact hcommit

theorem handleBeacon_handled (hok : handleBeacon s block msg = .ok s') :
    BeaconHandled s block msg s' := by
  cases msg with
  | openBeaconWindow req =>
    simp only [handleBeacon, openBeaconWindow, ok_iff] at hok
    obtain ⟨-, -, -, -, hopen⟩ := hok
    obtain ⟨hfree, commitClose, revealClose, rfl⟩ := openBeacon_ok hopen
    exact .opened hfree
  | beaconCommit req =>
    simp only [handleBeacon, beaconCommit, ok_iff, not_lt, gt_iff_lt] at hok
    obtain ⟨_, hvalidator, bs, hload, -, hopen, -, hclose, -, -, rfl⟩ := hok
    obtain ⟨-, account, haccount, hbonded⟩ := beaconValidator_ok hvalidator
    obtain ⟨hstored, hepoch⟩ := loadBeacon_ok hload
    exact .committed hstored haccount hbonded hepoch hopen hclose
  | beaconReveal req =>
    simp only [handleBeacon, beaconReveal, ok_iff, not_lt, not_le, gt_iff_lt] at hok
    obtain ⟨_, hvalidator, bs, hload, -, hopen, -, hclose, row, hrow, -, hfresh, _,
      hreveal, rfl⟩ := hok
    obtain ⟨hnamed, account, haccount, hbonded⟩ := beaconValidator_ok hvalidator
    obtain ⟨hstored, hepoch⟩ := loadBeacon_ok hload
    have hcommit := committee_reveal_ok hreveal
    rw [hepoch] at hcommit
    exact .revealed hstored hnamed haccount hbonded hepoch hopen hclose hrow hfresh hcommit
  | beginBlock =>
    simp only [handleBeacon, pure_ok_iff, maybeAutoOpenBeacon] at hok
    split at hok
    · subst hok
      exact .idle
    · split at hok
      · rename_i hopen
        subst hok
        obtain ⟨hfree, commitClose, revealClose, rfl⟩ := openBeacon_ok hopen
        exact .autoOpened hfree
      · subst hok
        exact .idle

theorem BeaconHandled.step (hhandled : BeaconHandled s block msg s') :
    BeaconStep s (.beacon block msg) s' := by
  cases hhandled with
  | idle => exact .same rfl le_rfl
  | autoOpened _ | opened _ => exact .opened rfl rfl rfl rfl rfl
  | committed hbs haccount hbonded hepoch hopen hclose =>
    exact .committed rfl hbs haccount hbonded hepoch hopen hclose rfl rfl
  | @revealed req bs account row hbs hnamed haccount hbonded hepoch hopen hclose hrow
      hfresh hcommit =>
      have hname : row.validator = req.validator := by simpa using List.find?_some hrow
      have hmem : ⟨req.validator, row.commit⟩ ∈ bs.commits := by
        rw [← hname]
        exact List.mem_of_find?_eq_some hrow
      exact .revealed rfl hbs hnamed haccount hbonded hepoch hopen hclose hmem hfresh
        hcommit rfl rfl

theorem BeaconHandled.frame (hhandled : BeaconHandled s block msg s') :
    s' = { s with staking := s'.staking } := by
  cases hhandled <;> rfl

theorem handle_beacon (msg : Msg (env.withBeacon rand)) (hsound : DealerSound c.dealer)
    (hmsg : ∀ staking, msg ≠ .otherStaking staking)
    (hbegin : ∀ block req, msg ≠ .dkg block (.beginEpoch req)) (hok : handle c msg = .ok c') :
    c'.dealer.beacon = c.dealer.beacon ∧ c.dealer.nextEpochId ≤ c'.dealer.nextEpochId := by
  obtain ⟨calls, ⟨-, hmade⟩, hstep⟩ := handle_calls hsound hok
  refine ⟨?_, hstep.next⟩
  rw [hok] at hmade
  split at hmade
  · exact absurd rfl (hmsg _)
  · exact absurd rfl (hbegin _ _)
  · rename_i herror
    cases herror
  · rename_i hdone
    cases hdone
    exact penalties_beacon hmade

theorem handleFull_other (hsound : DealerSound c.dealer) (hok : handleFull c m = .ok c')
    (hother : ∀ block msg, m ≠ .beacon block msg) :
    (c'.dealer.beacon = c.dealer.beacon ∧ c.dealer.nextEpochId ≤ c'.dealer.nextEpochId) ∨
    (∃ block req, m = .dkg block (.beginEpoch req)) ∧ ∃ bs value fallback,
      c.dealer.beacon = some bs ∧ bs.epochId = c.dealer.nextEpochId ∧
      c'.dealer.beacon = some { bs with final := value, fallback := fallback } ∧
      c'.dealer.nextEpochId = c.dealer.nextEpochId + 1 := by
  cases m with
  | player msg => exact .inl (handle_beacon (.player msg) hsound (by simp) (by simp) hok)
  | dkg block msg =>
    by_cases hbegins : ∃ req, msg = .beginEpoch req
    · obtain ⟨req, rfl⟩ := hbegins
      simp only [handleFull, handle, handleDkg, ok_iff] at hok
      obtain ⟨dealer, hdealer, rfl⟩ := hok
      obtain ⟨hnext, value, hdrawn⟩ := beginEpoch_draws hdealer
      rcases selectRandEpoch_beacon hdrawn with hsame | ⟨bs, fallback, hbs, hid, hbs'⟩
      · exact .inl ⟨hsame, hnext ▸ Nat.le_succ _⟩
      · exact .inr ⟨⟨block, req, rfl⟩, bs, value, fallback, hbs, hid, hbs', hnext⟩
    · push Not at hbegins
      exact .inl (handle_beacon (.dkg block msg) hsound (by simp)
        (fun _ req h => by cases h; exact hbegins req rfl) hok)
  | hand block msg => exact .inl (handle_beacon (.hand block msg) hsound (by simp) (by simp) hok)
  | beacon block msg => exact absurd rfl (hother block msg)
  | otherStaking staking =>
    simp only [handleFull, handle, pure_ok_iff] at hok
    subst hok
    exact .inl ⟨rfl, le_rfl⟩

theorem handleFull_step (hsound : DealerSound c.dealer) (hok : handleFull c m = .ok c') :
    BeaconStep c.dealer m c'.dealer := by
  by_cases hbeacon : ∃ block msg, m = .beacon block msg
  · obtain ⟨block, msg, rfl⟩ := hbeacon
    simp only [handleFull, ok_iff] at hok
    obtain ⟨dealer, hdealer, rfl⟩ := hok
    exact (handleBeacon_handled hdealer).step
  · push Not at hbeacon
    rcases handleFull_other hsound hok hbeacon with
      ⟨hsame, hnext⟩ | ⟨-, bs, value, fallback, hbs, hid, hbs', hnext⟩
    · exact .same hsame hnext
    · exact .consumed hbs hid hbs' hnext

theorem BeaconStep.next_le (hstep : BeaconStep s m s') : s.nextEpochId ≤ s'.nextEpochId := by
  cases hstep with
  | same _ hnext => exact hnext
  | opened _ _ _ _ hnext
  | committed _ _ _ _ _ _ _ _ hnext
  | revealed _ _ _ _ _ _ _ _ _ _ _ _ hnext => exact hnext.ge
  | consumed _ _ _ hnext => exact hnext ▸ Nat.le_succ _

/-! ## Runs with the beacon are runs without it -/

theorem handleFull_core (hok : handleFull c m = .ok c') : ∃ msg, handle c msg = .ok c' := by
  cases m with
  | player msg => exact ⟨.player msg, hok⟩
  | dkg block msg => exact ⟨.dkg block msg, hok⟩
  | hand block msg => exact ⟨.hand block msg, hok⟩
  | beacon block msg =>
    simp only [handleFull, ok_iff] at hok
    obtain ⟨dealer, hdealer, rfl⟩ := hok
    refine ⟨.otherStaking dealer.staking, ?_⟩
    rw [(handleBeacon_handled hdealer).frame]
    rfl
  | otherStaking staking => exact ⟨.otherStaking (staking, c.dealer.beacon), hok⟩

theorem reachable_core
    (hreach : Reaches handleFull (fullGenesis rand balances staking params) log c) :
    ∃ log', Reaches handle (fullGenesis rand balances staking params) log' c := by
  induction hreach with
  | refl => exact ⟨[], .refl⟩
  | step _ hok ih =>
    obtain ⟨log', hlog'⟩ := ih
    obtain ⟨msg, hmsg⟩ := handleFull_core hok
    exact ⟨msg :: log', hlog'.step hmsg⟩

theorem reachable_fullSound
    (hreach : Reaches handleFull (fullGenesis rand balances staking params) log c) :
    DealerSound c.dealer := by
  obtain ⟨log', hlog'⟩ := reachable_core hreach
  exact reachable_dealerSound (reachable_of_reaches hlog')

theorem reaches_nextEpochId (hsound : DealerSound c.dealer) (hreach : Reaches handleFull c log c') :
    DealerSound c'.dealer ∧ c.dealer.nextEpochId ≤ c'.dealer.nextEpochId := by
  induction hreach with
  | refl => exact ⟨hsound, le_rfl⟩
  | step _ hok ih =>
    obtain ⟨msg, hmsg⟩ := handleFull_core hok
    exact ⟨handle_sound ih.1 hmsg, ih.2.trans (handleFull_step ih.1 hok).next_le⟩

end OnChainPoker.Dealer
