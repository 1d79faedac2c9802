import OnChainPoker.Dealer.Alike
import OnChainPoker.Dealer.BeaconAccounts
import OnChainPoker.Poker.Genesis

/-!
# Genesis of x/dealer, and restarting the chain

`ExportGenesis` of x/dealer writes the parameters, the next epoch number, the epoch and
the DKG record.  Dealer hands and the beacon have keys of their own that it does not
visit, so a chain restarted from its export has neither; x/poker leaves out the heights
at which hands ended.

Where none of this is in use any more the restarted chain is bisimilar to the old one.
-/

namespace OnChainPoker.Dealer

open Foundation Crypto
open Poker (HandOver CooledDown NumberedFromOne)

/-! ## Export and import -/

def maxBps : Nat := 10000

def maxJailSeconds : Nat := 365 * 24 * 60 * 60

def dkgVersionV2 : Nat := 2

def Params.validate (p : Params) : Except String Unit := do
  rejectIf (p.slashBpsDkg > maxBps) s!"slash_bps_dkg must be <= {maxBps}"
  rejectIf (p.slashBpsHandDealer > maxBps) s!"slash_bps_hand_dealer must be <= {maxBps}"
  rejectIf (p.jailSecondsDkg > maxJailSeconds)
    s!"jail_seconds_dkg too large: {p.jailSecondsDkg} > {maxJailSeconds}"
  rejectIf (p.jailSecondsHandDealer > maxJailSeconds)
    s!"jail_seconds_hand_dealer too large: {p.jailSecondsHandDealer} > {maxJailSeconds}"
  rejectIf (p.dkgVersion > dkgVersionV2)
    s!"dkg_version must be 0 (legacy default), 1, or 2; got {p.dkgVersion}"

structure GenesisState where
  nextEpochId : Nat
  epoch : Option DealerEpoch
  dkg : Option DealerDKG
  params : Params

section Model

variable {env : Env}

def State.exportGenesis (s : State env) : GenesisState :=
  ⟨s.nextEpochId, s.epoch, s.dkg, s.params⟩

def validateGenesis (gs : GenesisState) : Except String Unit := do
  gs.params.validate.mapError ("invalid params: " ++ ·)
  rejectIf (gs.nextEpochId = 0) "next_epoch_id must be > 0"
  rejectIf (gs.epoch.any (·.epochId = 0)) "epoch_id must be > 0"
  rejectIf (gs.dkg.any (·.epochId = 0)) "dkg epoch_id must be > 0"
  rejectIf (gs.dkg.any fun dkg => dkg.epochId ≥ gs.nextEpochId)
    s!"dkg epoch_id {(gs.dkg.map DealerDKG.epochId).getD 0} >= next_epoch_id {gs.nextEpochId}"

/-- `InitGenesis` into an empty store, over the state of the staking module. -/
def initGenesis (env : Env) (staking : env.staking.Staking) (gs : GenesisState) :
    Except String (State env) := do
  validateGenesis gs
  pure ⟨staking, gs.params, gs.nextEpochId, gs.epoch, gs.dkg, ∅⟩

/-- Export both modules and import them into empty stores.  The beacon is in the store of
x/dealer; the bank and the staking module keep their own state. -/
def Chain.restart {rand : Randomness env} (c : Chain (env.withBeacon rand)) :
    Except String (Chain (env.withBeacon rand)) := do
  let poker ← Poker.initGenesis env.poker c.poker.balances c.poker.exportGenesis
  let dealer ← initGenesis (env.withBeacon rand) (c.dealer.staking.1, none)
    c.dealer.exportGenesis
  pure ⟨poker, dealer⟩

end Model

/-! ## Every reachable state can be imported -/

section Import

variable {env : Env} {params : Params}

structure EpochsFromOne (params : Params) (s : State env) : Prop where
  params : s.params = params
  next : 0 < s.nextEpochId
  epoch : ∀ e, s.epoch = some e → 0 < e.epochId
  dkg : ∀ d, s.dkg = some d → 0 < d.epochId

theorem DkgEffect.epochsFromOne {s s' : State env} {height : Int} (heffect : DkgEffect s height s')
    (hsound : DealerSound s) (hnumbered : EpochsFromOne params s) : EpochsFromOne params s' := by
  cases heffect with
  | begun _ hfresh =>
    refine ⟨hnumbered.params, Nat.succ_pos _, hnumbered.epoch, fun d hd => ?_⟩
    cases hd
    rw [hfresh.epochId]
    exact hnumbered.next
  | moved hd hmove =>
    refine ⟨hnumbered.params, hnumbered.next, hnumbered.epoch, fun d hd' => ?_⟩
    cases hd'
    rw [hmove.epochId_eq]
    exact hnumbered.dkg _ hd
  | aborted _ => exact ⟨hnumbered.params, hnumbered.next, hnumbered.epoch, fun _ h => (nomatch h)⟩
  | @finalised d _ _ _ hd hslashes _ hepoch =>
    refine ⟨hnumbered.params, hnumbered.next, fun e he => ?_, fun _ h => (nomatch h)⟩
    cases he
    have hvalid := hslashes.recordValid (hsound.record d hd)
    rw [(computeEpoch_valid hvalid hepoch).2]
    obtain ⟨slashed, rfl, -, -⟩ := hslashes
    exact hnumbered.dkg d hd

theorem Penalised.epochsFromOne {c c' : Chain env} (hpenalty : Penalised c c')
    (hnumbered : EpochsFromOne params c.dealer) : EpochsFromOne params c'.dealer := by
  cases hpenalty with
  | none => exact hnumbered
  | @some epoch _ _ hepoch hgrows =>
    refine ⟨hnumbered.params, hnumbered.next, fun e he => ?_, hnumbered.dkg⟩
    cases he
    rw [hgrows.same]
    exact hnumbered.epoch epoch hepoch

theorem handle_epochsFromOne {c c' : Chain env} {msg : Msg env}
    (hsound : DealerSound c.dealer) (hnumbered : EpochsFromOne params c.dealer)
    (hok : handle c msg = .ok c') : EpochsFromOne params c'.dealer := by
  cases handle_step hok with
  | player msg _ _ => exact hnumbered
  | dkg block msg _ hdealer => exact (dkg_effect hsound hdealer).epochsFromOne hsound hnumbered
  | hand block msg _ =>
    obtain ⟨c₁, hpenalty, hact⟩ := handleHand_effect hok
    have hpenalised := hpenalty.epochsFromOne hnumbered
    rw [hact.dealer_frame]
    exact ⟨hpenalised.params, hpenalised.next, hpenalised.epoch, hpenalised.dkg⟩
  | otherStaking staking => exact ⟨hnumbered.params, hnumbered.next, hnumbered.epoch, hnumbered.dkg⟩

theorem reachable_epochsFromOne {balances : env.poker.bank.Balances}
    {staking : env.staking.Staking} {log : List (Msg env)} {c : Chain env}
    (hreach : Reaches handle (Chain.genesis env balances staking params) log c) :
    EpochsFromOne params c.dealer := by
  induction hreach with
  | refl => exact ⟨rfl, Nat.one_pos, fun _ h => (nomatch h), fun _ h => (nomatch h)⟩
  | step hbefore hok ih =>
    have hsound := reachable_dealerSound (reachable_of_reaches hbefore)
    exact handle_epochsFromOne hsound ih hok

theorem initGenesis_exportGenesis {s : State env} (hsound : DealerSound s)
    (hnumbered : EpochsFromOne params s) (hparams : params.validate = .ok ())
    (staking : env.staking.Staking) :
    initGenesis env staking s.exportGenesis =
      .ok ⟨staking, s.params, s.nextEpochId, s.epoch, s.dkg, ∅⟩ := by
  have hepoch : ¬ s.epoch.any (·.epochId = 0) = true := by
    cases he : s.epoch with
    | none => simp
    | some e => simpa using (hnumbered.epoch e he).ne'
  have hdkg : ¬ s.dkg.any (·.epochId = 0) = true := by
    cases hd : s.dkg with
    | none => simp
    | some d => simpa using (hnumbered.dkg d hd).ne'
  have hlt : ¬ s.dkg.any (fun dkg => dkg.epochId ≥ s.nextEpochId) = true := by
    cases hd : s.dkg with
    | none => simp
    | some d => simpa using hsound.dkg_lt d hd
  have hvalid : validateGenesis s.exportGenesis = .ok () := by
    simp only [validateGenesis, State.exportGenesis, hnumbered.params, hparams,
      Except.mapError, ok_bind, rejectIf_of_not hnumbered.next.ne', rejectIf_of_not hepoch,
      rejectIf_of_not hdkg, rejectIf_of_not hlt]
  rw [initGenesis, hvalid, ok_bind]
  rfl

end Import

/-! ## The restarted chain -/

section Restart

variable {env : Env} {rand : Randomness env}

/-- Nothing that the export leaves out is in use from this height on: no active hand has
been given a deck, the beacon has been consumed and its windows are closed, and no table
waits for its cooldown. -/
structure Restartable (since : Int) (c : Chain (env.withBeacon rand)) : Prop where
  noDeck : ∀ tid t h, c.poker.getTable tid = some t → t.hand = some h →
    c.dealer.getHand tid h.handId = none
  beacon : ∀ bs, c.dealer.beacon = some bs → bs.final ≠ [] ∧
    bs.commitCloseHeight < since ∧ bs.revealCloseHeight < since
  cooledDown : ∀ tid, CooledDown since (c.poker.getLastHandEndedHeight tid)

variable {since : Int} {c : Chain (env.withBeacon rand)}

theorem Restartable.unused (hquiet : Restartable since c) (hlinked : Linked c)
    {tid hid : Nat} (hlive : ¬ HandOver c.poker tid hid) :
    c.dealer.getHand tid hid = none := by
  cases hdh : c.dealer.getHand tid hid with
  | none => rfl
  | some dh =>
    exfalso
    obtain ⟨t, ht, hlt⟩ := hlinked.started tid hid dh hdh
    apply hlive
    refine ⟨t, ht, hlt, fun h hh hid' => ?_⟩
    rw [← hid', hquiet.noDeck tid t h ht hh] at hdh
    cases hdh

theorem Restartable.spent {balances : env.poker.bank.Balances} {staking : env.staking.Staking}
    {params : Params} {log : List (FullMsg env)} (hquiet : Restartable since c)
    (hreach : Reaches handleFull (fullGenesis rand balances staking params) log c) :
    Spent since c.dealer.nextEpochId c.dealer.beacon := by
  intro bs hbs
  obtain ⟨hfinal, hcommits, hreveals⟩ := hquiet.beacon bs hbs
  exact ⟨hfinal, (reachable_beaconValid hreach bs hbs).consumed hfinal, hcommits, hreveals⟩

theorem restart_alike {params : Params} (hnumbered : NumberedFromOne c.poker)
    (hepochs : EpochsFromOne params c.dealer) (hparams : params.validate = .ok ())
    (hsound : DealerSound c.dealer) (hlinked : Linked c) (hquiet : Restartable since c)
    (hspent : Spent since c.dealer.nextEpochId c.dealer.beacon) :
    ∃ c', c.restart = .ok c' ∧ ChainAlike (BeaconAlike since c.dealer.nextEpochId) since
        (fun tid hid => ¬ HandOver c.poker tid hid) c c' := by
  obtain ⟨poker, himport, hbalances, hnext, htables, hheights⟩ :=
    Poker.initGenesis_exportGenesis hlinked.solvent.1 hnumbered
  have hdealer := initGenesis_exportGenesis hsound hepochs hparams (c.dealer.staking.1, none)
  refine ⟨_, by rw [Chain.restart, himport, ok_bind, hdealer, ok_bind]; rfl, ?_, ?_⟩
  · refine ⟨hbalances.symm, hnext.symm, fun tid => (htables tid).symm, fun tid => ?_⟩
    right
    apply And.intro (hquiet.cooledDown tid)
    left
    simp [Poker.State.getLastHandEndedHeight, hheights]
  · refine ⟨⟨rfl, ?_⟩, rfl, rfl, rfl, rfl, fun tid hid hlive => ?_⟩
    · right
      exact ⟨hspent, fun bs hnone => by cases hnone⟩
    · rw [hquiet.unused hlinked hlive]
      simp [State.getHand]

def RestartedFrom (since : Int) (bound : Nat) (start c c' : Chain (env.withBeacon rand)) :
    Prop :=
  (∃ log, Reaches handleFull start log c) ∧ bound ≤ c.dealer.nextEpochId ∧
    ChainAlike (BeaconAlike since bound) since
      (fun tid hid => ¬ HandOver c.poker tid hid) c c'

/-- Hands that are over stay over, so what was out of use stays out of use. -/
theorem restartedFrom_bisimulation (balances : env.poker.bank.Balances)
    (staking : env.staking.Staking) (params : Params) (since : Int) (bound : Nat) :
    IsBisimulation handleFull (FullMsg.Since since)
      (RestartedFrom since bound (fullGenesis rand balances staking params)) := by
  rintro c c' m ⟨⟨log, hreach⟩, hbound, halike⟩ hm
  have hsound := reachable_fullSound hreach
  obtain ⟨log', hcore⟩ := reachable_core hreach
  apply (handleFull_alike halike (fun _ _ hlive => hlive) hbound hm).mono
  intro c₁ c₁' hok _ hafter
  obtain ⟨msg, hmsg⟩ := handleFull_core hok
  have hlinked := reachable_linked (reachable_of_reaches hcore)
  have hlater := handle_pokerLater hsound hlinked hmsg
  have hnext := (handleFull_step hsound hok).next_le
  refine ⟨⟨m :: log, hreach.step hok⟩, hbound.trans hnext, hafter.poker, ?_⟩
  obtain ⟨hstaking, hparams, hnextId, hepoch, hdkg, hhands⟩ := hafter.dealer
  refine ⟨hstaking, hparams, hnextId, hepoch, hdkg, fun tid hid hlive => ?_⟩
  apply hhands
  intro hover
  exact hlive (hover.later hlater)

/-- A reachable chain in which nothing is in use that the export leaves out is restarted
from its export, and from then on no messages tell the two apart. -/
theorem restart_preserves_game (env : Env) (rand : Randomness env)
    (balances : env.poker.bank.Balances) (staking : env.staking.Staking) (params : Params)
    (hparams : params.validate = .ok ()) (log : List (FullMsg env))
    (c : Chain (env.withBeacon rand))
    (hreach : Reaches handleFull (fullGenesis rand balances staking params) log c)
    (since : Int) (hquiet : Restartable since c) :
    ∃ c', c.restart = .ok c' ∧ Bisimilar handleFull (FullMsg.Since since) c c' := by
  obtain ⟨log', hcore⟩ := reachable_core hreach
  have hchain := reachable_of_reaches hcore
  have hnumbered := Poker.reachable_numberedFromOne (reachable_poker hchain)
  obtain ⟨c', hrestart, halike⟩ := restart_alike hnumbered
    (reachable_epochsFromOne hcore) hparams (reachable_fullSound hreach)
    (reachable_linked hchain) hquiet (hquiet.spent hreach)
  refine ⟨c', hrestart, _, restartedFrom_bisimulation balances staking params since
    c.dealer.nextEpochId, ⟨log, hreach⟩, Nat.le_refl _, halike⟩

end Restart

/-! ## A chain that is restarted -/

def residueRandomness : Randomness residueEnv where
  chainId := "ocp-devnet-1"
  sha256 := fun text => (text.reverse ++ List.replicate 32 0).take 32
  sha256_length := reversed_length
  lastBlockHash := fun _ => []
  consensusPower := fun _ _ => 1
  accAddrString := fun valAddr => valAddr
  valoper_accAddr := fun valAddr acc hacc => by
    cases hacc
    rfl

def Msg.full {env : Env} : Msg env → FullMsg env
  | .player msg => .player msg
  | .dkg block msg => .dkg block msg
  | .hand block msg => .hand block msg
  | .otherStaking staking => .otherStaking staking

def undealtRun : List (FullMsg residueEnv) :=
  (committeeRun ++ (dealRun 1 4).take 4).map Msg.full

def residueFull : Chain (residueEnv.withBeacon residueRandomness) :=
  fullGenesis residueRandomness (0 : Nat) () residueParams

theorem undealtRun_restarts :
    ∃ c', (run handleFull residueFull undealtRun).restart = .ok c' ∧
      Bisimilar handleFull (FullMsg.Since 11) (run handleFull residueFull undealtRun) c' := by
  have hfacts : (run handleFull residueFull undealtRun).dealer.hands.keys = [] ∧
      (run handleFull residueFull undealtRun).dealer.beacon = none ∧
      (run handleFull residueFull undealtRun).poker.lastHandEndedHeight.keys = [] := by
    decide +kernel
  obtain ⟨hhands, hbeacon, hheights⟩ := hfacts
  have hquiet : Restartable 11 (run handleFull residueFull undealtRun) := by
    constructor
    · intro tid t h _ _
      apply AList.lookup_eq_none.mpr
      intro hmem
      exact List.not_mem_nil (hhands ▸ AList.mem_keys.mp hmem)
    · rw [hbeacon]
      exact fun bs hnone => (nomatch hnone)
    · intro tid
      left
      rw [Poker.State.getLastHandEndedHeight, AList.lookup_eq_none.mpr]
      · rfl
      · intro hmem
        exact List.not_mem_nil (hheights ▸ AList.mem_keys.mp hmem)
  exact restart_preserves_game residueEnv residueRandomness (0 : Nat) () residueParams
    (by decide) _ _ (reaches_run undealtRun) 11 hquiet

def busyRun : List (FullMsg residueEnv) :=
  (committeeRun ++ dealRun 1 4).map Msg.full ++
    [.beacon (blockAt 0) (.openBeaconWindow ⟨"A", 2, 5, 5, 2⟩)]

def busyTimeout : FullMsg residueEnv := .hand (blockAt 200) (.timeout ⟨"gm", 1, 1⟩)

def busyCommit : FullMsg residueEnv :=
  .beacon (blockAt 200) (.beaconCommit ⟨"A", 2, List.replicate 32 1⟩)

/-- After the restart the hand cannot be timed out and the window is gone. -/
theorem busyRun_breaks :
    ∃ c', (run handleFull residueFull busyRun).restart = .ok c' ∧
      ((handleFull (run handleFull residueFull busyRun) busyTimeout).isOk = true ∧
        (handleFull c' busyTimeout).isOk = false) ∧
      ((handleFull (run handleFull residueFull busyRun) busyCommit).isOk = true ∧
        (handleFull c' busyCommit).isOk = false) ∧
      ¬ Bisimilar handleFull (FullMsg.Since 10) (run handleFull residueFull busyRun) c' := by
  have hfacts : (run handleFull residueFull busyRun).restart.isOk = true ∧
      (handleFull (run handleFull residueFull busyRun) busyTimeout).isOk = true ∧
      (handleFull (run handleFull residueFull busyRun) busyCommit).isOk = true ∧
      (∀ c' ∈ (run handleFull residueFull busyRun).restart.toOption,
        (handleFull c' busyTimeout).isOk = false ∧
          (handleFull c' busyCommit).isOk = false) := by
    decide +kernel
  obtain ⟨hrestart, htimeout, hcommit, hlost⟩ := hfacts
  obtain ⟨c', hc'⟩ := isOk_iff.mp hrestart
  obtain ⟨htimeout', hcommit'⟩ := hlost c' (toOption_eq_some.mpr hc')
  refine ⟨c', hc', ⟨htimeout, htimeout'⟩, ⟨hcommit, hcommit'⟩, fun hsame => ?_⟩
  have haccepted := (hsame.isOk_iff (m := busyTimeout) (le_refl (10 : Int))).mp htimeout
  rw [htimeout'] at haccepted
  cases haccepted

end OnChainPoker.Dealer
