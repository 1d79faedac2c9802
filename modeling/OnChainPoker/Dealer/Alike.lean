import OnChainPoker.Dealer.BeaconSteps
import OnChainPoker.Dealer.Shuffling
import OnChainPoker.Poker.Alike

/-!
# Chains that no message tells apart

The dealer module reads its staking state through the keepers only, and of the dealer
hands only those of hands that are not over.  So a chain may be exchanged for another one
that has the same games, parameters, epoch and DKG record, an equivalent staking state,
and the same dealer hands as far as they are still of use.

The lemmas for the DKG and hand messages hold for every relation between staking states
that the keepers respect.  With a beacon beside the staking state there is such a
relation that forgets a beacon whose windows are closed and that has been consumed.
-/

namespace OnChainPoker.Dealer

open Foundation Crypto
open Poker (Block Table Hand HandOver)

section Relation

variable {env : Env}

/-- The keepers answer related staking states alike, and penalties keep them related. -/
structure RespectedBy (env : Env)
    (Q : env.staking.Staking → env.staking.Staking → Prop) : Prop where
  bonded : ∀ {x y}, Q x y →
    env.staking.bondedValidatorsByPower x = env.staking.bondedValidatorsByPower y
  sampled : ∀ {x y}, Q x y →
    env.sampleBondedMemberSnapshotsByPower x = env.sampleBondedMemberSnapshotsByPower y
  penalty : ∀ {x y}, Q x y → ∀ valoper height power slashBps jailSeconds blockUnix,
    Agree Q
      (applyPenalty env.staking x valoper height power slashBps jailSeconds blockUnix)
      (applyPenalty env.staking y valoper height power slashBps jailSeconds blockUnix)

/-- Equal up to the staking state and the dealer hands that are of no use. -/
structure StateAlike (Q : env.staking.Staking → env.staking.Staking → Prop)
    (live : Nat → Nat → Prop) (s s' : State env) : Prop where
  staking : Q s.staking s'.staking
  params : s.params = s'.params
  nextEpochId : s.nextEpochId = s'.nextEpochId
  epoch : s.epoch = s'.epoch
  dkg : s.dkg = s'.dkg
  hands : ∀ tid hid, live tid hid → s.getHand tid hid = s'.getHand tid hid

def BesideAlike {α : Type} (Q : env.staking.Staking → env.staking.Staking → Prop)
    (x y : env.staking.Staking × α) : Prop :=
  Q x.1 y.1 ∧ x.2 = y.2

end Relation

/-! ## DKG messages -/

section Dkg

variable {env : Env} {Q : env.staking.Staking → env.staking.Staking → Prop}
  {live : Nat → Nat → Prop} {s s' : State env}

variable (hQ : RespectedBy env Q) (h : StateAlike Q live s s') (block : Block)
include h

theorem StateAlike.loadDKG (epochId : Nat) : s.loadDKG epochId = s'.loadDKG epochId := by
  simp only [State.loadDKG, h.dkg]

theorem StateAlike.loadForComplaint (epochId : Nat) :
    loadForComplaint s block epochId = Dealer.loadForComplaint s' block epochId := by
  simp only [Dealer.loadForComplaint, h.loadDKG]

theorem StateAlike.setDkg (dkg : Option DealerDKG) :
    StateAlike Q live { s with dkg := dkg } { s' with dkg := dkg } :=
  ⟨h.staking, h.params, h.nextEpochId, h.epoch, rfl, h.hands⟩

theorem StateAlike.setEpoch (epoch : Option DealerEpoch) :
    StateAlike Q live { s with epoch := epoch } { s' with epoch := epoch } :=
  ⟨h.staking, h.params, h.nextEpochId, rfl, h.dkg, h.hands⟩

theorem StateAlike.setStaking {x y : env.staking.Staking} (hxy : Q x y) :
    StateAlike Q live { s with staking := x } { s' with staking := y } :=
  ⟨hxy, h.params, h.nextEpochId, h.epoch, h.dkg, h.hands⟩

include hQ

theorem StateAlike.requireActiveBondedCaller (caller : String) :
    requireActiveBondedCaller s caller = Dealer.requireActiveBondedCaller s' caller := by
  simp only [Dealer.requireActiveBondedCaller, hQ.bonded h.staking]

theorem beginEpoch_alike (req : MsgBeginEpoch) (hselect : Agree (fun x y => x.1 = y.1 ∧ Q x.2 y.2)
      (env.selectRandEpoch s.staking s'.params block s'.nextEpochId req.randEpoch)
      (env.selectRandEpoch s'.staking s'.params block s'.nextEpochId req.randEpoch)) :
    Agree (StateAlike Q live) (beginEpoch s block req) (beginEpoch s' block req) := by
  simp only [beginEpoch, h.requireActiveBondedCaller hQ, h.dkg, h.nextEpochId, h.params]
  iterate 6 (apply Agree.bind_same; intro _ _)
  apply Agree.bind_same
  intro _ hid
  rw [rejectIf_eq_ok, ne_eq, not_not] at hid
  rw [hid]
  apply Agree.bind_same
  intro next _
  apply Agree.bind hselect.mapError
  rintro ⟨value, x⟩ ⟨value', y⟩ _ ⟨rfl, hxy⟩
  simp only [sampleMembers, hQ.sampled hxy]
  repeat (apply Agree.bind_same; intro _ _)
  exact ⟨hxy, rfl, rfl, h.epoch, rfl, h.hands⟩

theorem dkgPenalise_alike (valoper : String) (power : Int)
    {x y : env.staking.Staking × DealerDKG} (hxy : BesideAlike Q x y) :
    Agree (BesideAlike Q) (dkgPenalise s block valoper power x)
      (dkgPenalise s' block valoper power y) := by
  obtain ⟨x, dkg⟩ := x
  obtain ⟨y, dkg'⟩ := y
  obtain ⟨hstaking, rfl⟩ : Q x y ∧ dkg = dkg' := hxy
  simp only [dkgPenalise, h.params]
  split
  · exact ⟨hstaking, rfl⟩
  · apply Agree.bind (hQ.penalty hstaking valoper _ power _ _ _)
    intro x' y' _ hafter
    exact ⟨hafter, rfl⟩

theorem penaliseCurrent_alike (valoper : String) (power : Int) (dkg : DealerDKG) :
    Agree (BesideAlike Q) (dkgPenalise s block valoper power (s.staking, dkg))
      (dkgPenalise s' block valoper power (s'.staking, dkg)) := by
  apply dkgPenalise_alike hQ h
  exact ⟨h.staking, rfl⟩

theorem penaliseDealers_alike (dkg : DealerDKG) (offenders : List (String × Int)) :
    Agree (BesideAlike Q) (penaliseDealers s block (s.staking, dkg) offenders)
      (penaliseDealers s' block (s'.staking, dkg) offenders) :=
  Agree.foldlM (fun _ _ o hxy => dkgPenalise_alike hQ h block o.1 o.2 hxy) offenders
    ⟨h.staking, rfl⟩

theorem completeEpoch_alike (dkg : DealerDKG) :
    Agree (StateAlike Q live) (completeEpoch s block dkg) (completeEpoch s' block dkg) := by
  rw [completeEpoch, settle_eq, completeEpoch, settle_eq]
  apply Agree.bind (penaliseDealers_alike hQ h block dkg _)
  rintro ⟨x, dkg₁⟩ ⟨y, dkg₂⟩ _ ⟨hxy, hdkg⟩
  cases hdkg
  dsimp only
  split
  · exact (h.setStaking hxy).setDkg none
  · apply Agree.bind_same
    intro epoch _
    exact ((h.setStaking hxy).setEpoch _).setDkg none

theorem finalizeEpoch_alike (req : MsgEpoch) :
    Agree (StateAlike Q live) (finalizeEpoch s block req) (finalizeEpoch s' block req) := by
  simp only [finalizeEpoch, h.loadDKG]
  iterate 3 (apply Agree.bind_same; intro _ _)
  exact completeEpoch_alike hQ h block _

theorem dkgTimeout_alike (req : MsgEpoch) :
    Agree (StateAlike Q live) (dkgTimeout s block req) (dkgTimeout s' block req) := by
  simp only [dkgTimeout, h.loadDKG]
  iterate 3 (apply Agree.bind_same; intro _ _)
  rename_i dkg _ _ _
  rw [slashMissingCommits_eq, slashMissingCommits_eq]
  apply Agree.bind (penaliseDealers_alike hQ h block dkg _)
  rintro ⟨x, dkg₁⟩ ⟨y, dkg₂⟩ _ ⟨hxy, hdkg⟩
  cases hdkg
  have hslashed := h.setStaking hxy
  split
  · exact hslashed.setDkg none
  · split
    · exact completeEpoch_alike hQ (hslashed.setDkg _) block dkg₁
    · exact hslashed.setDkg _

theorem dkgComplaintInvalid_alike (req : MsgDkgComplaintInvalid) :
    Agree (StateAlike Q live) (dkgComplaintInvalid s block req)
      (dkgComplaintInvalid s' block req) := by
  simp only [dkgComplaintInvalid, h.loadForComplaint]
  iterate 14 (apply Agree.bind_same; intro _ _)
  apply Agree.bind (penaliseCurrent_alike hQ h block _ _ _)
  rintro ⟨x, dkg₁⟩ ⟨y, dkg₂⟩ _ ⟨hxy, hdkg⟩
  cases hdkg
  exact (h.setStaking hxy).setDkg _

theorem dkgComplaintAEADBad_alike (req : MsgDkgComplaintAEADBad) :
    Agree (StateAlike Q live) (dkgComplaintAEADBad s block req)
      (dkgComplaintAEADBad s' block req) := by
  simp only [dkgComplaintAEADBad, h.loadForComplaint]
  repeat (apply Agree.bind_same; intro _ _)
  apply Agree.bind (penaliseCurrent_alike hQ h block _ _ _)
  rintro ⟨x, dkg₁⟩ ⟨y, dkg₂⟩ _ ⟨hxy, hdkg⟩
  cases hdkg
  exact (h.setStaking hxy).setDkg _

theorem handleDkg_alike (block : Block) (hselect : ∀ supplied,
      Agree (fun x y => x.1 = y.1 ∧ Q x.2 y.2)
        (env.selectRandEpoch s.staking s'.params block s'.nextEpochId supplied)
        (env.selectRandEpoch s'.staking s'.params block s'.nextEpochId supplied))
    (msg : DkgMsg) :
    Agree (StateAlike Q live) (handleDkg s block msg) (handleDkg s' block msg) := by
  cases msg with
  | beginEpoch req => exact beginEpoch_alike hQ h block req (hselect req.randEpoch)
  | dkgCommit req | dkgEncryptedShare req | dkgComplaintMissing req =>
    simp only [handleDkg, dkgCommit, dkgEncryptedShare, dkgComplaintMissing, h.loadDKG,
      h.loadForComplaint]
    repeat (apply Agree.bind_same; intro _ _)
    exact h.setDkg _
  | dkgComplaintInvalid req => exact dkgComplaintInvalid_alike hQ h block req
  | dkgComplaintAEADBad req => exact dkgComplaintAEADBad_alike hQ h block req
  | dkgShareReveal req =>
    simp only [handleDkg, dkgShareReveal, h.loadDKG, h.params]
    repeat (apply Agree.bind_same; intro _ _)
    exact ⟨h.staking, rfl, h.nextEpochId, h.epoch, rfl, h.hands⟩
  | finalizeEpoch req => exact finalizeEpoch_alike hQ h block req
  | dkgTimeout req => exact dkgTimeout_alike hQ h block req

end Dkg

/-! ## Hand messages -/

structure ChainAlike {env : Env} (Q : env.staking.Staking → env.staking.Staking → Prop)
    (since : Int) (live : Nat → Nat → Prop) (c c' : Chain env) : Prop where
  poker : Poker.Alike since c.poker c'.poker
  dealer : StateAlike Q live c.dealer c'.dealer

section Hands

variable {env : Env} {Q : env.staking.Staking → env.staking.Staking → Prop}
  {since : Int} {live : Nat → Nat → Prop} {c c' : Chain env}

namespace ChainAlike

variable (h : ChainAlike Q since live c c')
include h

theorem activeHand (tid hid : Nat) (missing : String) :
    c.activeHand tid hid missing = c'.activeHand tid hid missing := by
  simp only [Chain.activeHand, h.poker.tables tid]

theorem dealerHand {tid hid : Nat}
    (hlive : live tid hid) : c.dealerHand tid hid = c'.dealerHand tid hid := by
  simp only [Chain.dealerHand, h.dealer.hands tid hid hlive]

theorem handEpoch (dh : DealerHand) : c.handEpoch dh = c'.handEpoch dh := by
  simp only [Chain.handEpoch, h.dealer.epoch]

theorem setPoker {poker poker' : Poker.State env.poker} (hpoker : Poker.Alike since poker poker') :
    ChainAlike Q since live { c with poker := poker } { c' with poker := poker' } :=
  ⟨hpoker, h.dealer⟩

theorem setTable (t : Table) : ChainAlike Q since live (c.setTable t) (c'.setTable t) :=
  ⟨h.poker.setTable t, h.dealer⟩

theorem setHand (tid hid : Nat) (dh : DealerHand) :
    ChainAlike Q since live (c.setHand tid hid dh) (c'.setHand tid hid dh) := by
  refine ⟨h.poker, h.dealer.staking, h.dealer.params, h.dealer.nextEpochId,
    h.dealer.epoch, h.dealer.dkg, fun tid₁ hid₁ hlive => ?_⟩
  rw [getHand_setHand, getHand_setHand, h.dealer.hands tid₁ hid₁ hlive]

theorem deleteHand (tid hid : Nat) :
    ChainAlike Q since live (c.deleteHand tid hid) (c'.deleteHand tid hid) := by
  refine ⟨h.poker, h.dealer.staking, h.dealer.params, h.dealer.nextEpochId,
    h.dealer.epoch, h.dealer.dkg, fun tid₁ hid₁ hlive => ?_⟩
  rw [getHand_deleteHand, getHand_deleteHand, h.dealer.hands tid₁ hid₁ hlive]

theorem cleanUp (tid hid : Nat) :
    ChainAlike Q since live (c.cleanUp tid hid) (c'.cleanUp tid hid) := by
  simp only [Chain.cleanUp, h.poker.tables tid]
  split
  · exact h.deleteHand tid hid
  · exact h

end ChainAlike

def Covers (live : Nat → Nat → Prop) (c : Chain env) : Prop :=
  ∀ tid hid, ¬ HandOver c.poker tid hid → live tid hid

variable (hQ : RespectedBy env Q) (h : ChainAlike Q since live c c')
  (hcovers : Covers live c) (block : Block)
include h

theorem abortHand_alike (tid hid : Nat) :
    Agree (ChainAlike Q since live) (abortHand c tid hid) (abortHand c' tid hid) := by
  apply Agree.bind
    (Poker.handle_alike h.poker (.abortHandRefundAllCommits tid hid) (by simp)).mapError
  intro poker poker' _ hpoker
  exact (h.setPoker hpoker).deleteHand tid hid

theorem advanceHand_alike (tid hid : Nat) (dh : DealerHand) :
    Agree (ChainAlike Q since live) (advanceHand c block tid hid dh)
      (advanceHand c' block tid hid dh) := by
  have hset := h.setHand tid hid { dh with holeSharesDeadline := 0 }
  apply Agree.bind (Poker.handle_alike hset.poker
    (.advanceAfterHoleSharesReady block tid hid) (by simp)).mapError
  intro poker poker' _ hpoker
  exact hset.setPoker hpoker

include hcovers

theorem ChainAlike.dealerHand_active {tid hid : Nat} {missing : String} {th : Table × Hand}
    (hactive : c'.activeHand tid hid missing = .ok th) :
    c.dealerHand tid hid = c'.dealerHand tid hid := by
  apply h.dealerHand
  apply hcovers
  rintro ⟨t, ht, -, hnot⟩
  simp only [Chain.activeHand, ← h.poker.tables tid, ok_iff, ne_eq, not_not, ht,
    Option.some.injEq] at hactive
  obtain ⟨t₁, rfl, hand, hhand, -, hid, -⟩ := hactive
  exact hnot hand hhand hid

theorem finalizeDeck_alike (tid hid : Nat) :
    Agree (ChainAlike Q since live) (finalizeDeck c block tid hid)
      (finalizeDeck c' block tid hid) := by
  simp only [finalizeDeck, h.activeHand, h.handEpoch]
  apply Agree.bind_same
  intro th hactive
  simp only [h.dealerHand_active hcovers hactive]
  repeat (apply Agree.bind_same; intro _ _)
  exact (h.setTable _).setHand _ _ _

theorem submitEncShare_alike (req : MsgSubmitEncShare) :
    Agree (ChainAlike Q since live) (submitEncShare c block req) (submitEncShare c' block req) := by
  simp only [submitEncShare, h.activeHand, h.handEpoch]
  iterate 6 (apply Agree.bind_same; intro _ _)
  apply Agree.bind_same
  intro th hactive
  simp only [h.dealerHand_active hcovers hactive]
  repeat (apply Agree.bind_same; intro _ _)
  split
  · exact advanceHand_alike h block _ _ _
  · exact h.setHand _ _ _

theorem finalizeReveal_alike (tid hid pos : Nat) :
    Agree (ChainAlike Q since live) (finalizeReveal c block tid hid pos)
      (finalizeReveal c' block tid hid pos) := by
  simp only [finalizeReveal, h.activeHand, h.handEpoch]
  apply Agree.bind_same
  intro th hactive
  simp only [h.dealerHand_active hcovers hactive]
  iterate 7 (apply Agree.bind_same; intro _ _)
  have hset := h.setHand tid hid
  apply Agree.bind (Poker.handle_alike (hset _).poker
    (.applyDealerReveal block tid hid pos _) (by simp)).mapError
  intro poker poker' _ hpoker
  exact ((hset _).setPoker hpoker).cleanUp tid hid

include hQ

theorem initHand_alike (lastBlockHash : Bytes) (req : MsgInitHand) :
    Agree (ChainAlike Q since live) (initHand c block lastBlockHash req)
      (initHand c' block lastBlockHash req) := by
  simp only [initHand, h.poker.tables, h.dealer.epoch, requireInitialiser,
    h.dealer.requireActiveBondedCaller hQ]
  iterate 2 (apply Agree.bind_same; intro _ _)
  apply Agree.bind_same
  intro t ht
  apply Agree.bind_same
  intro hand hhand
  apply Agree.bind_same
  intro _ _
  apply Agree.bind_same
  intro _ hid
  apply Agree.bind_same
  intro _ _
  have hlive : live req.tableId req.handId := by
    apply hcovers
    rintro ⟨t₁, ht₁, -, hnot⟩
    rw [h.poker.tables] at ht₁
    rw [require_eq_ok] at ht hhand
    rw [rejectIf_eq_ok, ne_eq, not_not] at hid
    cases ht.symm.trans ht₁
    exact hnot hand hhand hid
  simp only [h.dealer.hands req.tableId req.handId hlive]
  repeat (apply Agree.bind_same; intro _ _)
  exact (h.setTable _).setHand _ _ _

omit hcovers in
theorem epochPenalise_alike (x y : env.staking.Staking × DealerEpoch) (valoper : String)
    (hxy : BesideAlike Q x y) :
    Agree (BesideAlike Q) (epochPenalise c block x valoper) (epochPenalise c' block y valoper) := by
  obtain ⟨x, epoch⟩ := x
  obtain ⟨y, epoch'⟩ := y
  obtain ⟨hstaking, rfl⟩ : Q x y ∧ epoch = epoch' := hxy
  simp only [epochPenalise, h.dealer.params]
  split
  · exact ⟨hstaking, rfl⟩
  · apply Agree.bind (hQ.penalty hstaking valoper _ _ _ _ _)
    intro x' y' _ hafter
    exact ⟨hafter, rfl⟩

theorem penaliseAll_alike (epoch : DealerEpoch) (validators : List String) :
    Agree (fun x y => ChainAlike Q since live x.1 y.1 ∧ Covers live x.1 ∧ x.2 = y.2)
      (penaliseAll c block epoch validators) (penaliseAll c' block epoch validators) := by
  have hloop := Agree.foldlM (epochPenalise_alike hQ h block) validators
    (a := (c.dealer.staking, epoch)) (b := (c'.dealer.staking, epoch))
    ⟨h.dealer.staking, rfl⟩
  apply Agree.bind hloop
  rintro ⟨x, epoch₁⟩ ⟨y, epoch₂⟩ _ ⟨hxy, hepoch⟩
  cases hepoch
  exact ⟨⟨h.poker, (h.dealer.setStaking hxy).setEpoch _⟩, hcovers, rfl⟩

theorem timeoutShuffle_alike (tid hid timeoutSecs : Nat) (dh : DealerHand) (epoch : DealerEpoch) :
    Agree (ChainAlike Q since live) (timeoutShuffle c block tid hid timeoutSecs dh epoch)
      (timeoutShuffle c' block tid hid timeoutSecs dh epoch) := by
  simp only [timeoutShuffle]
  iterate 2 (apply Agree.bind_same; intro _ _)
  split
  · exact abortHand_alike h tid hid
  split
  · exact finalizeDeck_alike h hcovers block tid hid
  apply Agree.bind_same
  intro expected _
  apply Agree.bind (penaliseAll_alike hQ h hcovers block epoch _)
  rintro ⟨c₁, epoch₁⟩ ⟨c₂, epoch₂⟩ _ ⟨h₁, hcovers₁, hepoch⟩
  cases hepoch
  split
  · exact abortHand_alike h₁ tid hid
  split
  · exact finalizeDeck_alike h₁ hcovers₁ block tid hid
  apply Agree.bind_same
  intro deadline _
  exact h₁.setHand tid hid _

theorem timeoutHoleShares_alike
    (tid hid : Nat) (t : Table) (hand : Hand) (dh : DealerHand) (epoch : DealerEpoch) :
    Agree (ChainAlike Q since live) (timeoutHoleShares c block tid hid t hand dh epoch)
      (timeoutHoleShares c' block tid hid t hand dh epoch) := by
  iterate 3 (apply Agree.bind_same; intro _ _)
  apply Agree.bind (penaliseAll_alike hQ h hcovers block epoch _)
  rintro ⟨c₁, epoch₁⟩ ⟨c₂, epoch₂⟩ _ ⟨h₁, -, hepoch⟩
  cases hepoch
  dsimp only
  split
  · exact abortHand_alike h₁ tid hid
  apply Agree.bind_same
  intro ready _
  split
  · exact advanceHand_alike h₁ block tid hid dh
  · exact abortHand_alike h₁ tid hid

theorem timeoutReveal_alike (tid hid : Nat) (hand : Hand) (dh : DealerHand) (epoch : DealerEpoch) :
    Agree (ChainAlike Q since live) (timeoutReveal c block tid hid hand dh epoch)
      (timeoutReveal c' block tid hid hand dh epoch) := by
  iterate 2 (apply Agree.bind_same; intro _ _)
  apply Agree.bind (penaliseAll_alike hQ h hcovers block epoch _)
  rintro ⟨c₁, epoch₁⟩ ⟨c₂, epoch₂⟩ _ ⟨h₁, hcovers₁, hepoch⟩
  cases hepoch
  dsimp only
  split
  · exact abortHand_alike h₁ tid hid
  · exact finalizeReveal_alike h₁ hcovers₁ block tid hid _

theorem timeoutHand_alike (tid hid : Nat) :
    Agree (ChainAlike Q since live) (timeoutHand c block tid hid)
      (timeoutHand c' block tid hid) := by
  simp only [timeoutHand, h.activeHand, Chain.currentEpoch, h.dealer.epoch]
  apply Agree.bind_same
  rintro ⟨t, hand⟩ hactive
  simp only [h.dealerHand_active hcovers hactive]
  apply Agree.bind_same
  intro dh _
  split
  · exact abortHand_alike h tid hid
  · iterate 2 (apply Agree.bind_same; intro _ _)
    split
    · exact timeoutShuffle_alike hQ h hcovers block tid hid _ dh _
    · split
      · exact timeoutHoleShares_alike hQ h hcovers block tid hid t hand dh _
      · exact timeoutReveal_alike hQ h hcovers block tid hid hand dh _

theorem handleHand_alike (msg : HandMsg) :
    Agree (ChainAlike Q since live) (handleHand c block msg) (handleHand c' block msg) := by
  cases msg with
  | initHand lastBlockHash req => exact initHand_alike hQ h hcovers block lastBlockHash req
  | submitShuffle req | submitPubShare req =>
    simp only [handleHand, submitShuffle, submitPubShare, h.activeHand, h.handEpoch]
    iterate 4 (apply Agree.bind_same; intro _ _)
    apply Agree.bind_same
    intro th hactive
    simp only [h.dealerHand_active hcovers hactive]
    repeat (apply Agree.bind_same; intro _ _)
    exact h.setHand _ _ _
  | finalizeDeck req =>
    iterate 2 (apply Agree.bind_same; intro _ _)
    exact finalizeDeck_alike h hcovers block _ _
  | submitEncShare req => exact submitEncShare_alike h hcovers block req
  | finalizeReveal req =>
    iterate 2 (apply Agree.bind_same; intro _ _)
    exact finalizeReveal_alike h hcovers block _ _ _
  | timeout req =>
    iterate 2 (apply Agree.bind_same; intro _ _)
    exact timeoutHand_alike hQ h hcovers block _ _

omit hQ hcovers in
theorem handlePlayer_alike (msg : PlayerMsg env.poker)
    (hlate : ∀ block req, msg = .startHand block req → since ≤ block.height) :
    Agree (ChainAlike Q since live) (handle c (.player msg)) (handle c' (.player msg)) := by
  have hpoker := Poker.handle_alike h.poker msg.toPoker fun block req hmsg => by
    cases msg with
    | startHand => cases hmsg; exact hlate block req rfl
    | _ => cases hmsg
  apply Agree.bind hpoker.mapError
  intro poker poker' _ hafter
  exact h.setPoker hafter

end Hands

/-! ## The beacon beside the staking state -/

section Penalty

variable {keeper : StakingKeeper} {x y : keeper.withBeacon.Staking}

def SameStaking (x y : keeper.withBeacon.Staking) : Prop := x.1 = y.1

theorem applyPenalty_alike (h : SameStaking x y) (valoper : String) (height power : Int)
    (slashBps jailSeconds : Nat) (blockUnix : Int) :
    Agree SameStaking
      (applyPenalty keeper.withBeacon x valoper height power slashBps jailSeconds blockUnix)
      (applyPenalty keeper.withBeacon y valoper height power slashBps jailSeconds blockUnix) := by
  rw [applyPenalty_withBeacon, applyPenalty_withBeacon, show x.1 = y.1 from h]
  cases applyPenalty keeper y.1 valoper height power slashBps jailSeconds blockUnix with
  | error err => trivial
  | ok staking => rfl

end Penalty

section Beacon

variable {env : Env} {rand : Randomness env} {since : Int} {bound : Nat}

/-- No beacon, or a consumed one of an earlier epoch whose windows are closed. -/
def Spent (since : Int) (bound : Nat) (beacon : Option BeaconState) : Prop :=
  ∀ bs, beacon = some bs → bs.final ≠ [] ∧ bs.epochId < bound ∧
    bs.commitCloseHeight < since ∧ bs.revealCloseHeight < since

def BeaconAlike (since : Int) (bound : Nat) (x y : env.staking.withBeacon.Staking) :
    Prop :=
  SameStaking x y ∧ (x.2 = y.2 ∨ Spent since bound x.2 ∧ Spent since bound y.2)

theorem respectedBy_beaconAlike (rand : Randomness env) (since : Int) (bound : Nat) :
    RespectedBy (env.withBeacon rand) (BeaconAlike since bound) := by
  constructor
  · intro x y h
    exact congrArg env.staking.bondedValidatorsByPower h.1
  · intro x y h
    exact congrArg env.sampleBondedMemberSnapshotsByPower h.1
  · intro x y h valoper height power slashBps jailSeconds blockUnix
    apply (applyPenalty_alike h.1 valoper height power slashBps jailSeconds blockUnix).mono
    intro x' y' hx hy hsame
    refine ⟨hsame, ?_⟩
    rw [applyPenalty_beacon hx, applyPenalty_beacon hy]
    exact h.2

variable {beacon : Option BeaconState} {epochID : Nat} {block : Block}

theorem Spent.not_due (hspent : Spent since bound beacon) (hbound : bound ≤ epochID)
    (block : Block) :
    (beacon.any fun bs => bs.epochId = epochID ∧ block.height > bs.revealCloseHeight) = false := by
  cases beacon with
  | none => rfl
  | some bs =>
    obtain ⟨-, hepoch, -⟩ := hspent bs rfl
    have hne : bs.epochId ≠ epochID := by omega
    simp [hne]

theorem selectRandEpoch_alike {x y : env.staking.withBeacon.Staking}
    (h : BeaconAlike since bound x y) (hbound : bound ≤ epochID) (params : Params)
    (block : Block) (supplied : Bytes) :
    Agree (fun a b => a.1 = b.1 ∧ BeaconAlike since bound a.2 b.2)
      (selectRandEpoch rand x params block epochID supplied)
      (selectRandEpoch rand y params block epochID supplied) := by
  obtain ⟨hsame, hbeacon | ⟨hx, hy⟩⟩ := h
  · have hxy : x = y := Prod.ext hsame hbeacon
    subst hxy
    apply Agree.rfl.mono
    rintro a b - - rfl
    exact ⟨rfl, rfl, .inl rfl⟩
  · simp only [selectRandEpoch, hx.not_due hbound, hy.not_due hbound, Bool.false_eq_true, if_false]
    iterate 2 (apply Agree.bind_same; intro _ _)
    exact ⟨rfl, hsame, .inr ⟨hx, hy⟩⟩

theorem Spent.opens (hspent : Spent since bound beacon) (height : Int) :
    beacon.any (·.blocksOpening height) = false := by
  cases beacon with
  | none => rfl
  | some bs => simp [BeaconState.blocksOpening, (hspent bs rfl).1]

variable {live : Nat → Nat → Prop} {s s' : State (env.withBeacon rand)}

theorem Spent.rejects_commit (hspent : Spent since bound s.beacon)
    (hblock : since ≤ block.height) (req : MsgBeaconCommit) :
    ∀ s₁, beaconCommit s block req ≠ .ok s₁ := by
  intro s₁ hok
  simp only [beaconCommit, ok_iff] at hok
  obtain ⟨-, -, bs, hload, -, -, -, hopen, -⟩ := hok
  obtain ⟨-, -, hclosed, -⟩ := hspent bs (loadBeacon_ok hload).1
  omega

theorem Spent.rejects_reveal (hspent : Spent since bound s.beacon)
    (hblock : since ≤ block.height) (req : MsgBeaconReveal) :
    ∀ s₁, beaconReveal s block req ≠ .ok s₁ := by
  intro s₁ hok
  simp only [beaconReveal, ok_iff] at hok
  obtain ⟨-, -, bs, hload, -, -, -, hopen, -⟩ := hok
  obtain ⟨-, -, -, hclosed⟩ := hspent bs (loadBeacon_ok hload).1
  omega

variable (h : StateAlike (BeaconAlike since bound) live s s')
include h

theorem blocksOpening_alike (height : Int) :
    s.beacon.any (·.blocksOpening height) = s'.beacon.any (·.blocksOpening height) := by
  rcases h.staking.2 with hsame | ⟨hx, hy⟩
  · exact congrArg (Option.any (·.blocksOpening height)) hsame
  · exact (hx.opens height).trans (hy.opens height).symm

theorem StateAlike.setBeacon (bs : BeaconState) :
    StateAlike (BeaconAlike since bound) live (s.setBeacon bs) (s'.setBeacon bs) :=
  ⟨⟨h.staking.1, .inl rfl⟩, h.params, h.nextEpochId, h.epoch, h.dkg, h.hands⟩

theorem openBeacon_alike (block : Block) (epochID commitBlocks revealBlocks threshold : Nat) :
    Agree (StateAlike (BeaconAlike since bound) live)
      (openBeacon s block epochID commitBlocks revealBlocks threshold)
      (openBeacon s' block epochID commitBlocks revealBlocks threshold) := by
  simp only [openBeacon, blocksOpening_alike h]
  repeat (apply Agree.bind_same; intro _ _)
  exact h.setBeacon _

theorem maybeAutoOpenBeacon_alike (hbound : bound ≤ s'.nextEpochId) (block : Block) :
    StateAlike (BeaconAlike since bound) live (maybeAutoOpenBeacon s block)
      (maybeAutoOpenBeacon s' block) := by
  have hkept : (s.beacon.any fun bs => bs.epochId = s'.nextEpochId ∧
        (block.height < beaconStuckRecoveryHeight ∨ bs.final ≠ [])) =
      s'.beacon.any fun bs => bs.epochId = s'.nextEpochId ∧
        (block.height < beaconStuckRecoveryHeight ∨ bs.final ≠ []) := by
    rcases h.staking.2 with hsame | ⟨hx, hy⟩
    · exact congrArg (Option.any _) hsame
    · have hother : ∀ beacon, Spent since bound beacon →
          (beacon.any fun bs => bs.epochId = s'.nextEpochId ∧
            (block.height < beaconStuckRecoveryHeight ∨ bs.final ≠ [])) = false := by
        intro beacon hspent
        cases beacon with
        | none => rfl
        | some bs =>
          have hne : bs.epochId ≠ s'.nextEpochId := by
            have := (hspent bs rfl).2.1
            omega
          simp [hne]
      exact (hother _ hx).trans (hother _ hy).symm
  simp only [maybeAutoOpenBeacon, blocksOpening_alike h, h.dkg, h.nextEpochId, h.epoch, hkept]
  split
  · exact h
  · have hopen := openBeacon_alike h block s'.nextEpochId 0 0
      (max 2 ((s'.epoch.map DealerEpoch.threshold).getD 0))
    revert hopen
    cases openBeacon s block s'.nextEpochId 0 0 _ <;>
      cases openBeacon s' block s'.nextEpochId 0 0 _ <;> intro hopen
    · exact h
    · exact hopen.elim
    · exact hopen.elim
    · exact hopen

theorem beaconValidator_alike (validator : String) (wellFormed : Except Err Unit) :
    beaconValidator s validator wellFormed = beaconValidator s' validator wellFormed := by
  simp only [beaconValidator,
    h.requireActiveBondedCaller (respectedBy_beaconAlike rand since bound)]

theorem beaconCommit_alike (hblock : since ≤ block.height) (req : MsgBeaconCommit) :
    Agree (StateAlike (BeaconAlike since bound) live) (beaconCommit s block req)
      (beaconCommit s' block req) := by
  rcases h.staking.2 with hsame | ⟨hx, hy⟩
  · have hload : s.loadBeacon req.epochId = s'.loadBeacon req.epochId := by
      simp only [State.loadBeacon, State.beacon, hsame]
    simp only [beaconCommit, beaconValidator_alike h, hload]
    repeat (apply Agree.bind_same; intro _ _)
    exact h.setBeacon _
  · exact Agree.of_fails (Spent.rejects_commit hx hblock req) (Spent.rejects_commit hy hblock req)

theorem beaconReveal_alike (hblock : since ≤ block.height) (req : MsgBeaconReveal) :
    Agree (StateAlike (BeaconAlike since bound) live) (beaconReveal s block req)
      (beaconReveal s' block req) := by
  rcases h.staking.2 with hsame | ⟨hx, hy⟩
  · have hload : s.loadBeacon req.epochId = s'.loadBeacon req.epochId := by
      simp only [State.loadBeacon, State.beacon, hsame]
    simp only [beaconReveal, beaconValidator_alike h, hload]
    repeat (apply Agree.bind_same; intro _ _)
    exact h.setBeacon _
  · exact Agree.of_fails (Spent.rejects_reveal hx hblock req) (Spent.rejects_reveal hy hblock req)

theorem handleBeacon_alike (hbound : bound ≤ s'.nextEpochId)
    (hblock : since ≤ block.height) (msg : BeaconMsg) :
    Agree (StateAlike (BeaconAlike since bound) live) (handleBeacon s block msg)
      (handleBeacon s' block msg) := by
  cases msg with
  | openBeaconWindow req =>
    simp only [handleBeacon, openBeaconWindow,
      h.requireActiveBondedCaller (respectedBy_beaconAlike rand since bound)]
    iterate 2 (apply Agree.bind_same; intro _ _)
    exact openBeacon_alike h block _ _ _ _
  | beaconCommit req => exact beaconCommit_alike h hblock req
  | beaconReveal req => exact beaconReveal_alike h hblock req
  | beginBlock => exact maybeAutoOpenBeacon_alike h hbound block

/-- The message is in a block of at least this height, or reads no height. -/
def FullMsg.Since (since : Int) : FullMsg env → Prop
  | .player (.startHand block _) => since ≤ block.height
  | .player (.act block _) => since ≤ block.height
  | .player (.tick block _) => since ≤ block.height
  | .player _ => True
  | .dkg block _ => since ≤ block.height
  | .hand block _ => since ≤ block.height
  | .beacon block _ => since ≤ block.height
  | .otherStaking _ => True

omit h in
theorem handleFull_alike {c c' : Chain (env.withBeacon rand)}
    (h : ChainAlike (BeaconAlike since bound) since live c c') (hcovers : Covers live c)
    (hbound : bound ≤ c.dealer.nextEpochId) {m : FullMsg env} (hm : m.Since since) :
    Agree (ChainAlike (BeaconAlike since bound) since live) (handleFull c m) (handleFull c' m) := by
  have hQ := respectedBy_beaconAlike rand since bound
  rw [h.dealer.nextEpochId] at hbound
  cases m with
  | player msg =>
    apply handlePlayer_alike h
    rintro block req rfl
    exact hm
  | dkg block msg =>
    apply Agree.bind
    · apply handleDkg_alike hQ h.dealer
      exact fun supplied => selectRandEpoch_alike h.dealer.staking hbound _ block supplied
    intro s s' _ hs
    exact ⟨h.poker, hs⟩
  | hand block msg => exact handleHand_alike hQ h hcovers block msg
  | beacon block msg =>
    apply Agree.bind (handleBeacon_alike h.dealer hbound hm msg)
    intro s s' _ hs
    exact ⟨h.poker, hs⟩
  | otherStaking staking => exact ⟨h.poker, h.dealer.setStaking ⟨rfl, h.dealer.staking.2⟩⟩

end Beacon

end OnChainPoker.Dealer
