import OnChainPoker.Dealer.BeaconAccounts

/-!
# When a closed beacon makes way

On a production chain above the recovery height, a beacon whose reveal window has closed
should be consumed by the next `BeginEpoch` or replaced at the beginning of the next
block.  A beacon with enough reveals is never replaced, so it blocks all others when it
is for another epoch, or when a penalty for a missing reveal does not go through.
-/

namespace OnChainPoker.Dealer

open Foundation Crypto
open Poker (Block addInt64AndU64Checked maxInt64)

variable {env : Env} {rand : Randomness env}

/-! ## The two ways out -/

def Consumable (s : State (env.withBeacon rand)) (block : Block) : Prop :=
  ∃ bs, s.beacon = some bs ∧ bs.epochId = s.nextEpochId ∧
    ∀ supplied, (selectRandEpoch rand s.staking s.params block s.nextEpochId
      supplied).isOk = true

def Replaced (s : State (env.withBeacon rand)) (block : Block) : Prop :=
  ∃ bs, (maybeAutoOpenBeacon s block).beacon = some bs ∧ bs.epochId = s.nextEpochId ∧
    bs.commitOpenHeight = block.height ∧ block.height < bs.commitCloseHeight ∧
    bs.commitCloseHeight < bs.revealCloseHeight ∧ bs.final = []

def BeaconState.Complete (bs : BeaconState) : Prop :=
  bs.final = [] ∧ bs.threshold ≤ bs.reveals.length

instance (bs : BeaconState) : Decidable bs.Complete :=
  inferInstanceAs (Decidable (bs.final = [] ∧ bs.threshold ≤ bs.reveals.length))

def AcceptsPenalties (s : State (env.withBeacon rand)) (block : Block) (bs : BeaconState) :
    Prop :=
  (penaliseMissingReveals rand s.params block s.staking.1
    (beaconMissingReveals bs)).isOk = true

/-! ## Consuming -/

theorem revealedSalts_isOk (seen : List String) {reveals : List BeaconRevealEntry}
    (hnamed : ∀ r ∈ reveals, r.validator ≠ "")
    (hsalts : ∀ r ∈ reveals, r.salt.length = Committee.beaconSaltBytes)
    (hdistinct : (reveals.map BeaconRevealEntry.validator).Nodup)
    (hseen : ∀ r ∈ reveals, r.validator ∉ seen) :
    ∃ salts, Committee.revealedSalts seen reveals = .ok salts := by
  induction reveals generalizing seen with
  | nil => exact ⟨[], rfl⟩
  | cons r rest ih =>
    rw [List.map_cons, List.nodup_cons] at hdistinct
    have hunseen : ∀ r' ∈ rest, r'.validator ∉ r.validator :: seen := by
      intro r' hr'
      rw [List.mem_cons, not_or]
      refine ⟨fun hsame => ?_, hseen r' (by simp [hr'])⟩
      exact hdistinct.1 (hsame ▸ List.mem_map_of_mem hr')
    obtain ⟨salts, hrest⟩ := ih (r.validator :: seen)
      (fun r' hr' => hnamed r' (by simp [hr'])) (fun r' hr' => hsalts r' (by simp [hr']))
      hdistinct.2 hunseen
    refine ⟨r.salt :: salts, ?_⟩
    simp only [Committee.revealedSalts, ok_iff]
    exact ⟨(), hnamed r (by simp), (), hseen r (by simp), (),
      not_not.mpr (hsalts r (by simp)), salts, hrest, rfl⟩

variable {genesis : Chain (env.withBeacon rand)} {log : List (FullMsg env)} {next : Nat}
  {bs : BeaconState} {params : Params} {staking : env.staking.Staking}

theorem BeaconValid.final_isSome_iff (sha256 : Bytes → Bytes) (chainID : String)
    (epochID threshold : Nat) (hvalid : BeaconValid genesis log next bs) :
    ∃ result, Committee.final sha256 chainID epochID bs.reveals threshold = .ok result ∧
      (result.isSome = true ↔ threshold ≤ bs.reveals.length) := by
  obtain ⟨salts, hsalts⟩ := revealedSalts_isOk [] hvalid.named hvalid.salts
    hvalid.distinct (by simp)
  have hlength : salts.length = bs.reveals.length := by
    rw [revealedSalts_eq hsalts, List.length_map]
  simp only [Committee.final, hsalts, ok_bind]
  split
  · refine ⟨none, rfl, ?_⟩
    simp only [Option.isSome_none, Bool.false_eq_true, false_iff]
    omega
  · refine ⟨some _, rfl, ?_⟩
    simp only [Option.isSome_some, true_iff]
    omega

theorem consumeBeacon_isOk_iff (hprod : Committee.isDevnetChainID rand.chainId = false)
    (hvalid : BeaconValid genesis log next bs) {block : Block}
    (hclosed : bs.revealCloseHeight < block.height) :
    (consumeBeacon rand params block staking bs).isOk = true ↔ bs.threshold ≤ bs.reveals.length ∧
        (penaliseMissingReveals rand params block staking
          (beaconMissingReveals bs)).isOk = true := by
  obtain ⟨result, hfinal, hsome⟩ := hvalid.final_isSome_iff rand.sha256 rand.chainId
    bs.epochId bs.threshold
  rw [isOk_iff, isOk_iff]
  simp only [consumeBeacon, ok_iff, not_le, hfinal]
  cases result with
  | some value =>
    have henough := hsome.mp rfl
    simp [hclosed, henough]
  | none =>
    have hbelow : ¬ bs.threshold ≤ bs.reveals.length := fun h => by
      simpa using hsome.mpr h
    simp [hbelow, hprod]

section Ways

variable {genesis : Chain (env.withBeacon rand)} {log : List (FullMsg env)}
  {s : State (env.withBeacon rand)} {block : Block} {bs : BeaconState}

theorem selectRandEpoch_closed (hbs : s.beacon = some bs)
    (hclosed : bs.revealCloseHeight < block.height) (supplied : Bytes) :
    selectRandEpoch rand s.staking s.params block bs.epochId supplied =
      consumeBeacon rand s.params block s.staking.1 bs := by
  have hstored : s.staking.2 = some bs := hbs
  simp [selectRandEpoch, consumeBeaconForEpoch, hstored, hclosed, Option.filter]

variable (hprod : Committee.isDevnetChainID rand.chainId = false)
include hprod

theorem consumable_iff (hvalid : BeaconValid genesis log s.nextEpochId bs)
    (hbs : s.beacon = some bs) (hclosed : bs.revealCloseHeight < block.height) :
    Consumable s block ↔ bs.Complete ∧ bs.epochId = s.nextEpochId ∧
      AcceptsPenalties s block bs := by
  constructor
  · rintro ⟨stored, hstored, hid, hdrawn⟩
    cases hbs.symm.trans hstored
    have hok := hdrawn []
    rw [← hid, selectRandEpoch_closed hbs hclosed,
      consumeBeacon_isOk_iff hprod hvalid hclosed] at hok
    refine ⟨⟨?_, hok.1⟩, hid, hok.2⟩
    -- A consumed beacon is for an earlier epoch.
    by_contra hfinal
    exact (hvalid.consumed hfinal).ne hid
  · rintro ⟨hcomplete, hid, hpenalties⟩
    refine ⟨bs, hbs, hid, fun supplied => ?_⟩
    rw [← hid, selectRandEpoch_closed hbs hclosed, consumeBeacon_isOk_iff hprod hvalid hclosed]
    exact ⟨hcomplete.2, hpenalties⟩

theorem beaconWindow_production (name : String) : beaconWindow rand.chainId name 0 = .ok 50 := by
  simp [beaconWindow, beaconDefaultWindow, hprod, beaconMaxWindowBlocks]

theorem openBeacon_auto (hnext : s.nextEpochId ≠ 0)
    (hfree : s.beacon.any (·.blocksOpening block.height) = false) {threshold : Nat}
    (hthreshold : 2 ≤ threshold) :
    (block.height + 100 ≤ maxInt64 → openBeacon s block s.nextEpochId 0 0 threshold =
      .ok (s.setBeacon ⟨s.nextEpochId, block.height, block.height + 50,
        block.height + 50 + 50, threshold, [], [], [], false⟩)) ∧
    (maxInt64 < block.height + 100 →
      ∃ err, openBeacon s block s.nextEpochId 0 0 threshold = .error err) := by
  have hmax : (100 : Int) < maxInt64 := by decide
  constructor
  · intro hfits
    have hcommit : addInt64AndU64Checked block.height 50 "beacon commit_close_height" =
        .ok (block.height + 50) := by
      unfold addInt64AndU64Checked
      rw [if_neg (by push_cast; omega), if_neg (by push_cast; omega)]
      rfl
    have hreveal : addInt64AndU64Checked (block.height + 50) 50
        "beacon reveal_close_height" = .ok (block.height + 50 + 50) := by
      unfold addInt64AndU64Checked
      rw [if_neg (by push_cast; omega), if_neg (by push_cast; omega)]
      rfl
    simp only [openBeacon, beaconWindow_production hprod, ok_iff, not_lt, Bool.not_eq_true]
    exact ⟨(), hnext, (), hfree, 50, rfl, 50, rfl, (), hthreshold, _, hcommit, _, hreveal, rfl⟩
  · intro hover
    cases hopen : openBeacon s block s.nextEpochId 0 0 threshold with
    | error err => exact ⟨err, rfl⟩
    | ok s' =>
      exfalso
      simp only [openBeacon, beaconWindow_production hprod, ok_iff, Except.ok.injEq] at hopen
      obtain ⟨-, -, -, -, _, rfl, _, rfl, -, -, commitClose, hcommit, revealClose,
        hreveal, -⟩ := hopen
      have hclose := Poker.addInt64AndU64Checked_ok hcommit
      unfold addInt64AndU64Checked at hreveal
      split at hreveal
      · cases hreveal
      · split at hreveal
        · cases hreveal
        · push_cast at *
          omega

theorem replaced_iff (hrecovery : beaconStuckRecoveryHeight ≤ block.height)
    (hvalid : BeaconValid genesis log s.nextEpochId bs) (hbs : s.beacon = some bs)
    (hclosed : bs.revealCloseHeight < block.height) (hdkg : s.dkg = none)
    (hnext : s.nextEpochId ≠ 0) :
    Replaced s block ↔ ¬ bs.Complete ∧ block.height + 100 ≤ maxInt64 := by
  have hblocks : bs.blocksOpening block.height = true ↔ bs.Complete := by
    simp [BeaconState.blocksOpening, BeaconState.Complete, not_le.mpr hclosed, not_lt.mpr hrecovery]
  have hkept : maybeAutoOpenBeacon s block = s → ¬ Replaced s block := by
    rintro hsame ⟨bs', hbs', -, -, hopen, hlater, -⟩
    rw [hsame] at hbs'
    cases hbs.symm.trans hbs'
    omega
  by_cases hcomplete : bs.Complete
  · have hsame : maybeAutoOpenBeacon s block = s := by
      unfold maybeAutoOpenBeacon
      rw [if_pos (.inl (by rw [hbs]; exact hblocks.mpr hcomplete))]
    simp [hkept hsame, hcomplete]
  · have hfree : s.beacon.any (·.blocksOpening block.height) = false := by
      rw [hbs, Option.any_some, Bool.eq_false_iff]
      exact fun h => hcomplete (hblocks.mp h)
    have hother : (s.beacon.any fun bs => bs.epochId = s.nextEpochId ∧
        (block.height < beaconStuckRecoveryHeight ∨ bs.final ≠ [])) = false := by
      rw [hbs, Option.any_some, decide_eq_false_iff_not]
      rintro ⟨hid, hlow | hfinal⟩
      · omega
      · exact (hvalid.consumed hfinal).ne hid
    obtain ⟨hfits, hover⟩ := openBeacon_auto hprod hnext hfree
      (le_max_left 2 ((s.epoch.map DealerEpoch.threshold).getD 0))
    have hauto := show maybeAutoOpenBeacon s block = _ from if_neg (by
      rw [hfree, hother, hdkg]
      simpa using hnext)
    dsimp only at hauto
    by_cases hrange : block.height + 100 ≤ maxInt64
    · rw [hfits hrange] at hauto
      refine iff_of_true ⟨_, by rw [hauto]; rfl, rfl, rfl, ?_, ?_, rfl⟩ ⟨hcomplete, hrange⟩
      · exact Int.lt_add_of_pos_right _ (by decide)
      · exact Int.lt_add_of_pos_right _ (by decide)
    · obtain ⟨err, herr⟩ := hover (not_le.mp hrange)
      rw [herr] at hauto
      exact iff_of_false (hkept hauto) fun h => hrange h.2

end Ways

theorem reachable_nextEpoch {balances : env.poker.bank.Balances} {c : Chain (env.withBeacon rand)}
    (hreach : Reaches handleFull (fullGenesis rand balances staking params) log c) :
    0 < c.dealer.nextEpochId :=
  (reaches_nextEpochId (genesis_sound _ _ _) hreach).2

/-- After every run, a closed beacon on a production chain above the recovery height can
be consumed or is replaced exactly when it is for the next epoch and its penalties are
accepted, if it is complete, and while the heights are in range, if it is not. -/
theorem beacon_makes_way_iff (env : Env) (rand : Randomness env)
    (balances : env.poker.bank.Balances) (staking : env.staking.Staking) (params : Params)
    (messages : List (FullMsg env)) (block : Block) {bs : BeaconState}
    (hprod : Committee.isDevnetChainID rand.chainId = false)
    (hrecovery : beaconStuckRecoveryHeight ≤ block.height)
    (hdkg : (run handleFull (fullGenesis rand balances staking params)
      messages).dealer.dkg = none)
    (hbs : (run handleFull (fullGenesis rand balances staking params)
      messages).dealer.beacon = some bs)
    (hclosed : bs.revealCloseHeight < block.height) :
    let s := (run handleFull (fullGenesis rand balances staking params) messages).dealer
    (Consumable s block ∨ Replaced s block) ↔
      if bs.Complete then bs.epochId = s.nextEpochId ∧ AcceptsPenalties s block bs
      else block.height + 100 ≤ maxInt64 := by
  intro s
  have hreach : Reaches handleFull (fullGenesis rand balances staking params) _
      (run handleFull (fullGenesis rand balances staking params) messages) :=
    reaches_run messages
  have hvalid := reachable_beaconValid hreach bs hbs
  have hnext := (reachable_nextEpoch hreach).ne'
  rw [consumable_iff hprod hvalid hbs hclosed,
    replaced_iff hprod hrecovery hvalid hbs hclosed hdkg hnext]
  by_cases hcomplete : bs.Complete
  · rw [if_pos hcomplete, and_iff_right hcomplete]
    exact or_iff_left fun h => h.1 hcomplete
  · rw [if_neg hcomplete, and_iff_right hcomplete]
    exact or_iff_right fun h => hcomplete h.1

def lateWindowRun (epochId : Nat) : List (FullMsg spellingEnv) :=
  [beaconMsgAt 1036000 (.openBeaconWindow ⟨"ocp1aaa", epochId, 5, 5, 2⟩),
    beaconMsgAt 1036001 (.beaconCommit ⟨"ocp1aaa", epochId, List.replicate 32 1⟩),
    beaconMsgAt 1036001 (.beaconCommit ⟨"ocp1bbb", epochId, List.replicate 32 2⟩),
    beaconMsgAt 1036006 (.beaconReveal ⟨"ocp1aaa", epochId, List.replicate 32 1⟩),
    beaconMsgAt 1036006 (.beaconReveal ⟨"ocp1bbb", epochId, List.replicate 32 2⟩)]

def lateWindowBeacon (epochId : Nat) : BeaconState :=
  ⟨epochId, 1036000, 1036005, 1036010, 2,
    [⟨"ocp1aaa", List.replicate 32 1⟩, ⟨"ocp1bbb", List.replicate 32 2⟩],
    [⟨"ocp1aaa", List.replicate 32 1⟩, ⟨"ocp1bbb", List.replicate 32 2⟩], [], false⟩

theorem lateWindowRun_makes_way :
    Consumable (run handleFull spellingGenesis (lateWindowRun 1)).dealer
        ⟨1036011, 1000, by decide, by decide⟩ ∨
      Replaced (run handleFull spellingGenesis (lateWindowRun 1)).dealer
        ⟨1036011, 1000, by decide, by decide⟩ := by
  have hway := beacon_makes_way_iff spellingEnv spellingRandomness (0 : Nat) ()
    residueParams (lateWindowRun 1) ⟨1036011, 1000, by decide, by decide⟩
    (by decide +kernel) (by decide) (by decide +kernel)
    (by decide +kernel : _ = some (lateWindowBeacon 1)) (by decide)
  apply hway.mpr
  exact ⟨by decide +kernel, by unfold AcceptsPenalties; decide +kernel⟩

/-- The window was opened for the epoch after the next: it is in the way for ever. -/
theorem lateWindowRun_wedged :
    (run handleFull spellingGenesis (lateWindowRun 2)).dealer.dkg = none ∧
      (run handleFull spellingGenesis (lateWindowRun 2)).dealer.beacon = some (lateWindowBeacon 2) ∧
      ∀ block : Block, (lateWindowBeacon 2).revealCloseHeight < block.height →
        ¬ Consumable (run handleFull spellingGenesis (lateWindowRun 2)).dealer block ∧
          ¬ Replaced (run handleFull spellingGenesis (lateWindowRun 2)).dealer block := by
  have hdkg : (run handleFull spellingGenesis (lateWindowRun 2)).dealer.dkg = none := by
    decide +kernel
  have hbs : (run handleFull spellingGenesis (lateWindowRun 2)).dealer.beacon =
      some (lateWindowBeacon 2) := by
    decide +kernel
  have hnext : (run handleFull spellingGenesis (lateWindowRun 2)).dealer.nextEpochId = 1 := by
    decide +kernel
  have hprod : Committee.isDevnetChainID spellingRandomness.chainId = false := by
    decide +kernel
  have hreach : Reaches handleFull spellingGenesis _
      (run handleFull spellingGenesis (lateWindowRun 2)) := reaches_run (lateWindowRun 2)
  have hvalid := reachable_beaconValid hreach _ hbs
  refine ⟨hdkg, hbs, fun block hclosed => ⟨?_, ?_⟩⟩
  · rw [consumable_iff hprod hvalid hbs hclosed, hnext]
    exact fun h => absurd h.2.1 (by decide)
  · have hrecovery : beaconStuckRecoveryHeight ≤ block.height := by
      apply le_trans _ hclosed.le
      decide
    rw [replaced_iff hprod hrecovery hvalid hbs hclosed hdkg
      (reachable_nextEpoch hreach).ne']
    exact fun h => h.1 (by decide +kernel)

end OnChainPoker.Dealer
