import OnChainPoker.Dealer.Daemon
import OnChainPoker.Dealer.Blame

/-!
# The daemon's commit on chain

The chain wants as many commitments as the threshold that the caller of `BeginEpoch` has
chosen.  The daemon sends as many as its own configuration says.
-/

namespace OnChainPoker.Dealer

open Foundation Crypto
open Poker (Block)

variable {S : Suite}

theorem checkCommitments_pointBytes (points : List S.Point) (i : Nat) :
    checkCommitments S i (points.map S.pointBytes) = .ok () := by
  induction points generalizing i with
  | nil => rfl
  | cons p points ih => simp [checkCommitments, S.pointBytes_length, Except.mapError, ih]

theorem checkEphemeralPubkey_pointBytes (p : S.Point) :
    checkEphemeralPubkey S (S.pointBytes p) = .ok () := by
  unfold checkEphemeralPubkey
  split
  · rfl
  · simp [S.pointBytes_length, Except.mapError]

theorem sameAddress_refl (a : String) : sameAddress a a = true := by simp [sameAddress]

def Daemon.fetch (daemon : Daemon S) (d : DealerDKG) : Daemon S :=
  { daemon with epochId := d.epochId, members := parseMembersFromEpoch d }

theorem handleDkgCommit_fetch {daemon : Daemon S} {d : DealerDKG} {m : DealerMember}
    (draws : Draws S) (hmember : m ∈ d.members) (hnamed : m.validator ≠ "")
    (hname : daemon.validatorAddress = m.validator)
    (hfresh : daemon.store.lookup d.epochId = none) :
    ∃ points : List S.Point, points.length = daemon.threshold ∧ ∃ pk saves,
      handleDkgCommit (daemon.fetch d) draws =
        [⟨.dkgCommit ⟨m.validator, d.epochId, points.map S.pointBytes, S.pointBytes pk⟩,
          saves⟩] := by
  have hsome : ((parseMembersFromEpoch d).find?
      (sameAddress ·.validator daemon.validatorAddress)).isSome = true := by
    rw [List.find?_isSome]
    refine ⟨m, List.mem_filter.mpr ⟨hmember, by simpa using hnamed⟩, ?_⟩
    rw [hname]
    exact sameAddress_refl m.validator
  obtain ⟨mine, hmine⟩ := Option.isSome_iff_exists.mp hsome
  let polyCoeffs : List S.Scalar := (List.range daemon.threshold).map (draws ·)
  refine ⟨polyCoeffs.map S.mulBase, by simp [polyCoeffs], S.mulBase (draws daemon.threshold), some
    (d.epochId, ⟨mine.index, polyCoeffs, draws daemon.threshold⟩), ?_⟩
  rw [List.map_map, ← hname]
  simp only [handleDkgCommit, Daemon.fetch, hfresh, hmine]
  rfl

variable {env : Env}

theorem dkgCommit_isOk_iff {s : State env} {block : Block} {d : DealerDKG} {m : DealerMember}
    {account : env.staking.ValAddr} {points : List env.suite.Point} {pk : env.suite.Point}
    (hdkg : s.dkg = some d) (hmember : m ∈ d.members) (hnamed : m.validator ≠ "")
    (haccount : env.staking.valAddressFromBech32 m.validator = .ok account)
    (hopen : block.height ≤ d.commitDeadline)
    (hnew : ∀ commit ∈ d.commits, commit.dealer ≠ m.validator) :
    (dkgCommit s block ⟨m.validator, d.epochId, points.map env.suite.pointBytes,
      env.suite.pointBytes pk⟩).isOk = true ↔ points.length = d.threshold := by
  have haddress : requireValAddress env m.validator "dealer" = .ok () := by
    simp [requireValAddress, haccount]
  have hfound : (findDKGMember d m.validator).isNone = false := by
    simpa [findDKGMember, findMember, hnamed] using ⟨m, hmember, rfl⟩
  have hfirst : (findDKGCommit d m.validator).isSome = false := by
    simpa [findDKGCommit, hnamed] using hnew
  rw [isOk_iff]
  simp only [dkgCommit, haddress, loadDKG_of hdkg, ok_bind, ok_iff, hfound, hfirst,
    checkCommitments_pointBytes, checkEphemeralPubkey_pointBytes]
  constructor
  · rintro ⟨s', -, -, -, -, -, -, -, -, -, hlength, -⟩
    simpa using hlength
  · intro hlength
    exact ⟨_, (), hnamed, (), not_lt.mpr hopen, (), by simp, (), by simp, (),
      by simpa using hlength, rfl⟩

/-- After every run and before the commit deadline, a member that has not committed yet
sends one commit; the chain accepts it exactly if the threshold of the member's
configuration is the threshold of the DKG. -/
theorem daemon_dkgCommit_accepted_iff (env : Env) (balances : env.poker.bank.Balances)
    (staking : env.staking.Staking) (params : Params) (messages : List (Msg env))
    (block : Block) (daemon : Daemon env.suite) (draws : Draws env.suite)
    {d : DealerDKG} {m : DealerMember} {account : env.staking.ValAddr}
    (hdkg : (run handle (Chain.genesis env balances staking params)
      messages).dealer.dkg = some d)
    (hmember : m ∈ d.members) (hname : daemon.validatorAddress = m.validator)
    (haccount : env.staking.valAddressFromBech32 m.validator = .ok account)
    (hfresh : daemon.store.lookup d.epochId = none)
    (hopen : block.height ≤ d.commitDeadline)
    (hnew : ∀ commit ∈ d.commits, commit.dealer ≠ m.validator) :
    ∃ tx, handleDkgCommit (daemon.fetch d) draws = [tx] ∧
      ((handle (run handle (Chain.genesis env balances staking params) messages)
        (.dkg block tx.msg)).isOk = true ↔ daemon.threshold = d.threshold) := by
  have hreach := reachable_run balances staking params messages
  have hrecord := (reachable_dealerSound hreach).record d hdkg
  have hnamed := hrecord.committee.named m hmember
  obtain ⟨points, hlength, pk, saves, hsent⟩ :=
    handleDkgCommit_fetch draws hmember hnamed hname hfresh
  refine ⟨_, hsent, ?_⟩
  rw [← hlength, ← dkgCommit_isOk_iff hdkg hmember hnamed haccount hopen hnew]
  simp only [isOk_iff, handle, handleDkg, ok_iff]
  constructor
  · rintro ⟨c', dealer, hdealer, -⟩
    exact ⟨dealer, hdealer⟩
  · rintro ⟨dealer, hdealer⟩
    exact ⟨_, dealer, hdealer, rfl⟩

def commitDaemon (threshold : Nat) : Daemon residueSuite :=
  Daemon.start residueSuite "A" threshold

def unitDraws : Draws residueSuite := fun _ => ⟨1, by decide⟩

def twoCommitRun : List (Msg residueEnv) :=
  [beginEpochMsg 3, dkgCommitMsg "B" 5 2, dkgCommitMsg "C" 7 4]

theorem twoCommitRun_accepts_daemon :
    ∃ d ∈ (run handle residueGenesis twoCommitRun).dealer.dkg, ∃ tx,
      handleDkgCommit ((commitDaemon 2).fetch d) unitDraws = [tx] ∧
        (handle (run handle residueGenesis twoCommitRun) (dkgMsgAt 2 tx.msg)).isOk =
          true := by
  have hfacts : ∃ d ∈ (run handle residueGenesis twoCommitRun).dealer.dkg,
      d.threshold = 2 ∧ 2 ≤ d.commitDeadline ∧
        (∀ commit ∈ d.commits, commit.dealer ≠ "A") ∧
        ∃ m ∈ d.members, m.validator = "A" := by
    decide +kernel
  obtain ⟨d, hd, hthreshold, hopen, hnew, m, hm, hname⟩ := hfacts
  obtain ⟨tx, hsent, hiff⟩ := daemon_dkgCommit_accepted_iff residueEnv (0 : Nat) ()
    residueParams twoCommitRun ⟨2, 1000, by decide, by decide⟩ (commitDaemon 2) unitDraws
    hd hm hname.symm rfl rfl hopen (hname ▸ hnew)
  exact ⟨d, hd, tx, hsent, hiff.mpr hthreshold.symm⟩

/-- The first member is configured for a threshold of three, the DKG has two: its commit
is rejected, and at the end of the window it is slashed. -/
theorem twoCommitRun_rejects_daemon :
    (∃ d ∈ (run handle residueGenesis twoCommitRun).dealer.dkg,
      (handleDkgCommit ((commitDaemon 3).fetch d) unitDraws).length = 1 ∧
      ∀ tx ∈ handleDkgCommit ((commitDaemon 3).fetch d) unitDraws,
        (handle (run handle residueGenesis twoCommitRun)
          (dkgMsgAt 2 tx.msg)).isOk = false) ∧
    ∃ d ∈ (run handle residueGenesis
      (twoCommitRun ++ [dkgMsgAt 3 (.dkgTimeout ⟨"B", 1⟩)])).dealer.dkg,
      d.slashed = ["A"] := by
  decide +kernel

end OnChainPoker.Dealer
