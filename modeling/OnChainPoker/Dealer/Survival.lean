import OnChainPoker.Dealer.Evidence
import OnChainPoker.Dealer.Penalties

/-!
# A dealer that keeps to the protocol

In version one a dealer answers complaints with reveals.  A member whose commit is on
record, whose signed shares agree with it, whose encrypted shares open and who reveals
what it is asked for is not slashed, provided that its commit was there before anyone
showed a share message it signed: commits and complaints overlap at the commit
deadline, and a complaint that finds no commit convicts.
-/

namespace OnChainPoker.Dealer

open Foundation Crypto
open Poker (Block)

variable {env : Env} {v : String} {d : DealerDKG}

/-! ## Honest dealers -/

/-- The share messages that the validator has signed agree with its commitments, and
the shares it has posted open under the key of their recipient. -/
def HonestTowards (v : String) (s : Chain env × Int) : Msg env → Prop
  | .dkg _ (.dkgComplaintInvalid req) => req.dealer = v →
      ∀ d, s.1.dealer.dkg = some d → ∀ sm recipient,
        SignedShare env.suite d req.complainer req.dealer req.shareMsg sm recipient →
        ∀ commit, findDKGCommit d v = some commit →
          dkgVerifyShare env.suite commit.commitments recipient.index sm.share ≠ .ok false
  | .dkg _ (.dkgComplaintAEADBad req) => req.dealer = v →
      ∀ d, s.1.dealer.dkg = some d → ∀ es pkR u p dh,
        ProvedPoint env.suite d req es pkR u p dh →
        ∀ sk, env.suite.mulBase sk = pkR →
          adjudicate env.suite (sk • u) p es = .aeadSpurious
  | _ => True

/-- Nobody shows a share message of the validator before its commit is on record, the
validator files no complaint that is decided against it, and proved points are the
ones of the recipient's key. -/
def InOrder (v : String) (s : Chain env × Int) : Msg env → Prop
  | .dkg _ (.dkgComplaintInvalid req) => req.dealer = v →
      ∀ d, s.1.dealer.dkg = some d → ∀ sm recipient,
        SignedShare env.suite d req.complainer req.dealer req.shareMsg sm recipient →
        (findDKGCommit d v).isSome
  | .dkg _ (.dkgComplaintAEADBad req) =>
    ∀ d, s.1.dealer.dkg = some d → ∀ es pkR u p dh,
      ProvedPoint env.suite d req es pkR u p dh →
      (req.complainer = v → adjudicate env.suite dh p es = .aeadBad) ∧
      (req.dealer = v → ∃ sk, env.suite.mulBase sk = pkR ∧ dh = sk • u)
  | _ => True

structure FairStep (v : String) (s : Chain env × Int) (msg : Msg env) : Prop where
  grow : HeightsGrow s msg
  honest : HonestTowards v s msg
  inOrder : InOrder v s msg

/-! ## While the DKG is in flight -/

def Spared (v : String) (d : DealerDKG) (clock : Int) : Prop :=
  v ∈ d.slashed → findDKGCommit d v = none ∧ d.commitDeadline < clock

section Step

variable {v : String} {s : Chain env × Int} {block : Block} {m : DkgMsg} {d d' : DealerDKG}

theorem FairStep.unconvicted (hfair : FairStep v s (.dkg block m)) (hd : s.1.dealer.dkg = some d)
    (hstep : RecordStep env s.1.dealer.params block.height d m d') (hv : v ∈ d'.slashed) :
    v ∈ d.slashed ∨ findDKGCommit d v = none ∧ d.commitDeadline < block.height := by
  cases hstep with
  | @invalid req _ sm recipient _ hsigned hconvicts hslashes =>
    obtain ⟨slashed, rfl, -, hmem⟩ := hslashes
    rcases (hmem v).mp hv with hguilty | hold
    · have hsome := hfair.inOrder hguilty.symm d hd sm recipient hsigned
      obtain ⟨commit, hcommit⟩ := Option.isSome_iff_exists.mp hsome
      have hagrees := hfair.honest hguilty.symm d hd sm recipient hsigned commit hcommit
      rw [hguilty] at hcommit
      rcases hconvicts with hnone | ⟨commit', hcommit', hverify⟩
      · rw [hnone] at hcommit
        cases hcommit
      · cases hcommit.symm.trans hcommit'
        exact absurd hverify hagrees
    · exact .inl hold
  | @aeadBad req _ es pkR u p dh _ hproved hslashes =>
    obtain ⟨slashed, rfl, -, hmem⟩ := hslashes
    obtain ⟨hfiled, htrue⟩ := hfair.inOrder d hd es pkR u p dh hproved
    rcases (hmem v).mp hv with hguilty | hold
    · rcases adjudicate_eq dh p es with hbad | hspurious
      · rw [hbad] at hguilty
        obtain ⟨sk, hsk, rfl⟩ := htrue hguilty.symm
        have hopens := hfair.honest hguilty.symm d hd es pkR u p _ hproved sk hsk
        rw [hbad] at hopens
        cases hopens
      · rw [hspurious] at hguilty
        rw [hfiled hguilty.symm] at hspurious
        cases hspurious
    · exact .inl hold
  | timeout htime hslashes =>
    obtain ⟨slashed, rfl, -, hmem⟩ := hslashes
    rcases (hmem v).mp hv with ⟨mem, -, hnone, rfl⟩ | hold
    · exact .inr ⟨hnone, htime⟩
    · exact .inl hold
  | _ => exact .inl hv

theorem FairStep.spared (hfair : FairStep v s (.dkg block m)) (hd : s.1.dealer.dkg = some d)
    (hspared : Spared v d s.2) (hstep : RecordStep env s.1.dealer.params block.height d m d') :
    Spared v d' block.height := by
  intro hv
  have hclock : s.2 ≤ block.height := hfair.grow
  have hlate : findDKGCommit d v = none ∧ d.commitDeadline < block.height := by
    rcases hfair.unconvicted hd hstep hv with hold | hmissing
    · exact ⟨(hspared hold).1, (hspared hold).2.trans_le hclock⟩
    · exact hmissing
  cases hstep with
  | commit _ _ _ htime _ => exact absurd hlate.2 (not_lt.mpr htime)
  | invalid _ _ _ hslashes | aeadBad _ _ hslashes | timeout _ hslashes =>
    obtain ⟨slashed, rfl, -, -⟩ := hslashes
    exact hlate
  | _ => exact hlate

end Step

structure SparedState (v : String) (params : Params) (s : Chain env × Int) : Prop where
  sound : DealerSound s.1.dealer
  params : s.1.dealer.params = params
  spared : ∀ d, s.1.dealer.dkg = some d → Spared v d s.2

variable {params : Params} {s : Chain env × Int} {row : DealerDKGComplaint} {height : Int}
  {epochId : Nat} {complainer dealer : String} {d' : DealerDKG} {block : Block}
  {commit : DealerDKGCommit}

theorem SparedState.handleAt {s' : Chain env × Int} {msg : Msg env} (hfair : FairStep v s msg)
    (hinv : SparedState v params s) (hok : handleAt s msg = .ok s') : SparedState v params s' := by
  have hsound := handle_sound hinv.sound (withHistory_ok hok).1
  rcases handleAt_cases hok with ⟨block, m, dealer, rfl, hdealer, rfl⟩ | ⟨hsame, hclock⟩
  · refine ⟨hsound, ?_, fun d' hd' => ?_⟩
    · rw [← hinv.params]
      cases dkg_effect hinv.sound hdealer with
      | begun _ _ | moved _ _ | aborted _ | finalised _ _ _ _ => rfl
    · cases dkg_effect hinv.sound hdealer with
      | begun _ hfresh =>
        cases hd'
        intro hv
        rw [hfresh.slashed] at hv
        cases hv
      | moved hd _ =>
        cases hd'
        exact hfair.spared hd (hinv.spared _ hd) (handleDkg_record hinv.sound hd hdealer rfl)
      | aborted _ | finalised _ _ _ _ => cases hd'
  · refine ⟨hsound, hsame.params.trans hinv.params, ?_⟩
    rw [hsame.dkg, hclock]
    exact hinv.spared

theorem run_spared {balances : env.poker.bank.Balances} {staking : env.staking.Staking}
    {start : Int} {messages : List (Msg env)} (hfair : StepsMeet handleAt (FairStep v)
      (Chain.genesis env balances staking params, start) messages) :
    SparedState v params
      (run handleAt (Chain.genesis env balances staking params, start) messages) := by
  apply run_invariant_of_steps (SparedState v params) hfair
  · exact ⟨genesis_sound env staking params, rfl, fun _ h => (nomatch h)⟩
  · intro s msg s' hstep hinv hok
    exact hinv.handleAt hstep hok

/-! ## Reveals answer complaints -/

structure RevealsVerified (S : Suite) (d : DealerDKG) : Prop where
  once : (d.commits.map (·.dealer)).Nodup
  verified : ∀ row ∈ d.reveals, ∃ commit ∈ d.commits, commit.dealer = row.dealer ∧
    ∃ mem ∈ d.members, mem.validator = row.recipient ∧
      dkgVerifyShare S commit.commitments mem.index row.share = .ok true

theorem findDKGCommit_none (hv : v ≠ "") (hnone : findDKGCommit d v = none) :
    v ∉ d.commits.map (·.dealer) := by
  intro hmem
  obtain ⟨row, hrow, rfl⟩ := List.mem_map.mp hmem
  have hsome := findDKGCommit_isSome hrow hv
  rw [hnone] at hsome
  cases hsome

theorem exists_setEphemeralPubkey {valoper : String} {key : Bytes} {members : List DealerMember}
    {P : String → Nat → Prop} (h : ∃ m ∈ members, P m.validator m.index) :
    ∃ m ∈ setEphemeralPubkey valoper key members, P m.validator m.index := by
  obtain ⟨m, hm, hP⟩ := h
  have hmem : (m.validator, m.index) ∈
      (setEphemeralPubkey valoper key members).map fun m => (m.validator, m.index) := by
    rw [setEphemeralPubkey_ids]
    exact List.mem_map_of_mem hm
  obtain ⟨m', hm', heq⟩ := List.mem_map.mp hmem
  rw [Prod.mk.injEq] at heq
  refine ⟨m', hm', ?_⟩
  rw [heq.1, heq.2]
  exact hP

theorem revealsVerified_stable : RecordStable env (RevealsVerified env.suite) := by
  intro params height d msg d' hvalid hverified hstep
  cases hstep with
  | @commit req hnamed _ _ _ hfirst =>
    constructor
    · have hperm := (sortSlice_perm (fun a b => decide (a.dealer < b.dealer))
        (d.commits ++ [⟨req.dealer, req.commitments⟩])).map (·.dealer)
      rw [sortDKGCommits, hperm.nodup_iff, List.map_append, List.nodup_append]
      refine ⟨hverified.once, by simp, ?_⟩
      intro a ha b hb
      rw [List.map_singleton, List.mem_singleton] at hb
      rintro rfl
      rw [hb] at ha
      exact findDKGCommit_none hnamed hfirst ha
    · intro row hrow
      obtain ⟨commit, hcommit, hdealer, hmember⟩ := hverified.verified row hrow
      refine ⟨commit, ?_, hdealer, ?_⟩
      · simp [sortDKGCommits, mem_sortSlice, hcommit]
      · dsimp only
        split
        · exact hmember
        · exact exists_setEphemeralPubkey (P := fun validator index =>
            validator = row.recipient ∧
              dkgVerifyShare env.suite commit.commitments index row.share = .ok true)
            hmember
  | @reveal req commit mem _ _ _ hmem _ _ hcommit hverify =>
    refine ⟨hverified.once, fun row hrow => ?_⟩
    simp only [sortDKGReveals, mem_sortSlice, List.mem_append, List.mem_singleton] at hrow
    rcases hrow with hold | rfl
    · exact hverified.verified row hold
    · obtain ⟨hin, hname⟩ := findMember_some hmem
      exact ⟨commit, findDKGCommit_mem hcommit, findDKGCommit_dealer hcommit, mem, hin,
        hname, hverify⟩
  | invalid _ _ _ hslashes | aeadBad _ _ hslashes | timeout _ hslashes =>
    obtain ⟨slashed, rfl, -, -⟩ := hslashes
    exact ⟨hverified.once, hverified.verified⟩
  | _ => exact ⟨hverified.once, hverified.verified⟩

theorem RevealsVerified.resolved {S : Suite} (hvalid : RecordValid d)
    (hverified : RevealsVerified S d)
    (hreveal : (findDKGReveal d row.dealer row.complainer).isSome) :
    complaintResolved S d row = true := by
  obtain ⟨reveal, hfind⟩ := Option.isSome_iff_exists.mp hreveal
  have hfound := hfind
  unfold findDKGReveal at hfound
  split at hfound
  · cases hfound
  rename_i hnamed
  rw [not_or] at hnamed
  have hmatch := List.find?_some hfound
  simp only [Bool.decide_and, Bool.and_eq_true, decide_eq_true_eq] at hmatch
  obtain ⟨commit, hcommit, hdealer, mem, hmem, hrecipient, hverify⟩ :=
    hverified.verified reveal (List.mem_of_find?_eq_some hfound)
  have hcommit' : findDKGCommit d row.dealer = some commit := by
    rw [findDKGCommit, if_neg hnamed.1, ← hmatch.1, ← hdealer]
    exact find?_key_of_mem hverified.once hcommit
  have hmem' : findDKGMember d row.complainer = some mem := by
    rw [← hmatch.2, ← hrecipient]
    exact findDKGMember_of_mem hvalid hmem
  unfold complaintResolved
  rw [hcommit', hfind, hmem']
  dsimp only
  rw [hverify]

/-! ## Complaints can be answered -/

structure Answerable (env : Env) (d : DealerDKG) : Prop where
  window : d.complaintDeadline < d.revealDeadline
  rows : ∀ row ∈ d.complaints, ValidAddress env row.complainer ∧
    ValidAddress env row.dealer ∧ row.complainer ≠ row.dealer ∧
    (∃ m ∈ d.members, m.validator = row.complainer) ∧
    ∃ m ∈ d.members, m.validator = row.dealer

theorem ComplaintFiled.members (hfiled : ComplaintFiled env d height epochId complainer dealer) :
    (∃ m ∈ d.members, m.validator = complainer) ∧ ∃ m ∈ d.members, m.validator = dealer := by
  obtain ⟨m, hm⟩ := Option.isSome_iff_exists.mp hfiled.checked.complainer_member
  obtain ⟨m', hm'⟩ := Option.isSome_iff_exists.mp hfiled.checked.dealer_member
  exact ⟨⟨m, findMember_some hm⟩, ⟨m', findMember_some hm'⟩⟩

theorem Answerable.addComplaint {guilty : Set String} {kind : ComplaintKind}
    {shareMsg : Bytes} (hanswer : Answerable env d) (hslashes : Slashes d d' guilty)
    (hfiled : ComplaintFiled env d height epochId complainer dealer) :
    Answerable env (addComplaint d' complainer dealer kind shareMsg) := by
  obtain ⟨slashed, rfl, -, -⟩ := hslashes
  refine ⟨hanswer.window, fun row hrow => ?_⟩
  simp only [Dealer.addComplaint, sortDKGComplaints, mem_sortSlice, List.mem_append,
    List.mem_singleton] at hrow
  rcases hrow with hold | rfl
  · exact hanswer.rows row hold
  · exact ⟨hfiled.complainer, hfiled.dealer, hfiled.checked.differ, hfiled.members⟩

theorem answerable_stable : RecordStable env (Answerable env) := by
  intro params height d msg d' hvalid hanswer hstep
  cases hstep with
  | @commit req _ _ _ _ _ =>
    refine ⟨hanswer.window, fun row hrow => ?_⟩
    obtain ⟨hcomplainer, hdealer, hdiffer, hmember, hmember'⟩ := hanswer.rows row hrow
    refine ⟨hcomplainer, hdealer, hdiffer, ?_⟩
    split
    · exact ⟨hmember, hmember'⟩
    · exact ⟨exists_setEphemeralPubkey (P := fun name _ => name = row.complainer) hmember,
        exists_setEphemeralPubkey (P := fun name _ => name = row.dealer) hmember'⟩
  | missing hfiled => exact hanswer.addComplaint (.none hvalid.slashed) hfiled
  | invalid hfiled _ _ hslashes | aeadBad hfiled _ hslashes =>
    exact hanswer.addComplaint hslashes hfiled
  | timeout _ hslashes =>
    obtain ⟨slashed, rfl, -, -⟩ := hslashes
    exact ⟨hanswer.window, hanswer.rows⟩
  | _ => exact ⟨hanswer.window, hanswer.rows⟩

theorem dkgShareReveal_succeeds {s : State env} (hversion : s.params.dkgVersionOrDefault < 2)
    (hd : s.dkg = some d) (hvalid : RecordValid d) (hdecode : CommitsDecode env.suite d)
    (hanswer : Answerable env d) (hrow : row ∈ d.complaints)
    (hcommit : findDKGCommit d row.dealer = some commit)
    (hopen : findDKGReveal d row.dealer row.complainer = none)
    (htime : block.height ≤ d.revealDeadline) :
    ∃ m ∈ d.members, m.validator = row.complainer ∧ ∀ x,
      env.suite.mulBase x = committedShare env.suite d row.dealer m.index →
      ∃ s', dkgShareReveal s block ⟨row.dealer, d.epochId, row.complainer,
        env.suite.scalarBytes x⟩ = .ok s' := by
  obtain ⟨hcomplainer, hdealer, hdiffer, ⟨m, hm, hname⟩, dealer, hdealerIn, hdealerName⟩ :=
    hanswer.rows row hrow
  have hfound := findDKGMember_of_mem hvalid hm
  have hfound' := findDKGMember_of_mem hvalid hdealerIn
  have hnamed := hvalid.committee.named m hm
  have hnamed' := hvalid.committee.named dealer hdealerIn
  rw [hname] at hfound hnamed
  rw [hdealerName] at hfound' hnamed'
  have hcomplaint : (findDKGComplaint d row.complainer row.dealer).isSome := by
    rw [findDKGComplaint, if_neg (by simp [hnamed, hnamed']), List.find?_isSome]
    exact ⟨row, hrow, by simp⟩
  refine ⟨m, hm, hname, fun x hx => ?_⟩
  have hverify := dkgVerifyShare_scalarBytes hdecode hcommit m.index x
  rw [decide_eq_true hx] at hverify
  refine ⟨{ s with dkg := some { d with reveals := sortDKGReveals (d.reveals ++
    [⟨d.epochId, row.dealer, row.complainer, env.suite.scalarBytes x⟩]) } }, ?_⟩
  simp only [dkgShareReveal, requireMember, ok_iff]
  exact ⟨(), by simpa using hversion, (), by simp [hnamed, hnamed'], (), hdiffer.symm, (),
    requireValAddress_eq_ok.mpr hdealer, (), requireValAddress_eq_ok.mpr hcomplainer, d, loadDKG_of
    hd, (), not_lt.mpr htime, dealer, hfound', m, hfound, (), by simp [Option.isSome_iff_ne_none.mp
    hcomplaint], (), by simp [hopen], commit, hcommit, true, hverify, (), by simp, rfl⟩

/-! ## The end of a DKG -/

theorem ending_spares {m : DkgMsg} {s s' : State env} (hending : m.Ending)
    (hd : s.dkg = some d) (hok : handleDkg s block m = .ok s')
    (hvalid : RecordValid d) (hverified : RevealsVerified env.suite d)
    (hcommit : findDKGCommit d v = some commit) (hv : v ∉ d.slashed)
    (hanswered : d.revealDeadline < block.height → ∀ row ∈ d.complaints, row.dealer = v →
      (findDKGReveal d v row.complainer).isSome) :
    ∃ d', finalRecord s block m = .ok d' ∧ v ∉ d'.slashed ∧
      (s'.dkg = some d' ∨ EndsWith s s' d') := by
  obtain ⟨d', hfinal, hends, hlate, slashed, rfl, -, hmem⟩ :=
    ending_record hvalid hd hending hok
  refine ⟨_, hfinal, fun hslashed => ?_, hends⟩
  rcases (hmem v).mp hslashed with
    (⟨mem, -, hnone, rfl⟩ | ⟨hsettles, row, hrow, hopen, rfl⟩) | hold
  · rw [hnone] at hcommit
    cases hcommit
  · have hresolved := hverified.resolved hvalid (hanswered (hlate hsettles) row hrow rfl)
    rw [hresolved] at hopen
    cases hopen
  · exact hv hold

theorem FairStep.spares {m : DkgMsg} {s' : State env}
    (hfair : FairStep v s (.dkg block m)) (hsound : DealerSound s.1.dealer)
    (hd : s.1.dealer.dkg = some d) (hverified : RevealsVerified env.suite d)
    (hcommit : findDKGCommit d v = some commit) (hv : v ∉ d.slashed)
    (hok : handleDkg s.1.dealer block m = .ok s')
    (hanswered : d.revealDeadline < block.height → ∀ row ∈ d.complaints, row.dealer = v →
      (findDKGReveal d v row.complainer).isSome) :
    ∃ d', finalRecord s.1.dealer block m = .ok d' ∧ v ∉ d'.slashed ∧
      (s'.dkg = some d' ∨ EndsWith s.1.dealer s' d') := by
  have hvalid := hsound.record d hd
  by_cases hmsg : m.Ending
  · exact ending_spares hmsg hd hok hvalid hverified hcommit hv hanswered
  · obtain ⟨d', hd', hstep⟩ := handleDkg_kept hsound hd hok hmsg
    refine ⟨d', ?_, fun hslashed => ?_, .inl hd'⟩
    · cases m with
      | finalizeEpoch req | dkgTimeout req => exact absurd trivial hmsg
      | _ =>
        rw [finalRecord, hok, ok_bind, hd']
        · rfl
        all_goals simp
    · rcases hfair.unconvicted hd hstep hslashed with hold | ⟨hnone, -⟩
      · exact hv hold
      · rw [hnone] at hcommit
        cases hcommit

theorem honest_dealer_survives (env : Env) (balances : env.poker.bank.Balances)
    (staking : env.staking.Staking) (params : Params) (start : Int)
    (messages : List (Msg env)) (v : String)
    (hversion : params.dkgVersionOrDefault < 2)
    (hfair : StepsMeet handleAt (FairStep v)
      (Chain.genesis env balances staking params, start) messages)
    {d : DealerDKG} {commit : DealerDKGCommit}
    (hd : (run handleAt (Chain.genesis env balances staking params, start)
      messages).1.dealer.dkg = some d)
    (hcommit : findDKGCommit d v = some commit) :
    let s := run handleAt (Chain.genesis env balances staking params, start) messages
    v ∉ d.slashed ∧
    (∀ block m c', handle s.1 (.dkg block m) = .ok c' → FairStep v s (.dkg block m) →
      (d.revealDeadline < block.height → ∀ row ∈ d.complaints, row.dealer = v →
        (findDKGReveal d v row.complainer).isSome) →
      ∃ d', finalRecord s.1.dealer block m = .ok d' ∧ v ∉ d'.slashed ∧
        (c'.dealer.dkg = some d' ∨ EndsWith s.1.dealer c'.dealer d')) ∧
    d.complaintDeadline < d.revealDeadline ∧
    ∀ row ∈ d.complaints, row.dealer = v → findDKGReveal d v row.complainer = none →
      ∀ block : Block, block.height ≤ d.revealDeadline →
        ∃ share c', handle s.1 (.dkg block (.dkgShareReveal
          ⟨v, d.epochId, row.complainer, share⟩)) = .ok c' := by
  intro s
  have hinv := run_spared hfair
  have hreach : Reachable s.1 := by
    have hrun : s.1 = run handle (Chain.genesis env balances staking params) messages :=
      run_withHistory start messages
    rw [hrun]
    exact reachable_run balances staking params messages
  have hvalid := hinv.sound.record d hd
  have hverified : RevealsVerified env.suite d := by
    apply reachable_record revealsVerified_stable _ hreach d hd
    intro s d hfresh
    constructor
    · simp [hfresh.commits]
    · simp [hfresh.reveals]
  have hanswer : Answerable env d := by
    apply reachable_record answerable_stable _ hreach d hd
    intro s d hfresh
    refine ⟨hfresh.window, ?_⟩
    simp [hfresh.complaints]
  have hv : v ∉ d.slashed := by
    intro hslashed
    rw [(hinv.spared d hd hslashed).1] at hcommit
    cases hcommit
  refine ⟨hv, ?_, hanswer.window, ?_⟩
  · intro block m c' hok hstep hanswered
    simp only [handle, ok_iff] at hok
    obtain ⟨s', hs', rfl⟩ := hok
    exact hstep.spares hinv.sound hd hverified hcommit hv hs' hanswered
  · rintro row hrow rfl hopen block htime
    have hversion' : s.1.dealer.params.dkgVersionOrDefault < 2 := by
      rw [hinv.params]
      exact hversion
    obtain ⟨m, -, -, hreveal⟩ := dkgShareReveal_succeeds hversion' hd hvalid
      (reachable_commitsDecode hreach d hd) hanswer hrow hcommit hopen htime
    obtain ⟨x, hx⟩ := env.suite.exists_log
      (committedShare env.suite d row.dealer m.index)
    obtain ⟨s', hs'⟩ := hreveal x hx
    refine ⟨env.suite.scalarBytes x, { s.1 with dealer := s' }, ?_⟩
    rw [handle, handleDkg, hs']
    rfl

/-! ## Commits and complaints in one block -/

def versionOneGenesis : Chain residueEnv :=
  Chain.genesis residueEnv (0 : Nat) () ⟨0, 0, 0, 0, 1⟩

/-- In the last block for commits `C` shows a correct share that `B` has signed, `B`
commits, and then reveals that share. -/
def earlyComplaintRun : List (Msg residueEnv) :=
  [beginEpochMsg 3, dkgCommitMsg "A" 3 1, dkgCommitMsg "C" 7 4,
    dkgMsgAt 2 (.dkgComplaintInvalid (signedComplaint (residueBytes 11))),
    dkgCommitMsg "B" 5 2,
    dkgMsgAt 3 (.dkgShareReveal ⟨"B", 1, "C", residueBytes 11⟩)]

theorem earlyComplaintRun_honest : StepsMeet handleAt (HonestTowards "B") (versionOneGenesis, 0)
      (earlyComplaintRun ++ [finalizeEpochMsg]) := by
  have hnone : ∀ d ∈ (run handleAt (versionOneGenesis, 0)
      (earlyComplaintRun.take 3)).1.dealer.dkg, findDKGCommit d "B" = none := by
    decide +kernel
  refine ⟨trivial, trivial, trivial, ?_, trivial, trivial, trivial, trivial⟩
  intro _ d hd sm recipient _ commit hcommit
  rw [hnone d hd] at hcommit
  cases hcommit

theorem earlyComplaintRun_slashes_honest :
    StepsMeet handleAt HeightsGrow (versionOneGenesis, 0)
        (earlyComplaintRun ++ [finalizeEpochMsg]) ∧
      StepsMeet handleAt (HonestTowards "B") (versionOneGenesis, 0)
        (earlyComplaintRun ++ [finalizeEpochMsg]) ∧
      (∃ d ∈ (run handleAt (versionOneGenesis, 0) earlyComplaintRun).1.dealer.dkg,
        (∃ commit ∈ findDKGCommit d "B",
          dkgVerifyShare residueSuite commit.commitments 3 (residueBytes 11) =
            .ok true) ∧
        (∀ row ∈ d.complaints, row.dealer = "B" →
          (findDKGReveal d "B" row.complainer).isSome) ∧
        "B" ∈ d.slashed) ∧
      ∃ e ∈ (run handleAt (versionOneGenesis, 0)
        (earlyComplaintRun ++ [finalizeEpochMsg])).1.dealer.epoch, "B" ∈ e.slashed := by
  refine ⟨by decide +kernel, earlyComplaintRun_honest, ?_, ?_⟩
  · decide +kernel
  · decide +kernel

def answeredRun : List (Msg residueEnv) :=
  [beginEpochMsg 3, dkgCommitMsg "A" 3 1, dkgCommitMsg "B" 5 2, dkgCommitMsg "C" 7 4,
    dkgMsgAt 3 (.dkgComplaintMissing ⟨"C", 1, "B"⟩),
    dkgMsgAt 4 (.dkgShareReveal ⟨"B", 1, "C", residueBytes 11⟩)]

theorem answeredRun_fair :
    StepsMeet handleAt (FairStep "B") (versionOneGenesis, 0) answeredRun := by
  have hgrow : StepsMeet handleAt HeightsGrow (versionOneGenesis, 0) answeredRun := by
    decide +kernel
  apply hgrow.mono
  intro m hm s hs
  simp only [answeredRun, List.mem_cons, List.not_mem_nil, or_false] at hm
  rcases hm with rfl | rfl | rfl | rfl | rfl | rfl
  all_goals exact ⟨hs, trivial, trivial⟩

theorem answeredRun_survives :
    ∃ d, (run handleAt (versionOneGenesis, 0) answeredRun).1.dealer.dkg = some d ∧
      "B" ∉ d.slashed ∧ Accused d "B" ∧
      ∃ c', handle (run handleAt (versionOneGenesis, 0) answeredRun).1 finalizeEpochMsg =
          .ok c' ∧
        ∃ d', finalRecord (run handleAt (versionOneGenesis, 0) answeredRun).1.dealer
            ⟨5, 1000, by decide, by decide⟩ (.finalizeEpoch ⟨"A", 1⟩) = .ok d' ∧
          "B" ∉ d'.slashed := by
  obtain ⟨c', hok⟩ := isOk_iff.mp (by decide +kernel :
    (handle (run handleAt (versionOneGenesis, 0) answeredRun).1 finalizeEpochMsg).isOk =
      true)
  obtain ⟨d, hd, hsome, haccused, hrevealed⟩ :
      ∃ d ∈ (run handleAt (versionOneGenesis, 0) answeredRun).1.dealer.dkg,
        (findDKGCommit d "B").isSome ∧ (∃ row ∈ d.complaints, row.dealer = "B") ∧
        ∀ row ∈ d.complaints, row.dealer = "B" →
          (findDKGReveal d "B" row.complainer).isSome := by
    decide +kernel
  have htime : (run handleAt (versionOneGenesis, 0) answeredRun).2 ≤ 5 := by
    decide +kernel
  obtain ⟨commit, hcommit⟩ := Option.isSome_iff_exists.mp hsome
  have hfair := answeredRun_fair
  obtain ⟨hspared, hstep, -⟩ := honest_dealer_survives residueEnv (0 : Nat) () _ 0
    answeredRun "B" (by decide) hfair hd hcommit
  obtain ⟨d', hfinal, hspared', -⟩ := hstep _ _ c' hok ⟨htime, trivial, trivial⟩
    fun _ => hrevealed
  exact ⟨d, hd, hspared, haccused, c', hok, d', hfinal, hspared'⟩

end OnChainPoker.Dealer
