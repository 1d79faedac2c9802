import OnChainPoker.Dealer.EpochInvariant

/-!
# What a DKG message leaves on record

`DkgMove` forgets which message made a change.  `RecordStep` keeps the message, and
with it what the chain has checked about the shares, complaints and reveals it now
holds: who sent them, for which epoch, and what evidence came with them.
-/

namespace OnChainPoker.Dealer

open Foundation Crypto
open Poker (Block)

variable {env : Env} {epochId : Nat} {s s' : State env} {block : Block} {msg : Msg env}
  {log : List (Msg env)} {c c' : Chain env}

/-! ## Steps of the record -/

inductive RecordStep (env : Env) (params : Params) (height : Int) (d : DealerDKG) :
    DkgMsg → DealerDKG → Prop
  | commit {req : MsgDkgCommit} :
      req.dealer ≠ "" → req.epochId = d.epochId → ValidAddress env req.dealer →
      height ≤ d.commitDeadline → findDKGCommit d req.dealer = none →
      RecordStep env params height d (.dkgCommit req) { d with
        members := if req.ephemeralPubkey = [] then d.members
          else setEphemeralPubkey req.dealer req.ephemeralPubkey d.members
        commits := sortDKGCommits (d.commits ++ [⟨req.dealer, req.commitments⟩]) }
  | encryptedShare {req : MsgDkgEncryptedShare} {pkR u v : env.suite.Point}
      {commitments : List env.suite.Point} :
      req.epochId = d.epochId → height ≤ d.revealDeadline →
      EncryptedShareChecked env.suite d req pkR u v commitments →
      RecordStep env params height d (.dkgEncryptedShare req) { d with
        encryptedShares := sortDKGEncryptedShares (d.encryptedShares ++
          [⟨req.dealer, req.recipientIndex, req.u, req.v, req.proof, req.scalarCt⟩]) }
  | missing {req : MsgDkgComplaintMissing} :
      ComplaintFiled env d height req.epochId req.complainer req.dealer →
      RecordStep env params height d (.dkgComplaintMissing req)
        (addComplaint d req.complainer req.dealer .missing [])
  | invalid {req : MsgDkgComplaintInvalid} {d' : DealerDKG} {sm : DkgShareMsgV1}
      {recipient : DealerMember} :
      ComplaintFiled env d height req.epochId req.complainer req.dealer →
      SignedShare env.suite d req.complainer req.dealer req.shareMsg sm recipient →
      ConvictingShare env.suite d req.dealer recipient sm.share →
      Slashes d d' {req.dealer} →
      RecordStep env params height d (.dkgComplaintInvalid req)
        (addComplaint d' req.complainer req.dealer .invalid req.shareMsg)
  | aeadBad {req : MsgDkgComplaintAEADBad} {d' : DealerDKG}
      {es : DealerDKGEncryptedShare} {pkR u v dh : env.suite.Point} :
      ComplaintFiled env d height req.epochId req.complainer req.dealer →
      ProvedPoint env.suite d req es pkR u v dh →
      Slashes d d' (guiltyOf (adjudicate env.suite dh v es) req.complainer req.dealer) →
      RecordStep env params height d (.dkgComplaintAEADBad req)
        (addComplaint d' req.complainer req.dealer (adjudicate env.suite dh v es) [])
  | reveal {req : MsgDkgShareReveal} {commit : DealerDKGCommit} {mem : DealerMember} :
      params.dkgVersionOrDefault < 2 → req.epochId = d.epochId →
      height ≤ d.revealDeadline → findDKGMember d req.recipient = some mem →
      (findDKGComplaint d req.recipient req.dealer).isSome →
      findDKGReveal d req.dealer req.recipient = none →
      findDKGCommit d req.dealer = some commit →
      dkgVerifyShare env.suite commit.commitments mem.index req.share = .ok true →
      RecordStep env params height d (.dkgShareReveal req) { d with
        reveals := sortDKGReveals (d.reveals ++
          [⟨d.epochId, req.dealer, req.recipient, req.share⟩]) }
  | timeout {req : MsgEpoch} {d' : DealerDKG} :
      d.commitDeadline < height → Slashes d d' (Uncommitted d) →
      RecordStep env params height d (.dkgTimeout req) d'

section Handlers

variable {s s' : State env} {block : Block} {d d' : DealerDKG}

/-! ## Complaints, exactly -/

def ComplaintWindow (d : DealerDKG) (height : Int) : Prop :=
  d.commitDeadline ≤ height ∧ height ≤ d.complaintDeadline

theorem loadDKG_of (hd : s.dkg = some d) : s.loadDKG d.epochId = .ok d := by
  rw [State.loadDKG, hd]
  dsimp only [require]
  rw [ok_bind, rejectIf_bind (by simp)]
  rfl

theorem loadForComplaint_of (hd : s.dkg = some d) (hwindow : ComplaintWindow d block.height) :
    loadForComplaint s block d.epochId = .ok d := by
  rw [loadForComplaint, loadDKG_of hd, ok_bind, rejectIf_bind (not_lt.mpr hwindow.1),
    rejectIf_bind (not_lt.mpr hwindow.2)]
  rfl

variable {complainer dealer : String} {S : Suite} {b : Bytes}

theorem requireParties_of (hcomplainer : complainer ≠ "") (hdealer : dealer ≠ "")
    (hdiffer : complainer ≠ dealer) :
    requireParties complainer dealer = .ok () := by
  simp [requireParties, hcomplainer, hdealer, hdiffer]

theorem ComplaintFiled.succeeds (hd : s.dkg = some d)
    (hfiled : ComplaintFiled env d block.height epochId complainer dealer) :
    requireParties complainer dealer = .ok () ∧
      requireValAddress env complainer "complainer" = .ok () ∧
      requireValAddress env dealer "dealer" = .ok () ∧
      loadForComplaint s block epochId = .ok d := by
  refine ⟨requireParties_of hfiled.checked.complainer_named hfiled.checked.dealer_named
      hfiled.checked.differ, requireValAddress_eq_ok.mpr hfiled.complainer,
      requireValAddress_eq_ok.mpr hfiled.dealer, ?_⟩
  rw [hfiled.epochId]
  exact loadForComplaint_of hd ⟨hfiled.checked.after_commits, hfiled.checked.in_window⟩

theorem length_of_point {p : S.Point} (hok : S.pointFromBytesCanonical b = .ok p) :
    b.length = 32 := by
  rw [← S.pointFromBytesCanonical_eq_ok.mp hok]
  exact S.pointBytes_length p

theorem length_of_dleqProof {proof : S.ChaumPedersenProof}
    (hok : S.decodeChaumPedersenProof b = .ok proof) : b.length = 96 := by
  simp only [Suite.decodeChaumPedersenProof, ok_iff, ne_eq, not_not] at hok
  obtain ⟨-, hlength, -⟩ := hok
  exact hlength

theorem shareMsg_ne_nil {bytes : Bytes} {sm : DkgShareMsgV1}
    (hok : decodeDKGShareMsgV1 bytes = .ok sm) : bytes ≠ [] := by
  rintro rfl
  cases hok

theorem dkgComplaintInvalid_ok_iff {req : MsgDkgComplaintInvalid} (hd : s.dkg = some d) :
    dkgComplaintInvalid s block req = .ok s' ↔
      ComplaintFiled env d block.height req.epochId req.complainer req.dealer ∧
      ∃ sm recipient, SignedShare env.suite d req.complainer req.dealer req.shareMsg sm recipient ∧
        ConvictingShare env.suite d req.dealer recipient sm.share ∧
        ∃ mem next, findDKGMember d req.dealer = some mem ∧
          dkgPenalise s block req.dealer mem.power (s.staking, d) = .ok next ∧
          s' = { s with
            staking := next.1
            dkg := some (addComplaint next.2 req.complainer req.dealer .invalid
              req.shareMsg) } := by
  constructor
  · intro hok
    have hok : handleDkg s block (.dkgComplaintInvalid req) = .ok s' := hok
    cases (DkgHandled.of_inFlight hd hok).2 with
    | invalid hfiled hsigned hconvicts hmem hpenalty =>
      exact ⟨hfiled, _, _, hsigned, hconvicts, _, _, hmem, hpenalty, rfl⟩
  · rintro ⟨hfiled, sm, recipient, hsigned, hconvicts, mem, next, hdealer, hpenalty, rfl⟩
    obtain ⟨hparties, hfrom, hagainst, hload⟩ := hfiled.succeeds hd
    obtain ⟨mem', hmem', hsig⟩ := hsigned.signed
    cases hdealer.symm.trans hmem'
    simp only [dkgComplaintInvalid, requireMember, ok_iff, ne_eq, not_not, Bool.not_eq_false]
    refine ⟨(), hparties, (), shareMsg_ne_nil hsigned.decoded, (), hfrom, (), hagainst,
      d, hload, recipient, hsigned.member, mem, hdealer, (), ?_, sm, hsigned.decoded,
      (), hsigned.epochID, (), hsigned.sender, (), hsigned.addressee, (), hsig, (),
      checkInvalidShare_ok_iff.mpr hconvicts, next, hpenalty, rfl⟩
    simp [hfiled.checked.fresh]

theorem dkgComplaintAEADBad_ok_iff {req : MsgDkgComplaintAEADBad} (hd : s.dkg = some d) :
    dkgComplaintAEADBad s block req = .ok s' ↔
      ComplaintFiled env d block.height req.epochId req.complainer req.dealer ∧
      ∃ es pkR u v dh, ProvedPoint env.suite d req es pkR u v dh ∧ ∃ mem next,
          findDKGMember d (atFault (adjudicate env.suite dh v es) req.complainer
            req.dealer) = some mem ∧
          dkgPenalise s block (atFault (adjudicate env.suite dh v es) req.complainer
            req.dealer) mem.power (s.staking, d) = .ok next ∧
          s' = { s with
            staking := next.1
            dkg := some (addComplaint next.2 req.complainer req.dealer
              (adjudicate env.suite dh v es) []) } := by
  constructor
  · intro hok
    have hok : handleDkg s block (.dkgComplaintAEADBad req) = .ok s' := hok
    cases (DkgHandled.of_inFlight hd hok).2 with
    | aeadBad hfiled hproved hmem hpenalty =>
      exact ⟨hfiled, _, _, _, _, _, hproved, _, _, hmem, hpenalty, rfl⟩
  · rintro ⟨hfiled, es, pkR, u, v, dh, hproved, mem, next, hmem, hpenalty, rfl⟩
    obtain ⟨hparties, hfrom, hagainst, hload⟩ := hfiled.succeeds hd
    obtain ⟨complainerMem, hcomplainer, hindex, hlength, hpkR⟩ := hproved.recipient
    obtain ⟨dealerMem, hdealer⟩ := Option.isSome_iff_exists.mp hfiled.checked.dealer_member
    obtain ⟨proof, hproof, hverify⟩ := hproved.proof
    have hguilty : (if adjudicate env.suite dh v es = .aeadBad then dealerMem
        else complainerMem) = mem := by
      unfold atFault at hmem
      split
      case isTrue hbad =>
        rw [if_pos hbad, hdealer] at hmem
        exact Option.some.inj hmem
      case isFalse hgood =>
        rw [if_neg hgood, hcomplainer] at hmem
        exact Option.some.inj hmem
    simp only [dkgComplaintAEADBad, decodePoint, requireLength, requireMember, ok_iff,
      ne_eq, not_not, Bool.not_eq_false]
    refine ⟨(), hparties, (), hfrom, (), hagainst, (), length_of_point hproved.decodedDh, (),
      length_of_dleqProof hproof, d, hload, complainerMem, hcomplainer, dealerMem, hdealer, (),
      hindex, (), ?_, es, hproved.share, (), hlength, pkR, hpkR, u, hproved.decodedU, v,
      hproved.decodedV, dh, hproved.decodedDh, proof, hproof, true, hverify, (), rfl, next, ?_, rfl⟩
    · simp [hfiled.checked.fresh]
    · rw [hguilty]
      exact hpenalty

end Handlers

def DkgMsg.Ending : DkgMsg → Prop
  | .finalizeEpoch _ => True
  | .dkgTimeout _ => True
  | _ => False

variable {d d' : DealerDKG} {kind : DkgMsg → Prop} {P : DealerDKG → Prop}

theorem DkgHandled.record {msg : DkgMsg} (hvalid : RecordValid d)
    (hepoch : msg.epochOf = some d.epochId) (hhandled : DkgHandled s block d msg s')
    (hd' : s'.dkg = some d') : RecordStep env s.params block.height d msg d' := by
  cases hhandled with
  | commit hnamed haddress htime _ hfresh _ _ =>
    cases hd'
    exact .commit hnamed (Option.some.inj hepoch) haddress htime hfresh
  | encryptedShare htime hchecked =>
    cases hd'
    exact .encryptedShare (Option.some.inj hepoch) htime hchecked
  | missing hfiled =>
    cases hd'
    exact .missing hfiled
  | invalid hfiled hsigned hconvicts _ hpenalty =>
    cases hd'
    exact .invalid hfiled hsigned hconvicts
      (dkgPenalise_slashes hfiled.checked.dealer_named hvalid.slashed hpenalty)
  | aeadBad hfiled hproved _ hpenalty =>
    cases hd'
    exact .aeadBad hfiled hproved (atFault_slashes hfiled.checked hvalid.slashed hpenalty)
  | reveal hversion _ htime hmem hcomplaint hfresh hcommit hverify =>
    cases hd'
    exact .reveal hversion (Option.some.inj hepoch) htime hmem hcomplaint hfresh hcommit hverify
  | finalize hcomplete =>
    obtain ⟨_, _, -, rfl | ⟨_, -, -, rfl⟩⟩ := completeEpoch_ok hcomplete <;> cases hd'
  | timeout htime hmissing hrest =>
    rcases hrest with rfl | hcomplete | rfl
    · cases hd'
    · obtain ⟨_, _, -, rfl | ⟨_, -, -, rfl⟩⟩ := completeEpoch_ok hcomplete <;> cases hd'
    · cases hd'
      exact .timeout htime (slashMissingCommits_slashes hvalid.names hvalid.slashed hmissing)

theorem handleDkg_record {msg : DkgMsg} (hsound : DealerSound s) (hd : s.dkg = some d)
    (hok : handleDkg s block msg = .ok s') (hd' : s'.dkg = some d') :
    RecordStep env s.params block.height d msg d' := by
  obtain ⟨hepoch, hhandled⟩ := DkgHandled.of_inFlight hd hok
  exact hhandled.record (hsound.record d hd) hepoch hd'

theorem handleDkg_kept {msg : DkgMsg} (hsound : DealerSound s) (hd : s.dkg = some d)
    (hok : handleDkg s block msg = .ok s') (hmsg : ¬ msg.Ending) :
    ∃ d', s'.dkg = some d' ∧ RecordStep env s.params block.height d msg d' := by
  have hactive : ∃ d', s'.dkg = some d' := by
    cases (DkgHandled.of_inFlight hd hok).2 with
    | finalize | timeout => exact absurd trivial hmsg
    | _ => exact ⟨_, rfl⟩
  obtain ⟨d', hd'⟩ := hactive
  exact ⟨d', hd', handleDkg_record hsound hd hok hd'⟩

/-! ## The end of a DKG -/

/-- The record as a handler leaves it, also when the DKG ends with the message: its
list of slashed validators says who has been penalised. -/
def finalRecord (s : State env) (block : Block) : DkgMsg → Except Err DealerDKG
  | .finalizeEpoch req => do
      let dkg ← s.loadDKG req.epochId
      let (_, dkg) ← settle s block dkg
      pure dkg
  | .dkgTimeout req => do
      let dkg ← s.loadDKG req.epochId
      let (staking, dkg) ← dkg.members.foldlM (slashMissingCommit s block)
        (s.staking, dkg)
      if (qualMembers dkg.members dkg.slashed).length < dkg.threshold then pure dkg
      else if block.height > dkg.revealDeadline then do
        let (_, dkg) ← settle { s with staking := staking, dkg := some dkg } block dkg
        pure dkg
      else pure dkg
  | m => do
      let s ← handleDkg s block m
      require s.dkg ⟨.noDkgInFlight, "no dkg in progress"⟩

structure EndsWith (s s' : State env) (d' : DealerDKG) : Prop where
  dkgOver : s'.dkg = none
  epoch : s'.epoch = s.epoch ∨ ∃ e, s'.epoch = some e ∧ e.slashed = d'.slashed

/-- The message settles the complaints: it finalises the epoch, or it is a timeout past the
reveal deadline and enough members have committed and are not slashed. -/
def DkgMsg.Settles (d : DealerDKG) (block : Block) : DkgMsg → Prop
  | .finalizeEpoch _ => True
  | .dkgTimeout _ => d.revealDeadline < block.height ∧
      d.threshold ≤ (d.members.filter fun m =>
        (findDKGCommit d m.validator).isSome && m.validator ∉ d.slashed).length
  | _ => False

theorem qualMembers_of_slashes (hslashes : Slashes d d' (Uncommitted d)) :
    qualMembers d'.members d'.slashed = d.members.filter fun m =>
      (findDKGCommit d m.validator).isSome && m.validator ∉ d.slashed := by
  obtain ⟨slashed, rfl, hslashed, hmem⟩ := hslashes
  refine List.filter_congr fun m hm => ?_
  have hmissing : m.validator ∈ Uncommitted d ↔ findDKGCommit d m.validator = none := by
    constructor
    · rintro ⟨_, -, hnone, heq⟩
      rwa [heq]
    · exact fun hnone => ⟨m, hm, hnone, rfl⟩
  rw [Bool.eq_iff_iff, Bool.not_eq_true', ← Bool.not_eq_true, hslashed.isSlashed_iff, hmem,
    hmissing]
  simp [Option.isSome_iff_ne_none]

theorem completeEpoch_endsWith (hvalid : RecordValid d) (hok : completeEpoch s block d = .ok s') :
    ∃ staking d', settle s block d = .ok (staking, d') ∧ EndsWith s s' d' := by
  obtain ⟨staking, d', hsettle, hends⟩ := completeEpoch_ok hok
  have hslashes := settle_slashes hvalid.names hvalid.slashed hsettle
  refine ⟨staking, d', hsettle, ?_⟩
  rcases hends with rfl | ⟨e, -, he, rfl⟩
  · exact ⟨rfl, .inl rfl⟩
  · have hfrom := (computeEpoch_spec (hslashes.recordValid hvalid).commits he).1
    exact ⟨rfl, .inr ⟨e, rfl, hfrom.slashed⟩⟩

/-- Who is slashed when the DKG ends or times out. -/
theorem dkgTimeout_record {req : MsgEpoch} (hvalid : RecordValid d) (hd : s.dkg = some d)
    (hok : dkgTimeout s block req = .ok s') :
    ∃ d', finalRecord s block (.dkgTimeout req) = .ok d' ∧ (s'.dkg = some d' ∨ EndsWith s s' d') ∧
      Slashes d d' (Uncommitted d ∪
        {v | (DkgMsg.dkgTimeout req).Settles d block ∧ v ∈ Unresolved env.suite d}) := by
  simp only [dkgTimeout, ok_iff] at hok
  obtain ⟨-, -, d₀, hload, -, -, ⟨staking, d₁⟩, hmissing, hrest⟩ := hok
  cases hd.symm.trans (loadDKG_ok hload)
  have hfirst : Slashes d d₁ (Uncommitted d) :=
    slashMissingCommits_slashes hvalid.names hvalid.slashed hmissing
  have hqual := qualMembers_of_slashes hfirst
  have hsame : d₁.threshold = d.threshold ∧ d₁.revealDeadline = d.revealDeadline := by
    obtain ⟨slashed, rfl, -⟩ := id hfirst
    exact ⟨rfl, rfl⟩
  -- Without settling, those without a commit are all that is added.
  have hmissed (hnot : ¬ (DkgMsg.dkgTimeout req).Settles d block) :
      Slashes d d₁ (Uncommitted d ∪
        {v | (DkgMsg.dkgTimeout req).Settles d block ∧ v ∈ Unresolved env.suite d}) := by
    simpa [hnot] using hfirst
  simp only [finalRecord, hload, ok_bind, hmissing]
  dsimp only at hrest
  split at hrest
  case isTrue hfew =>
    rw [pure_ok_iff] at hrest
    subst hrest
    rw [hqual, hsame.1] at hfew
    exact ⟨d₁, if_pos (by rwa [hqual, hsame.1]), .inr ⟨rfl, .inl rfl⟩,
      hmissed fun hsettles => absurd hfew (not_lt.mpr hsettles.2)⟩
  case isFalse henough =>
    rw [if_neg henough]
    split at hrest
    case isTrue hlate =>
      rw [if_pos hlate]
      obtain ⟨staking₂, d₂, hsettle, hends⟩ :=
        completeEpoch_endsWith (hfirst.recordValid hvalid) hrest
      refine ⟨d₂, by rw [hsettle]; rfl, .inr ⟨hends.dkgOver, hends.epoch⟩, ?_⟩
      rw [hqual, hsame.1] at henough
      have hsettles : (DkgMsg.dkgTimeout req).Settles d block :=
        ⟨hsame.2 ▸ hlate, not_lt.mp henough⟩
      rw [settle_after_missing hvalid.names hvalid.slashed hmissing] at hsettle
      simpa [hsettles] using settle_slashes hvalid.names hvalid.slashed hsettle
    case isFalse hearly =>
      rw [if_neg hearly]
      rw [pure_ok_iff] at hrest
      subst hrest
      exact ⟨d₁, rfl, .inl rfl,
        hmissed fun hsettles => hearly (hsame.2.symm ▸ hsettles.1)⟩

theorem ending_record {m : DkgMsg} (hvalid : RecordValid d) (hd : s.dkg = some d)
    (hending : m.Ending) (hok : handleDkg s block m = .ok s') :
    ∃ d', finalRecord s block m = .ok d' ∧ (s'.dkg = some d' ∨ EndsWith s s' d') ∧
      (m.Settles d block → d.revealDeadline < block.height) ∧
      Slashes d d' (Uncommitted d ∪ {v | m.Settles d block ∧ v ∈ Unresolved env.suite d}) := by
  cases m with
  | finalizeEpoch req =>
    simp only [handleDkg, finalizeEpoch, ok_iff, not_le] at hok
    obtain ⟨-, -, d₁, hload, -, htime, hcomplete⟩ := hok
    cases hd.symm.trans (loadDKG_ok hload)
    obtain ⟨staking, d', hsettle, hends⟩ := completeEpoch_endsWith hvalid hcomplete
    have hslashes := settle_slashes hvalid.names hvalid.slashed hsettle
    refine ⟨d', ?_, .inr hends, fun _ => htime, by simpa [DkgMsg.Settles] using hslashes⟩
    rw [finalRecord, hload, ok_bind, hsettle, ok_bind]
    rfl
  | dkgTimeout req =>
    obtain ⟨d', hfinal, hends, hslashes⟩ := dkgTimeout_record hvalid hd hok
    exact ⟨d', hfinal, hends, And.left, hslashes⟩
  | _ => exact hending.elim

/-! ## The record and the log -/

theorem handleDkg_inFlight {msg : DkgMsg} (hepoch : msg.epochOf = some epochId)
    (hok : handleDkg s block msg = .ok s') :
    ∃ d, s.dkg = some d ∧ epochId = d.epochId := by
  have hmsg : ∀ req, msg ≠ .beginEpoch req := by
    rintro req rfl
    cases hepoch
  obtain ⟨d, hd, hid, -⟩ := handleDkg_handled hmsg hok
  exact ⟨d, hd, Option.some.inj (hepoch.symm.trans hid)⟩

def Logged (kind : DkgMsg → Prop) (log : List (Msg env)) : Prop :=
  ∃ block m, Msg.dkg block m ∈ log ∧ kind m

theorem logged_cons :
    Logged kind (msg :: log) ↔ (∃ block m, msg = .dkg block m ∧ kind m) ∨ Logged kind log := by
  constructor
  · rintro ⟨block, m, hmem, hkind⟩
    rcases List.mem_cons.mp hmem with rfl | hmem
    · exact .inl ⟨block, m, rfl, hkind⟩
    · exact .inr ⟨block, m, hmem, hkind⟩
  · rintro (⟨block, m, rfl, hkind⟩ | ⟨block, m, hmem, hkind⟩)
    · exact ⟨block, m, List.mem_cons_self, hkind⟩
    · exact ⟨block, m, List.mem_cons_of_mem _ hmem, hkind⟩

theorem logged_dkg {m : DkgMsg} : Logged kind (.dkg block m :: log) ↔ kind m ∨ Logged kind log := by
  rw [logged_cons]
  constructor
  · rintro (⟨_, _, heq, hkind⟩ | hlog)
    · cases heq
      exact .inl hkind
    · exact .inr hlog
  · rintro (hkind | hlog)
    · exact .inl ⟨block, m, rfl, hkind⟩
    · exact .inr hlog

theorem logged_other (hmsg : ∀ block m, msg ≠ .dkg block m) :
    Logged kind (msg :: log) ↔ Logged kind log := by
  rw [logged_cons, or_iff_right]
  rintro ⟨block, m, heq, -⟩
  exact hmsg block m heq

structure KeptBy (env : Env) (holds : DealerDKG → Prop) (kind : Nat → DkgMsg → Prop) :
    Prop where
  names : ∀ epochId msg, kind epochId msg → msg.epochOf = some epochId
  fresh : ∀ (s : State env) d, FreshDkg env s d → ¬ holds d
  step : ∀ params height d msg d', RecordStep env params height d msg d' →
    (holds d' ↔ kind d.epochId msg ∨ holds d)

/-- The record of the DKG in flight holds what the log says about its epoch, and the
log names no later epoch. -/
structure Tracked (holds : DealerDKG → Prop) (kind : Nat → DkgMsg → Prop)
    (log : List (Msg env)) (s : State env) : Prop where
  past : ∀ epochId, Logged (kind epochId) log → epochId < s.nextEpochId
  record : ∀ d, s.dkg = some d → (holds d ↔ Logged (kind d.epochId) log)

section Tracking

variable {holds : DealerDKG → Prop} {kind : Nat → DkgMsg → Prop} {log : List (Msg env)}

theorem Tracked.past_dkg {m : DkgMsg} (hkept : KeptBy env holds kind) (hsound : DealerSound s)
    (htracked : Tracked holds kind log s) (hok : handleDkg s block m = .ok s') :
    ∀ epochId, Logged (kind epochId) (.dkg block m :: log) → epochId < s.nextEpochId := by
  intro epochId hlog
  rcases logged_dkg.mp hlog with hkind | hlog
  · obtain ⟨d, hd, rfl⟩ := handleDkg_inFlight (hkept.names epochId m hkind) hok
    exact hsound.dkg_lt d hd
  · exact htracked.past epochId hlog

theorem Tracked.dkg {m : DkgMsg} (hkept : KeptBy env holds kind) (hsound : DealerSound s)
    (htracked : Tracked holds kind log s) (hok : handleDkg s block m = .ok s') :
    Tracked holds kind (.dkg block m :: log) s' := by
  have hpast := htracked.past_dkg hkept hsound hok
  cases dkg_effect hsound hok with
  | begun hnone hfresh =>
    constructor
    · intro epochId hlog
      exact Nat.lt_succ_of_lt (hpast epochId hlog)
    · intro d hd
      cases hd
      -- Nothing is on record yet, and no message has named the new epoch.
      refine iff_of_false (hkept.fresh _ _ hfresh) fun hlog => ?_
      exact absurd (hpast _ hlog) (by rw [hfresh.epochId]; exact lt_irrefl _)
  | @moved d₀ d' _ hd₀ hmove =>
    constructor
    · exact hpast
    · intro d hd
      cases hd
      rw [hkept.step _ _ _ _ _ (handleDkg_record hsound hd₀ hok rfl),
        htracked.record d₀ hd₀, hmove.epochId_eq, logged_dkg]
  | aborted _ | finalised _ _ _ _ => exact ⟨hpast, fun d hd => by cases hd⟩

theorem Tracked.handle (hkept : KeptBy env holds kind) (hsound : DealerSound c.dealer)
    (htracked : Tracked holds kind log c.dealer) (hok : handle c msg = .ok c') :
    Tracked holds kind (msg :: log) c'.dealer := by
  rcases handle_dkg_or_same hok with
    ⟨_, _, _, rfl, hdealer, rfl⟩ | ⟨hdkg, hsame⟩
  · exact htracked.dkg hkept hsound hdealer
  · constructor
    · intro epochId hlog
      rw [hsame.nextEpochId]
      exact htracked.past epochId ((logged_other hdkg).mp hlog)
    · intro d hd
      rw [hsame.dkg] at hd
      rw [logged_other hdkg]
      exact htracked.record d hd

theorem reachable_tracked {balances : env.poker.bank.Balances}
    {staking : env.staking.Staking} {params : Params} (hkept : KeptBy env holds kind)
    (hreach : Reaches handle (Chain.genesis env balances staking params) log c) :
    Tracked holds kind log c.dealer := by
  induction hreach with
  | refl =>
    constructor
    · rintro epochId ⟨_, _, hmem, -⟩
      cases hmem
    · intro d hd
      cases hd
  | step hreach hok ih =>
    exact ih.handle hkept (reachable_dealerSound (reachable_of_reaches hreach)) hok

end Tracking

/-! ## Properties of records -/

inductive RecordFrom (c : Chain env) : DealerDKG → Prop
  | fresh {d : DealerDKG} : FreshDkg env c.dealer d → RecordFrom c d
  | kept {d : DealerDKG} : c.dealer.dkg = some d → RecordFrom c d
  | moved {d d' : DealerDKG} {height : Int} {m : DkgMsg} : c.dealer.dkg = some d →
      RecordStep env c.dealer.params height d m d' → d'.epochId = d.epochId →
      RecordFrom c d'

theorem handle_recordFrom (hsound : DealerSound c.dealer) (hok : handle c msg = .ok c')
    (hd' : c'.dealer.dkg = some d') : RecordFrom c d' := by
  rcases handle_dkg_or_same hok with
    ⟨_, _, _, rfl, hdealer, rfl⟩ | ⟨_, hsame⟩
  · cases dkg_effect hsound hdealer with
    | begun _ hfresh =>
      cases hd'
      exact .fresh hfresh
    | moved hd hmove =>
      cases hd'
      exact .moved hd (handleDkg_record hsound hd hdealer rfl) hmove.epochId_eq
    | aborted _ | finalised _ _ _ _ => cases hd'
  · rw [hsame.dkg] at hd'
    exact .kept hd'

theorem handle_nextEpochId (hsound : DealerSound c.dealer) (hok : handle c msg = .ok c') :
    c.dealer.nextEpochId ≤ c'.dealer.nextEpochId := by
  rcases handle_dkg_or_same hok with
    ⟨_, _, _, rfl, hdealer, rfl⟩ | ⟨_, hsame⟩
  · cases dkg_effect hsound hdealer with
    | begun _ _ => exact Nat.le_succ _
    | moved _ _ | aborted _ | finalised _ _ _ _ => exact le_rfl
  · exact hsame.nextEpochId.ge

def RecordStable (env : Env) (P : DealerDKG → Prop) : Prop :=
  ∀ params height d msg d', RecordValid d → P d →
    RecordStep env params height d msg d' → P d'

theorem reachable_record (hstable : RecordStable env P)
    (hfresh : ∀ (s : State env) d, FreshDkg env s d → P d) (hreach : Reachable c) :
    ∀ d, c.dealer.dkg = some d → P d := by
  apply hreach.invariant
  · rintro _ ⟨_, _, _, rfl⟩ d hd
    cases hd
  · intro c msg c' hreach ih hok d' hd'
    have hsound := reachable_dealerSound hreach
    cases handle_recordFrom hsound hok hd' with
    | fresh hd => exact hfresh _ _ hd
    | kept hd => exact ih d' hd
    | moved hd hstep _ => exact hstable _ _ _ _ _ (hsound.record _ hd) (ih _ hd) hstep

structure Lasts (P : DealerDKG → Prop) (epochId : Nat) (s : State env) : Prop where
  past : epochId < s.nextEpochId
  record : ∀ d, s.dkg = some d → d.epochId = epochId → P d

section

variable (hstable : RecordStable env P) (hsound : DealerSound c.dealer)
  (hlasts : Lasts P epochId c.dealer)
include hstable hsound hlasts

theorem Lasts.handle (hok : handle c msg = .ok c') : Lasts P epochId c'.dealer := by
  constructor
  · exact hlasts.past.trans_le (handle_nextEpochId hsound hok)
  · intro d' hd' hid
    cases handle_recordFrom hsound hok hd' with
    | fresh hfresh => exact absurd (hid.symm.trans hfresh.epochId) hlasts.past.ne
    | kept hd => exact hlasts.record d' hd hid
    | moved hd hstep hsame =>
      exact hstable _ _ _ _ _ (hsound.record _ hd) (hlasts.record _ hd (hsame.symm.trans hid)) hstep

theorem Lasts.run (messages : List (Msg env)) :
    DealerSound (Foundation.run Dealer.handle c messages).dealer ∧
      Lasts P epochId (Foundation.run Dealer.handle c messages).dealer := by
  have hstep : ∀ (c : Chain env) msg c',
      DealerSound c.dealer ∧ Lasts P epochId c.dealer → Dealer.handle c msg = .ok c' →
      DealerSound c'.dealer ∧ Lasts P epochId c'.dealer := by
    rintro c msg c' ⟨hsound, hlasts⟩ hok
    exact ⟨handle_sound hsound hok, hlasts.handle hstable hsound hok⟩
  exact @run_invariant (Chain env) (Msg env) _ _ c
    (fun c => DealerSound c.dealer ∧ Lasts P epochId c.dealer) ⟨hsound, hlasts⟩ hstep
    messages

end

end OnChainPoker.Dealer
