import OnChainPoker.Dealer.DkgProgress
import OnChainPoker.Dealer.Blame

/-!
# Evidence of bad shares

A recipient shows a bad share with `DkgComplaintAEADBad`, or with
`DkgComplaintInvalid` when it holds a signed share message.  The first is open in the
complaint window only, while shares are taken until the reveal deadline, and a pair of
members has one complaint; the second fails when the signed bytes are no scalar.
-/

namespace OnChainPoker.Dealer

open Foundation Crypto
open Poker (Block)

variable {env : Env}

/-! ## Keys and commits on record -/

section Record

variable {params : Params} {height : Int} {d d' : DealerDKG} {msg : DkgMsg}

variable {valoper : String} {key : Bytes} {m : DealerMember}

theorem mem_setEphemeralPubkey {members : List DealerMember}
    (hm : m ∈ setEphemeralPubkey valoper key members) :
    m ∈ members ∨ m.validator = valoper := by
  induction members with
  | nil => cases hm
  | cons first rest ih =>
    unfold setEphemeralPubkey at hm
    split at hm
    case isTrue hname =>
      rcases List.mem_cons.mp hm with rfl | hm
      · exact .inr hname
      · exact .inl (List.mem_cons_of_mem _ hm)
    case isFalse =>
      rcases List.mem_cons.mp hm with rfl | hm
      · exact .inl List.mem_cons_self
      · exact (ih hm).imp_left (List.mem_cons_of_mem _)

theorem mem_setEphemeralPubkey_of_ne {members : List DealerMember} (hm : m ∈ members)
    (hother : m.validator ≠ valoper) : m ∈ setEphemeralPubkey valoper key members := by
  induction members with
  | nil => cases hm
  | cons first rest ih =>
    unfold setEphemeralPubkey
    rcases List.mem_cons.mp hm with rfl | hm
    · rw [if_neg hother]
      exact List.mem_cons_self
    · split
      · exact List.mem_cons_of_mem _ hm
      · exact List.mem_cons_of_mem _ (ih hm)

theorem RecordStep.commits_cases (hstep : RecordStep env params height d msg d') :
    (d'.members = d.members ∧ d'.commits = d.commits) ∨
      ∃ req : MsgDkgCommit, msg = .dkgCommit req ∧ req.epochId = d.epochId ∧
        ValidAddress env req.dealer ∧ findDKGCommit d req.dealer = none ∧
        (d'.members = d.members ∨
          d'.members = setEphemeralPubkey req.dealer req.ephemeralPubkey d.members) ∧
        ∀ row, row ∈ d'.commits ↔ row ∈ d.commits ∨ row = ⟨req.dealer, req.commitments⟩ := by
  cases hstep with
  | @commit req _ hid haddress _ hfirst =>
    refine .inr ⟨req, rfl, hid, haddress, hfirst, ?_, fun row => ?_⟩
    · dsimp only
      split
      · exact .inl rfl
      · exact .inr rfl
    · simp only [sortDKGCommits, mem_sortSlice, List.mem_append, List.mem_singleton]
  | invalid _ _ _ hslashes | aeadBad _ _ hslashes | timeout _ hslashes =>
    obtain ⟨slashed, rfl, -, -⟩ := hslashes
    exact .inl ⟨rfl, rfl⟩
  | _ => exact .inl ⟨rfl, rfl⟩

theorem RecordStep.shares_cases (hstep : RecordStep env params height d msg d') :
    d'.encryptedShares = d.encryptedShares ∨
      ∃ es, findEncryptedShare d es.dealer es.recipientIndex = none ∧
        ∀ row, row ∈ d'.encryptedShares ↔ row ∈ d.encryptedShares ∨ row = es := by
  cases hstep with
  | @encryptedShare req _ _ _ _ _ _ hchecked =>
    refine .inr ⟨⟨req.dealer, req.recipientIndex, req.u, req.v, req.proof,
      req.scalarCt⟩, hchecked.fresh, fun row => ?_⟩
    simp only [sortDKGEncryptedShares, mem_sortSlice, List.mem_append, List.mem_singleton]
  | invalid _ _ _ hslashes | aeadBad _ _ hslashes | timeout _ hslashes =>
    obtain ⟨slashed, rfl, -, -⟩ := hslashes
    exact .inl rfl
  | _ => exact .inl rfl

end Record

structure KeysCommitted (env : Env) (d : DealerDKG) : Prop where
  committed : ∀ m ∈ d.members, m.ephemeralPubkey ≠ [] →
    ∃ row ∈ d.commits, row.dealer = m.validator
  addressed : ∀ row ∈ d.commits, ValidAddress env row.dealer

theorem keysCommitted_stable : RecordStable env (KeysCommitted env) := by
  intro params height d msg d' _ hkeys hstep
  rcases hstep.commits_cases with ⟨hmembers, hcommits⟩ |
    ⟨req, -, -, haddress, -, hmembers, hcommits⟩
  · constructor
    · rw [hmembers, hcommits]
      exact hkeys.committed
    · rw [hcommits]
      exact hkeys.addressed
  · constructor
    · intro m hm hkey
      have hold : m ∈ d.members ∨ m.validator = req.dealer := by
        rcases hmembers with hsame | hset
        · exact .inl (hsame ▸ hm)
        · exact mem_setEphemeralPubkey (hset ▸ hm)
      rcases hold with hold | hname
      · obtain ⟨row, hrow, hdealer⟩ := hkeys.committed m hold hkey
        exact ⟨row, (hcommits row).mpr (.inl hrow), hdealer⟩
      · exact ⟨_, (hcommits _).mpr (.inr rfl), hname.symm⟩
    · intro row hrow
      rcases (hcommits row).mp hrow with hrow | rfl
      · exact hkeys.addressed row hrow
      · exact haddress

variable {index : Nat} {c : Chain env} {d : DealerDKG} {v dealer : String}
  {es : DealerDKGEncryptedShare} {recipient : DealerMember} {key : Bytes}
  {commit : DealerDKGCommit} {req : MsgDkgEncryptedShare} {block : Block}

theorem membersOfSnapshots_keys {seen : List String} {snaps : List MemberSnapshot}
    {members : List DealerMember} (hok : membersOfSnapshots index seen snaps = .ok members) :
    ∀ m ∈ members, m.ephemeralPubkey = [] := by
  induction snaps generalizing index seen members with
  | nil =>
    cases hok
    simp
  | cons snap rest ih =>
    simp only [membersOfSnapshots, ok_iff] at hok
    obtain ⟨-, -, -, -, -, -, tail, htail, rfl⟩ := hok
    intro m hm
    rcases List.mem_cons.mp hm with rfl | hm
    · rfl
    · exact ih htail m hm

theorem reachable_keysCommitted (hreach : Reachable c) :
    ∀ d, c.dealer.dkg = some d → KeysCommitted env d := by
  apply reachable_record keysCommitted_stable _ hreach
  intro s d hfresh
  obtain ⟨snaps, hsnaps⟩ := hfresh.members
  constructor
  · intro m hm hkey
    exact absurd (membersOfSnapshots_keys hsnaps m hm) hkey
  · rw [hfresh.commits]
    simp

structure HoldsShare (es : DealerDKGEncryptedShare) (recipient : String) (key : Bytes)
    (d : DealerDKG) : Prop where
  row : es ∈ d.encryptedShares
  only : ∀ es' ∈ d.encryptedShares, es'.dealer = es.dealer →
    es'.recipientIndex = es.recipientIndex → es' = es
  dealer : ∃ m ∈ d.members, m.validator = es.dealer
  member : ∃ m ∈ d.members, m.validator = recipient ∧
    m.index = es.recipientIndex ∧ m.ephemeralPubkey = key
  committed : ∃ row ∈ d.commits, row.dealer = recipient

theorem findDKGCommit_isSome {row : DealerDKGCommit} (hrow : row ∈ d.commits)
    (hnamed : row.dealer ≠ "") :
    (findDKGCommit d row.dealer).isSome := by
  rw [findDKGCommit, if_neg hnamed, List.find?_isSome]
  exact ⟨row, hrow, by simp⟩

theorem ne_of_uncommitted {row : DealerDKGCommit} (hnamed : v ≠ "") (hrow : row ∈ d.commits)
    (hrowDealer : row.dealer = v) (hfirst : findDKGCommit d dealer = none) : v ≠ dealer := by
  rintro rfl
  subst hrowDealer
  have hsome := findDKGCommit_isSome hrow hnamed
  rw [hfirst] at hsome
  cases hsome

theorem findEncryptedShare_none (hnone : findEncryptedShare d dealer index = none) :
    ∀ es ∈ d.encryptedShares, es.dealer = dealer → es.recipientIndex ≠ index := by
  intro es hes hdealer hindex
  have hmiss := List.find?_eq_none.mp hnone es hes
  exact hmiss (by simp [hdealer, hindex])

theorem HoldsShare.members {recipient : String} {env : Env} {params : Params} {height : Int}
    {d' : DealerDKG} {msg : DkgMsg} (hvalid : RecordValid d)
    (hholds : HoldsShare es recipient key d) (hstep : RecordStep env params height d msg d') :
    (∃ m ∈ d'.members, m.validator = es.dealer) ∧
      (∃ m ∈ d'.members, m.validator = recipient ∧
        m.index = es.recipientIndex ∧ m.ephemeralPubkey = key) ∧
      ∃ row ∈ d'.commits, row.dealer = recipient := by
  obtain ⟨row, hrow, hrecipient⟩ := hholds.committed
  obtain ⟨m, hm, hname, hindex, hkey⟩ := hholds.member
  rcases hstep.commits_cases with ⟨hmembers, hcommits⟩ | ⟨req, -, -, -, hfirst, hmembers, hcommits⟩
  · rw [hmembers, hcommits]
    exact ⟨hholds.dealer, hholds.member, hholds.committed⟩
  -- The recipient has committed, so the new commit is not the recipient's.
  have hother := ne_of_uncommitted (hvalid.committee.named m hm) hrow
    (hrecipient.trans hname.symm) hfirst
  refine ⟨?_, ⟨m, ?_, hname, hindex, hkey⟩, row, (hcommits row).mpr (.inl hrow), hrecipient⟩
  · obtain ⟨dealer, hdealer, hdealerName⟩ := hholds.dealer
    rcases hmembers with hsame | hset
    · exact ⟨dealer, hsame ▸ hdealer, hdealerName⟩
    · have hids := setEphemeralPubkey_ids req.dealer req.ephemeralPubkey d.members
      have hmem : (dealer.validator, dealer.index) ∈
          (setEphemeralPubkey req.dealer req.ephemeralPubkey d.members).map
            fun m => (m.validator, m.index) := by
        rw [hids]
        exact List.mem_map_of_mem hdealer
      obtain ⟨m', hm', heq⟩ := List.mem_map.mp hmem
      rw [hset]
      exact ⟨m', hm', (congrArg Prod.fst heq).trans hdealerName⟩
  · rcases hmembers with hsame | hset
    · exact hsame ▸ hm
    · exact hset ▸ mem_setEphemeralPubkey_of_ne hm hother

theorem holdsShare_stable (es : DealerDKGEncryptedShare) (recipient : String)
    (key : Bytes) : RecordStable env (HoldsShare es recipient key) := by
  intro params height d msg d' hvalid hholds hstep
  obtain ⟨hdealer, hmember, hcommitted⟩ := hholds.members hvalid hstep
  rcases hstep.shares_cases with hsame | ⟨new, hfirst, hshares⟩
  · refine ⟨?_, ?_, hdealer, hmember, hcommitted⟩
    · rw [hsame]
      exact hholds.row
    · rw [hsame]
      exact hholds.only
  · refine ⟨(hshares es).mpr (.inl hholds.row), ?_, hdealer, hmember, hcommitted⟩
    intro es' hes' hfrom hindex
    rcases (hshares es').mp hes' with hold | rfl
    · exact hholds.only es' hold hfrom hindex
    · exact absurd hindex.symm (findEncryptedShare_none hfirst es hholds.row hfrom.symm)

theorem HoldsShare.find {recipient : String} (hholds : HoldsShare es recipient key d) :
    findEncryptedShare d es.dealer es.recipientIndex = some es := by
  have hsome : (findEncryptedShare d es.dealer es.recipientIndex).isSome := by
    rw [findEncryptedShare, List.find?_isSome]
    exact ⟨es, hholds.row, by simp⟩
  obtain ⟨found, hfound⟩ := Option.isSome_iff_exists.mp hsome
  have hmatch := List.find?_some hfound
  simp only [Bool.decide_and, Bool.and_eq_true, decide_eq_true_eq] at hmatch
  rw [hfound, hholds.only found (List.mem_of_find?_eq_some hfound) hmatch.1 hmatch.2]

theorem findDKGMember_of_mem (hvalid : RecordValid d) {m : DealerMember}
    (hm : m ∈ d.members) : findDKGMember d m.validator = some m := by
  rw [findDKGMember, findMember, if_neg (hvalid.committee.named m hm)]
  exact find?_key_of_mem hvalid.committee.validators hm

def MsgDkgEncryptedShare.row (req : MsgDkgEncryptedShare) : DealerDKGEncryptedShare :=
  ⟨req.dealer, req.recipientIndex, req.u, req.v, req.proof, req.scalarCt⟩

theorem findDKGCommit_dealer (hcommit : findDKGCommit d v = some commit) : commit.dealer = v := by
  unfold findDKGCommit at hcommit
  split at hcommit
  · cases hcommit
  · simpa using List.find?_some hcommit

theorem ValidAddress.of_commit (hkeys : KeysCommitted env d)
    (hcommit : findDKGCommit d v = some commit) :
    ValidAddress env v := by
  have haddress := hkeys.addressed commit (findDKGCommit_mem hcommit)
  rwa [findDKGCommit_dealer hcommit] at haddress

structure Recipient (env : Env) (d : DealerDKG) (req : MsgDkgEncryptedShare)
    (recipient : DealerMember) : Prop where
  committed : ∃ row ∈ d.commits, row.dealer = recipient.validator
  address : ValidAddress env recipient.validator
  dealer_address : ValidAddress env req.dealer
  differ : recipient.validator ≠ req.dealer

theorem EncryptedShareChecked.recipient_of {pkR u v : env.suite.Point}
    {commitments : List env.suite.Point} (hvalid : RecordValid d) (hkeys : KeysCommitted env d)
    (hchecked : EncryptedShareChecked env.suite d req pkR u v commitments)
    (hrecipient : recipient ∈ d.members) (hindex : recipient.index = req.recipientIndex) :
    Recipient env d req recipient := by
  obtain ⟨mem, hmem, hdiffer, hpkR⟩ := hchecked.recipient
  have hsame : mem = recipient := by
    have hmemIndex : mem.index = req.recipientIndex := by simpa using List.find?_some hmem
    exact List.inj_on_of_nodup_map hvalid.committee.indices
      (List.mem_of_find?_eq_some hmem) hrecipient (hmemIndex.trans hindex.symm)
  subst hsame
  have hkey : mem.ephemeralPubkey ≠ [] := by
    intro hempty
    have hbytes := env.suite.pointFromBytesCanonical_eq_ok.mp hpkR
    have hlength := env.suite.pointBytes_length pkR
    rw [hbytes, hempty] at hlength
    cases hlength
  obtain ⟨row, hrow, hname⟩ := hkeys.committed mem hrecipient hkey
  obtain ⟨commit, hcommit, -⟩ := hchecked.commit
  exact ⟨⟨row, hrow, hname⟩, hname ▸ hkeys.addressed row hrow, .of_commit hkeys hcommit, hdiffer⟩

theorem dkgEncryptedShare_holds {s s' : State env} (hsound : DealerSound s) (hd : s.dkg = some d)
    (hkeys : KeysCommitted env d) (hok : dkgEncryptedShare s block req = .ok s')
    (hrecipient : recipient ∈ d.members) (hindex : recipient.index = req.recipientIndex) :
    Lasts (HoldsShare req.row recipient.validator recipient.ephemeralPubkey) req.epochId s' ∧
      Recipient env d req recipient := by
  have hvalid := hsound.record d hd
  have hok : handleDkg s block (.dkgEncryptedShare req) = .ok s' := hok
  obtain ⟨hid, hhandled⟩ := DkgHandled.of_inFlight hd hok
  have hid : req.epochId = d.epochId := Option.some.inj hid
  cases hhandled with
  | encryptedShare _ hchecked =>
    have hto := hchecked.recipient_of hvalid hkeys hrecipient hindex
    refine ⟨⟨hid ▸ hsound.dkg_lt d hd, ?_⟩, hto⟩
    intro d' hd' _
    cases hd'
    obtain ⟨dealer, hdealer⟩ := Option.isSome_iff_exists.mp hchecked.dealer
    refine ⟨?_, ?_, ⟨dealer, findMember_some hdealer⟩,
      ⟨recipient, hrecipient, rfl, hindex, rfl⟩, hto.committed⟩
    · simp [sortDKGEncryptedShares, mem_sortSlice, MsgDkgEncryptedShare.row]
    · intro es hes hfrom hto
      simp only [sortDKGEncryptedShares, mem_sortSlice, List.mem_append, List.mem_singleton] at hes
      rcases hes with hold | rfl
      · exact absurd hto (findEncryptedShare_none hchecked.fresh es hold hfrom)
      · rfl

/-! ## Complaints -/

def PenaltyAccepted (s : State env) (block : Block) (d : DealerDKG) (v : String) : Prop :=
  ∃ mem next, findDKGMember d v = some mem ∧
    dkgPenalise s block v mem.power (s.staking, d) = .ok next

def committedShare (S : Suite) (d : DealerDKG) (dealer : String) (index : Nat) :
    S.Point :=
  S.evalPowers (commitmentPoints S d dealer) (index : S.Scalar)

/-- A complaint about an accepted share whose ciphertext does not open to the
committed share, with a proof that `dh` belongs to the recipient's key. -/
structure BadShareEvidence (S : Suite) (d : DealerDKG) (req : MsgDkgEncryptedShare)
    (recipient : DealerMember) (complaint : MsgDkgComplaintAEADBad) (v dh : S.Point) :
    Prop where
  complainer : complaint.complainer = recipient.validator
  epochId : complaint.epochId = req.epochId
  dealer : complaint.dealer = req.dealer
  index : complaint.recipientIndex = req.recipientIndex
  decodedV : S.pointFromBytesCanonical req.v = .ok v
  decodedDh : S.pointFromBytesCanonical complaint.dhShare = .ok dh
  proof : ∃ pkR u proof, S.pointFromBytesCanonical recipient.ephemeralPubkey = .ok pkR ∧
    S.pointFromBytesCanonical req.u = .ok u ∧
    S.decodeChaumPedersenProof complaint.dleqProof = .ok proof ∧
    Suite.chaumPedersenVerify pkR u dh proof = .ok true
  bad : ∀ x, S.dkgScalarAeadOpen dh req.scalarCt req.proof = .ok x →
    S.mulBase x ≠ committedShare S d req.dealer req.recipientIndex

structure AeadPunishable (s : State env) (block : Block) (d : DealerDKG) (epochId : Nat)
    (complainer dealer : String) (verdict : ComplaintKind) : Prop where
  epochId : d.epochId = epochId
  window : ComplaintWindow d block.height
  first : findDKGComplaint d complainer dealer = none
  penalty : (verdict = .aeadBad ∧ PenaltyAccepted s block d dealer) ∨
    (verdict = .aeadSpurious ∧ dealer ∈ d.slashed ∧
      PenaltyAccepted s block d complainer)

section AeadBad

variable {s s' : State env} {block : Block} {d d₀ : DealerDKG} {req : MsgDkgEncryptedShare}
  {recipient : DealerMember} {complaint : MsgDkgComplaintAEADBad} {v dh : env.suite.Point}

theorem HoldsShare.provedPoint (hvalid : RecordValid d)
    (hholds : HoldsShare req.row recipient.validator recipient.ephemeralPubkey d)
    (hevidence : BadShareEvidence env.suite d₀ req recipient complaint v dh) :
    ∃ pkR u, ProvedPoint env.suite d complaint req.row pkR u v dh := by
  obtain ⟨pkR, u, proof, hpkR, hu, hproof, hverify⟩ := hevidence.proof
  obtain ⟨mem, hmem, hname, hindex, hkey⟩ := hholds.member
  refine ⟨pkR, u, ⟨mem, ?_, ?_, ?_, ?_⟩, ?_, hu, hevidence.decodedV,
    hevidence.decodedDh, proof, hproof, hverify⟩
  · rw [hevidence.complainer, ← hname]
    exact findDKGMember_of_mem hvalid hmem
  · rw [hevidence.index]
    exact hindex.symm
  · rw [hkey]
    exact length_of_point hpkR
  · rw [hkey]
    exact hpkR
  · rw [hevidence.dealer, hevidence.index]
    exact hholds.find

theorem ProvedPoint.unique {S : Suite} {es es' : DealerDKGEncryptedShare}
    {pkR pkR' u u' v v' dh dh' : S.Point} (h : ProvedPoint S d complaint es pkR u v dh)
    (h' : ProvedPoint S d complaint es' pkR' u' v' dh') : es' = es ∧ v' = v ∧ dh' = dh := by
  have hes : es = es' := Option.some.inj (h.share.symm.trans h'.share)
  subst hes
  exact ⟨rfl, Except.ok.inj (h'.decodedV.symm.trans h.decodedV),
    Except.ok.inj (h'.decodedDh.symm.trans h.decodedDh)⟩

theorem HoldsShare.complaintFiled (hvalid : RecordValid d)
    (hholds : HoldsShare req.row recipient.validator recipient.ephemeralPubkey d)
    (hto : Recipient env d₀ req recipient)
    (hevidence : BadShareEvidence env.suite d₀ req recipient complaint v dh)
    (hepoch : d.epochId = req.epochId) (hwindow : ComplaintWindow d block.height)
    (hfirst : findDKGComplaint d recipient.validator req.dealer = none) :
    ComplaintFiled env d block.height complaint.epochId complaint.complainer complaint.dealer := by
  obtain ⟨mem, hmem, hname, -, -⟩ := hholds.member
  obtain ⟨dealer, hdealer, hdealerName⟩ := hholds.dealer
  have hfound := findDKGMember_of_mem hvalid hmem
  have hfound' := findDKGMember_of_mem hvalid hdealer
  have hnamed := hvalid.committee.named mem hmem
  have hnamed' := hvalid.committee.named dealer hdealer
  rw [hname] at hfound hnamed
  rw [hdealerName] at hfound' hnamed'
  rw [hevidence.complainer, hevidence.dealer, hevidence.epochId, ← hepoch]
  exact ⟨rfl, ⟨hnamed, hnamed', hto.differ, hwindow.1, hwindow.2, Option.isSome_iff_exists.mpr ⟨_,
    hfound⟩, Option.isSome_iff_exists.mpr ⟨_, hfound'⟩, hfirst⟩, hto.address, hto.dealer_address⟩

theorem AeadPunishable.slashes_dealer {epochId : Nat} {complainer dealer : String}
    {verdict : ComplaintKind} (hslashed : SlashedValid d.slashed) (hcomplainer : complainer ≠ "")
    (hdealer : dealer ≠ "")
    (hpunish : AeadPunishable s block d epochId complainer dealer verdict) :
    ∃ mem next, findDKGMember d (atFault verdict complainer dealer) = some mem ∧
      dkgPenalise s block (atFault verdict complainer dealer) mem.power (s.staking, d) =
        .ok next ∧ dealer ∈ next.2.slashed := by
  rcases hpunish.penalty with ⟨rfl, mem, next, hmem, hpenalty⟩ |
    ⟨rfl, hin, mem, next, hmem, hpenalty⟩
  · have hslashes := dkgPenalise_slashes hdealer hslashed hpenalty
    exact ⟨mem, next, hmem, hpenalty, (hslashes.mem_iff _).mpr (.inl rfl)⟩
  · have hslashes := dkgPenalise_slashes hcomplainer hslashed hpenalty
    exact ⟨mem, next, hmem, hpenalty, (hslashes.mem_iff _).mpr (.inr hin)⟩

theorem aeadBad_punished_iff (hsound : DealerSound s)
    (hlasts : Lasts (HoldsShare req.row recipient.validator recipient.ephemeralPubkey)
      req.epochId s)
    (hto : Recipient env d₀ req recipient)
    (hevidence : BadShareEvidence env.suite d₀ req recipient complaint v dh) :
    (∃ s' d', dkgComplaintAEADBad s block complaint = .ok s' ∧ s'.dkg = some d' ∧
      req.dealer ∈ d'.slashed) ↔
      ∃ d, s.dkg = some d ∧ AeadPunishable s block d req.epochId recipient.validator
        req.dealer (adjudicate env.suite dh v req.row) := by
  constructor
  · rintro ⟨s', d', hok, hd', hslashed⟩
    have hhandled : handleDkg s block (.dkgComplaintAEADBad complaint) = .ok s' := hok
    obtain ⟨d, hd, hid⟩ := handleDkg_inFlight rfl hhandled
    have hvalid := hsound.record d hd
    have hholds := hlasts.record d hd (hid.symm.trans hevidence.epochId)
    obtain ⟨hfiled, es, pkR, u, v', dh', hproved, mem, next, hmem, hpenalty, rfl⟩ :=
      (dkgComplaintAEADBad_ok_iff hd).mp hok
    cases hd'
    obtain ⟨_, _, hproved₀⟩ := hholds.provedPoint hvalid hevidence
    obtain ⟨rfl, rfl, rfl⟩ := hproved₀.unique hproved
    rw [hevidence.complainer, hevidence.dealer] at hmem hpenalty hfiled
    refine ⟨d, hd, hid.symm.trans hevidence.epochId,
      ⟨hfiled.checked.after_commits, hfiled.checked.in_window⟩, hfiled.checked.fresh, ?_⟩
    rcases adjudicate_eq dh' v' req.row with hbad | hspurious
    · rw [hbad] at hmem hpenalty
      exact .inl ⟨hbad, mem, next, hmem, hpenalty⟩
    · rw [hspurious] at hmem hpenalty
      refine .inr ⟨hspurious, ?_, mem, next, hmem, hpenalty⟩
      -- The verdict slashes the complainer, so the dealer was slashed before.
      have hslashes :=
        dkgPenalise_slashes hfiled.checked.complainer_named hvalid.slashed hpenalty
      exact ((hslashes.mem_iff _).mp hslashed).resolve_left (Ne.symm hto.differ)
  · rintro ⟨d, hd, hpunish⟩
    have hvalid := hsound.record d hd
    have hholds := hlasts.record d hd hpunish.epochId
    have hfiled := hholds.complaintFiled hvalid hto hevidence hpunish.epochId
      hpunish.window hpunish.first
    obtain ⟨pkR, u, hproved⟩ := hholds.provedPoint hvalid hevidence
    rw [← hevidence.complainer, ← hevidence.dealer] at hpunish
    obtain ⟨mem, next, hmem, hpenalty, hin⟩ := hpunish.slashes_dealer hvalid.slashed
      hfiled.checked.complainer_named hfiled.checked.dealer_named
    rw [hevidence.dealer] at hin
    exact ⟨_, _, (dkgComplaintAEADBad_ok_iff hd).mpr ⟨hfiled, req.row, pkR, u, v, dh,
      hproved, mem, next, hmem, hpenalty, rfl⟩, rfl, hin⟩

end AeadBad

/-! ## Signed shares -/

/-- A complaint with a share message that the dealer has signed for the complainer and
whose bytes do not encode the committed share. -/
structure BadSignedShare (S : Suite) (d : DealerDKG) (req : MsgDkgComplaintInvalid)
    (sm : DkgShareMsgV1) (recipient : DealerMember) : Prop where
  epochId : req.epochId = d.epochId
  differ : req.complainer ≠ req.dealer
  signed : SignedShare S d req.complainer req.dealer req.shareMsg sm recipient
  bad : ∀ commit, findDKGCommit d req.dealer = some commit → ∀ x,
    S.mulBase x = committedShare S d req.dealer recipient.index →
    S.scalarBytes x ≠ sm.share

section Signed

variable {s : State env} {block : Block} {d : DealerDKG}
  {req : MsgDkgComplaintInvalid} {sm : DkgShareMsgV1} {recipient : DealerMember}

variable {S : Suite} {dealer : String} {commit : DealerDKGCommit}

theorem dkgEvalCommitment_of_commit (hdecode : CommitsDecode S d)
    (hcommit : findDKGCommit d dealer = some commit) (index : Nat) :
    dkgEvalCommitment S commit.commitments index = .ok (committedShare S d dealer index) := by
  obtain ⟨points, hpoints⟩ := decodeCommitments_succeeds
    (fun i err => s!"commitment[{i}] invalid: " ++ err)
    (hdecode commit (findDKGCommit_mem hcommit))
  rw [dkgEvalCommitment, hpoints, ok_bind, committedShare, commitmentPoints, hcommit,
    decodeCommitments_eq hpoints]
  rfl

theorem dkgVerifyShare_scalarBytes (hdecode : CommitsDecode S d)
    (hcommit : findDKGCommit d dealer = some commit) (index : Nat) (x : S.Scalar) :
    dkgVerifyShare S commit.commitments index (S.scalarBytes x) =
      .ok (decide (S.mulBase x = committedShare S d dealer index)) := by
  rw [dkgVerifyShare, rejectIf_bind (by simp [S.scalarBytes_length]),
    S.scalarFromBytesCanonical_eq_ok.mpr rfl, ok_bind,
    dkgEvalCommitment_of_commit hdecode hcommit, ok_bind]
  rfl

theorem BadSignedShare.convicting_iff (hdecode : CommitsDecode env.suite d)
    (hshare : BadSignedShare env.suite d req sm recipient) :
    ConvictingShare env.suite d req.dealer recipient sm.share ↔ findDKGCommit d req.dealer = none ∨
        ∃ x, env.suite.scalarFromBytesCanonical sm.share = .ok x := by
  constructor
  · rintro (hnone | ⟨commit, -, hverify⟩)
    · exact .inl hnone
    · simp only [dkgVerifyShare, ok_iff] at hverify
      obtain ⟨-, -, x, hx, -⟩ := hverify
      exact .inr ⟨x, hx⟩
  · rintro (hnone | ⟨x, hx⟩)
    · exact .inl hnone
    cases hcommit : findDKGCommit d req.dealer with
    | none => exact .inl hcommit
    | some commit =>
      refine .inr ⟨commit, hcommit, ?_⟩
      have hbytes := env.suite.scalarFromBytesCanonical_eq_ok.mp hx
      have hdiffer : env.suite.mulBase x ≠ committedShare env.suite d req.dealer recipient.index :=
        fun hsame => hshare.bad commit hcommit x hsame hbytes
      rw [← hbytes, dkgVerifyShare_scalarBytes hdecode hcommit, decide_eq_false hdiffer]

theorem signed_punished_iff (hvalid : RecordValid d) (hdecode : CommitsDecode env.suite d)
    (hd : s.dkg = some d) (hshare : BadSignedShare env.suite d req sm recipient)
    (hwindow : ComplaintWindow d block.height)
    (hfirst : findDKGComplaint d req.complainer req.dealer = none) :
    (∃ s' d', dkgComplaintInvalid s block req = .ok s' ∧ s'.dkg = some d' ∧
      req.dealer ∈ d'.slashed) ↔
      (findDKGCommit d req.dealer = none ∨
        ∃ x, env.suite.scalarFromBytesCanonical sm.share = .ok x) ∧
      ValidAddress env req.complainer ∧ ValidAddress env req.dealer ∧
      PenaltyAccepted s block d req.dealer := by
  rw [← hshare.convicting_iff hdecode]
  constructor
  · rintro ⟨s', d', hok, -, -⟩
    obtain ⟨hfiled, sm', recipient', hsigned, hconvicts, mem, next, hmem, hpenalty, -⟩ :=
      (dkgComplaintInvalid_ok_iff hd).mp hok
    cases Except.ok.inj (hshare.signed.decoded.symm.trans hsigned.decoded)
    cases Option.some.inj (hshare.signed.member.symm.trans hsigned.member)
    exact ⟨hconvicts, hfiled.complainer, hfiled.dealer, mem, next, hmem, hpenalty⟩
  · rintro ⟨hconvicts, hcomplainer, hdealer, mem, next, hmem, hpenalty⟩
    have hmember : ∀ {v m}, findDKGMember d v = some m → v ≠ "" := by
      intro v m hfind hempty
      rw [findDKGMember, findMember, if_pos hempty] at hfind
      cases hfind
    have hfiled : ComplaintFiled env d block.height req.epochId req.complainer req.dealer :=
      ⟨hshare.epochId, ⟨hmember hshare.signed.member, hmember hmem, hshare.differ,
        hwindow.1, hwindow.2, Option.isSome_iff_exists.mpr ⟨_, hshare.signed.member⟩,
        Option.isSome_iff_exists.mpr ⟨_, hmem⟩, hfirst⟩, hcomplainer, hdealer⟩
    have hslashes := dkgPenalise_slashes (hmember hmem) hvalid.slashed hpenalty
    exact ⟨_, _, (dkgComplaintInvalid_ok_iff hd).mpr ⟨hfiled, sm, recipient, hshare.signed,
      hconvicts, mem, next, hmem, hpenalty, rfl⟩, rfl, (hslashes.mem_iff _).mpr (.inl rfl)⟩

end Signed

/-! ## Bad shares stay punishable -/

def SlashedInDkg (v : String) (s : State env) : Prop :=
  ∃ d, s.dkg = some d ∧ v ∈ d.slashed

theorem bad_share_punished_iff (env : Env) (balances : env.poker.bank.Balances)
    (staking : env.staking.Staking) (params : Params) (messages : List (Msg env))
    {d : DealerDKG}
    (hd : (run handle (Chain.genesis env balances staking params)
      messages).dealer.dkg = some d) :
    (∀ block req c₁,
      handle (run handle (Chain.genesis env balances staking params) messages)
        (.dkg block (.dkgEncryptedShare req)) = .ok c₁ →
      ∀ recipient ∈ d.members, recipient.index = req.recipientIndex →
      ∀ complaint v dh,
        BadShareEvidence env.suite d req recipient complaint v dh →
        ((committedShare env.suite d req.dealer req.recipientIndex = v - dh →
            adjudicate env.suite dh v req.row = .aeadBad) ∧
          ∀ later block',
            ((∃ c', handle (run handle c₁ later)
                (.dkg block' (.dkgComplaintAEADBad complaint)) = .ok c' ∧
                SlashedInDkg req.dealer c'.dealer) ↔
              ∃ d₂, (run handle c₁ later).dealer.dkg = some d₂ ∧
                AeadPunishable (run handle c₁ later).dealer block' d₂ req.epochId
                  recipient.validator req.dealer (adjudicate env.suite dh v req.row)))) ∧
    ∀ block req sm recipient, BadSignedShare env.suite d req sm recipient →
      ComplaintWindow d block.height →
      findDKGComplaint d req.complainer req.dealer = none →
      ((∃ c', handle (run handle (Chain.genesis env balances staking params) messages)
          (.dkg block (.dkgComplaintInvalid req)) = .ok c' ∧
          SlashedInDkg req.dealer c'.dealer) ↔
        (findDKGCommit d req.dealer = none ∨
          ∃ x, env.suite.scalarFromBytesCanonical sm.share = .ok x) ∧
        ValidAddress env req.complainer ∧ ValidAddress env req.dealer ∧
        PenaltyAccepted
          (run handle (Chain.genesis env balances staking params) messages).dealer
          block d req.dealer) := by
  have hreach := reachable_run balances staking params messages
  have hsound := reachable_dealerSound hreach
  constructor
  · intro block req c₁ hok recipient hrecipient hindex complaint v dh hevidence
    constructor
    · intro htrue
      unfold adjudicate
      split
      · rfl
      · rename_i x hx
        rw [if_pos]
        rw [← htrue]
        exact hevidence.bad x hx
    · intro later block'
      have hshare := hok
      simp only [handle, ok_iff] at hshare
      obtain ⟨s₁, hs₁, rfl⟩ := hshare
      obtain ⟨hlasts, hto⟩ := dkgEncryptedShare_holds hsound hd
        (reachable_keysCommitted hreach d hd) hs₁ hrecipient hindex
      obtain ⟨hsound₂, hlasts₂⟩ :=
        hlasts.run (holdsShare_stable _ _ _) (handle_sound hsound hok) later
      rw [handle_dkg_iff, ← aeadBad_punished_iff hsound₂ hlasts₂ hto hevidence]
      simp only [SlashedInDkg, handleDkg, exists_and_left]
  · intro block req sm recipient hshare hwindow hfirst
    rw [handle_dkg_iff, ← signed_punished_iff (hsound.record d hd)
      (reachable_commitsDecode hreach d hd) hd hshare hwindow hfirst]
    simp only [SlashedInDkg, handleDkg, exists_and_left]

/-- All commit; the committed share of `B` for `C` is `11`. -/
def committedRun : List (Msg residueEnv) := correctShareRun.take 5

def badShare : MsgDkgEncryptedShare :=
  ⟨"B", 1, 3, residueBytes 1, residueBytes 12,
    residueBytes 0 ++ residueBytes 0 ++ residueBytes 0 ++ residueBytes 11 ++
      residueBytes 1,
    residueBytes 12 ++ List.replicate 16 0⟩

/-- A share message of `B` for `C`, with the signature left out. -/
def signedShareMsg (share : Bytes) : Bytes :=
  stringBytes "OCP1" ++ [1, 0, 0, 0, 0, 0, 0, 0] ++ [1, 0] ++ stringBytes "B" ++
    [1, 0] ++ stringBytes "C" ++ share ++ List.replicate 64 0

def decodedShareMsg (share : Bytes) : DkgShareMsgV1 :=
  ⟨1, stringBytes "B", stringBytes "C", share, List.replicate 64 0,
    (signedShareMsg share).take ((signedShareMsg share).length - 64)⟩

def signedComplaint (share : Bytes) : MsgDkgComplaintInvalid :=
  ⟨"C", 1, "B", signedShareMsg share⟩

/-- Too large for a scalar of ristretto255, as for a residue. -/
def notCanonical : Bytes := List.replicate 32 255

theorem badShare_evidence (hname : recipient.validator = "C")
    (hkey : recipient.ephemeralPubkey = residueBytes 1)
    (hshare : committedShare residueSuite d "B" 3 = (11 : ZMod 53)) :
    BadShareEvidence residueSuite d badShare recipient aeadComplaint
      (12 : ZMod 53) (1 : ZMod 53) := by
  have hopen : residueSuite.dkgScalarAeadOpen (1 : ZMod 53) badShare.scalarCt
      badShare.proof = .ok (12 : ZMod 53) := by
    decide +kernel
  refine ⟨hname.symm, rfl, rfl, rfl, by decide +kernel, by decide +kernel, ?_, ?_⟩
  · rw [hkey]
    exact ⟨(1 : ZMod 53), (1 : ZMod 53), ⟨(0 : ZMod 53), (0 : ZMod 53), (1 : ZMod 53)⟩,
      by decide +kernel, by decide +kernel, rfl, by decide +kernel⟩
  · intro x hx
    cases Except.ok.inj (hopen.symm.trans hx)
    change residueSuite.mulBase (12 : ZMod 53) ≠ committedShare residueSuite d "B" 3
    rw [hshare]
    exact (by decide : (12 : ZMod 53) * 1 ≠ 11)

theorem badSignedShare_of {dealer : DealerMember} {share : Bytes}
    (hdecoded : decodeDKGShareMsgV1 (signedShareMsg share) = .ok (decodedShareMsg share))
    (hepoch : d.epochId = 1) (hmember : findDKGMember d "C" = some recipient)
    (hdealer : findDKGMember d "B" = some dealer) (hkey : dealer.consPubkey.length = 32)
    (hshare : committedShare residueSuite d "B" recipient.index = (11 : ZMod 53))
    (hbad : residueBytes 11 ≠ share) :
    BadSignedShare residueSuite d (signedComplaint share) (decodedShareMsg share) recipient := by
  have hdiffer : "C" ≠ "B" := by decide
  have hsigned : verifyShareMsgSig residueSuite dealer.consPubkey
      (decodedShareMsg share) = true := by
    simp [verifyShareMsgSig, hkey, residueSuite]
  refine ⟨hepoch.symm, hdiffer, ⟨hdecoded, hepoch.symm, rfl, rfl, hmember,
    ⟨dealer, hdealer, hsigned⟩⟩, ?_⟩
  intro commit _ x hx
  have heleven : x = (11 : ZMod 53) := by
    have hpoint : x * 1 = (11 : ZMod 53) := hx.trans hshare
    rwa [mul_one] at hpoint
  subst heleven
  exact hbad

instance (d : DealerDKG) (dealer : String) (index : Nat) (y : ZMod 53) :
    Decidable (committedShare residueSuite d dealer index = y) :=
  residueSuite.decEq _ _

theorem committedRun_record : ∃ d ∈ (run handle residueGenesis committedRun).dealer.dkg,
      d.epochId = 1 ∧ d.commitDeadline ≤ 3 ∧ 3 ≤ d.complaintDeadline ∧
      findDKGComplaint d "C" "B" = none ∧
      ∃ recipient ∈ findDKGMember d "C", recipient ∈ d.members ∧
        recipient.index = 3 ∧ recipient.validator = "C" ∧
        recipient.ephemeralPubkey = residueBytes 1 ∧
        committedShare residueSuite d "B" recipient.index = (11 : ZMod 53) ∧
        ∃ dealer ∈ findDKGMember d "B", dealer.consPubkey.length = 32 := by
  decide +kernel

theorem badShares_unpunished :
    ∃ d, (run handle residueGenesis committedRun).dealer.dkg = some d ∧
      (∃ c₁ recipient, handle (run handle residueGenesis committedRun)
          (dkgMsgAt 4 (.dkgEncryptedShare badShare)) = .ok c₁ ∧
        recipient ∈ d.members ∧ recipient.index = badShare.recipientIndex ∧
        BadShareEvidence residueSuite d badShare recipient aeadComplaint
          (12 : ZMod 53) (1 : ZMod 53) ∧
        (handle c₁ (dkgMsgAt 5 (.dkgComplaintAEADBad aeadComplaint))).isOk = false) ∧
      ∃ sm recipient,
        BadSignedShare residueSuite d (signedComplaint notCanonical) sm recipient ∧
        ComplaintWindow d 3 ∧ findDKGComplaint d "C" "B" = none ∧
        (handle (run handle residueGenesis committedRun)
          (dkgMsgAt 3 (.dkgComplaintInvalid (signedComplaint notCanonical)))).isOk =
            false := by
  obtain ⟨c₁, hok⟩ := isOk_iff.mp (by decide +kernel :
    (handle (run handle residueGenesis committedRun)
      (dkgMsgAt 4 (.dkgEncryptedShare badShare))).isOk = true)
  have hlate : (handle (deliver handle (run handle residueGenesis committedRun)
      (dkgMsgAt 4 (.dkgEncryptedShare badShare)))
        (dkgMsgAt 5 (.dkgComplaintAEADBad aeadComplaint))).isOk = false := by
    decide +kernel
  rw [deliver_of_ok hok] at hlate
  obtain ⟨d, hd, hepoch, hafter, hbefore, hfirst, recipient, hmember, hin, hindex, hname,
    hkey, hshare, dealer, hdealer, hcons⟩ := committedRun_record
  have hshare' : committedShare residueSuite d "B" 3 = (11 : ZMod 53) := hindex ▸ hshare
  exact ⟨d, hd, ⟨c₁, recipient, hok, hin, hindex,
      badShare_evidence hname hkey hshare', hlate⟩,
    decodedShareMsg notCanonical, recipient,
    badSignedShare_of rfl hepoch hmember hdealer hcons hshare (by decide),
    ⟨hafter, hbefore⟩, hfirst, by decide +kernel⟩

theorem committedRun_punished :
    (∃ c₁ c', handle (run handle residueGenesis committedRun)
        (dkgMsgAt 2 (.dkgEncryptedShare badShare)) = .ok c₁ ∧
      handle (run handle c₁ []) (dkgMsgAt 3 (.dkgComplaintAEADBad aeadComplaint)) =
        .ok c' ∧
      SlashedInDkg "B" c'.dealer) ∧
    ∃ c', handle (run handle residueGenesis committedRun)
        (dkgMsgAt 3 (.dkgComplaintInvalid (signedComplaint (residueBytes 12)))) = .ok c' ∧
      SlashedInDkg "B" c'.dealer := by
  obtain ⟨c₁, hok⟩ := isOk_iff.mp (by decide +kernel :
    (handle (run handle residueGenesis committedRun)
      (dkgMsgAt 2 (.dkgEncryptedShare badShare))).isOk = true)
  obtain ⟨d, hd, hepoch, hafter, hbefore, hfirst, recipient, hmember, hin, hindex, hname,
    hkey, hshare, dealer, hdealer, hcons⟩ := committedRun_record
  have hshare' : committedShare residueSuite d "B" 3 = (11 : ZMod 53) := hindex ▸ hshare
  have hsigned : BadSignedShare residueSuite d (signedComplaint (residueBytes 12))
      (decodedShareMsg (residueBytes 12)) recipient :=
    badSignedShare_of rfl hepoch hmember hdealer hcons hshare (by decide)
  obtain ⟨next, hpenalty⟩ := residueEnv_dkgPenalise
    (run handle residueGenesis committedRun).dealer ⟨3, 1000, by decide, by decide⟩ "B"
    dealer.power ((run handle residueGenesis committedRun).dealer.staking, d)
  obtain ⟨d₂, hd₂, hepoch₂, hafter₂, hbefore₂, hfirst₂, dealer₂, hdealer₂⟩ :
      ∃ d₂ ∈ (deliver handle (run handle residueGenesis committedRun)
        (dkgMsgAt 2 (.dkgEncryptedShare badShare))).dealer.dkg,
      d₂.epochId = 1 ∧ d₂.commitDeadline ≤ 3 ∧ 3 ≤ d₂.complaintDeadline ∧
      findDKGComplaint d₂ "C" "B" = none ∧
      ∃ dealer₂, findDKGMember d₂ "B" = some dealer₂ := by
    simp only [← Option.isSome_iff_exists]
    decide +kernel
  rw [deliver_of_ok hok] at hd₂
  obtain ⟨next₂, hpenalty₂⟩ := residueEnv_dkgPenalise c₁.dealer
    ⟨3, 1000, by decide, by decide⟩ "B" dealer₂.power (c₁.dealer.staking, d₂)
  obtain ⟨hposted, hinvalid⟩ := bad_share_punished_iff residueEnv (0 : Nat) ()
    residueParams committedRun hd
  constructor
  · obtain ⟨htrue, hiff⟩ := hposted _ badShare c₁ hok recipient hin hindex aeadComplaint
      (12 : ZMod 53) (1 : ZMod 53) (badShare_evidence hname hkey hshare')
    have hpunishable : AeadPunishable c₁.dealer ⟨3, 1000, by decide, by decide⟩ d₂ 1
        recipient.validator "B"
        (adjudicate residueSuite (1 : ZMod 53) (12 : ZMod 53) badShare.row) := by
      rw [hname]
      exact ⟨hepoch₂, ⟨hafter₂, hbefore₂⟩, hfirst₂,
        .inl ⟨by decide +kernel, dealer₂, next₂, hdealer₂, hpenalty₂⟩⟩
    obtain ⟨c', hc', hslashed⟩ := (hiff [] _).mpr ⟨d₂, hd₂, hpunishable⟩
    exact ⟨c₁, c', hok, hc', hslashed⟩
  · exact (hinvalid ⟨3, 1000, by decide, by decide⟩ _ _ recipient hsigned
      ⟨hafter, hbefore⟩ hfirst).mpr ⟨.inr ⟨(12 : ZMod 53), by decide +kernel⟩, rfl, rfl,
        dealer, next, hdealer, hpenalty⟩

end OnChainPoker.Dealer
