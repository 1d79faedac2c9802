import Mathlib.Data.List.Sort
import Mathlib.Data.Prod.Lex
import OnChainPoker.Dealer.Slashing
import OnChainPoker.Dealer.System

/-!
# What a DKG message does

`DkgHandled` lists what the handlers of the messages to a DKG in flight check and
write.  `DkgMove` lists the changes an accepted message makes to the record,
and `DkgEffect` adds how a DKG begins and how it ends.  Invariants of the record are
proved from these and never from the handlers.
-/

namespace OnChainPoker.Dealer

open Foundation Crypto
open Poker (Block addUint64Checked_ok)

variable {env : Env}

/-! ## Sorting -/

theorem mem_sortSlice {α : Type} {less : α → α → Bool} {l : List α} {a : α} :
    a ∈ sortSlice less l ↔ a ∈ l :=
  List.mem_insertionSort _

theorem sortSlice_perm {α : Type} (less : α → α → Bool) (l : List α) : (sortSlice less l).Perm l :=
  List.perm_insertionSort _ _

section UniqueKeys

variable {α κ μ : Type} [LinearOrder κ] [LinearOrder μ]

theorem sortSlice_eq_of_perm {less : α → α → Bool}
    (htotal : ∀ a b, less b a = false ∨ less a b = false)
    (htrans : ∀ a b c, less b a = false → less c b = false → less c a = false) {l l' : List α}
    (hperm : l.Perm l') (hkeys : ∀ a ∈ l', ∀ b ∈ l', less b a = false → less a b = false → a = b) :
    sortSlice less l = sortSlice less l' := by
  have : Std.Total fun a b => less b a = false := ⟨htotal⟩
  have : IsTrans α fun a b => less b a = false := ⟨htrans⟩
  have hsame : (sortSlice less l).Perm (sortSlice less l') :=
    ((sortSlice_perm less l).trans hperm).trans (sortSlice_perm less l').symm
  refine hsame.eq_of_pairwise (fun a b ha hb => ?_) (List.pairwise_insertionSort _ l)
    (List.pairwise_insertionSort _ l')
  exact hkeys a (hperm.mem_iff.mp (mem_sortSlice.mp ha)) b (mem_sortSlice.mp hb)

theorem sortSlice_eq_of_keys {less : α → α → Bool} {key : α → κ}
    (hless : ∀ a b, less a b = true ↔ key a < key b) {l l' : List α} (hperm : l.Perm l')
    (hkeys : Set.InjOn key {a | a ∈ l'}) : sortSlice less l = sortSlice less l' := by
  have hfalse (a b : α) : less b a = false ↔ key a ≤ key b := by
    rw [← not_lt, ← hless, Bool.not_eq_true]
  refine sortSlice_eq_of_perm ?_ ?_ hperm ?_ <;> simp only [hfalse]
  · exact fun a b => le_total _ _
  · exact fun a b c => le_trans
  · exact fun a ha b hb hab hba => hkeys ha hb (le_antisymm hab hba)

theorem lessBy_iff [DecidableEq κ] [DecidableLT κ] [DecidableLT μ] (first : α → κ)
    (second : α → μ) (a b : α) : lessBy first second a b = true ↔
      toLex (first a, second a) < toLex (first b, second b) := by
  rw [lessBy, Prod.Lex.toLex_lt_toLex]
  by_cases hfirst : first a = first b <;> simp [hfirst]

end UniqueKeys

/-! ## Moves -/

def guiltyOf (kind : ComplaintKind) (complainer dealer : String) : Set String :=
  match kind with
  | .missing => ∅
  | .invalid => {dealer}
  | .aeadBad => {dealer}
  | .aeadSpurious => {complainer}

structure ComplaintChecked (d : DealerDKG) (height : Int)
    (complainer dealer : String) : Prop where
  complainer_named : complainer ≠ ""
  dealer_named : dealer ≠ ""
  differ : complainer ≠ dealer
  after_commits : d.commitDeadline ≤ height
  in_window : height ≤ d.complaintDeadline
  complainer_member : (findDKGMember d complainer).isSome
  dealer_member : (findDKGMember d dealer).isSome
  fresh : findDKGComplaint d complainer dealer = none

inductive DkgMove (S : Suite) (params : Params) (height : Int) :
    DealerDKG → DealerDKG → Prop
  | commit {d : DealerDKG} {dealer : String} {commitments : List Bytes}
      {key : Bytes} :
      dealer ≠ "" → height ≤ d.commitDeadline →
      (findDKGMember d dealer).isSome → findDKGCommit d dealer = none →
      commitments.length = d.threshold → checkCommitments S 0 commitments = .ok () →
      DkgMove S params height d { d with
        members := if key = [] then d.members
          else setEphemeralPubkey dealer key d.members
        commits := sortDKGCommits (d.commits ++ [⟨dealer, commitments⟩]) }
  | encryptedShare {d : DealerDKG} {share : DealerDKGEncryptedShare} :
      height ≤ d.revealDeadline → (findDKGCommit d share.dealer).isSome →
      DkgMove S params height d { d with
        encryptedShares := sortDKGEncryptedShares (d.encryptedShares ++ [share]) }
  | complaint {d d' : DealerDKG} {complainer dealer : String}
      {kind : ComplaintKind} {shareMsg : Bytes} :
      ComplaintChecked d height complainer dealer →
      Slashes d d' (guiltyOf kind complainer dealer) →
      DkgMove S params height d (addComplaint d' complainer dealer kind shareMsg)
  | reveal {d : DealerDKG} {row : DealerDKGShareReveal} {commit : DealerDKGCommit}
      {mem : DealerMember} :
      params.dkgVersionOrDefault < 2 → row.dealer ≠ row.recipient →
      findDKGMember d row.recipient = some mem →
      (findDKGComplaint d row.recipient row.dealer).isSome →
      findDKGReveal d row.dealer row.recipient = none →
      findDKGCommit d row.dealer = some commit →
      dkgVerifyShare S commit.commitments mem.index row.share = .ok true →
      DkgMove S params height d { d with
        reveals := sortDKGReveals (d.reveals ++ [row]) }
  | timeout {d d' : DealerDKG} :
      d.commitDeadline < height → Slashes d d' (Uncommitted d) →
      DkgMove S params height d d'

structure FreshDkg (env : Env) (s : State env) (d : DealerDKG) : Prop where
  epochId : d.epochId = s.nextEpochId
  threshold : 2 ≤ d.threshold
  members : ∃ snaps, dealerMembersFromSnapshots snaps = .ok d.members
  commits : d.commits = []
  complaints : d.complaints = []
  reveals : d.reveals = []
  slashed : d.slashed = []
  encryptedShares : d.encryptedShares = []
  window : d.complaintDeadline < d.revealDeadline

inductive DkgEffect (s : State env) (height : Int) : State env → Prop
  | begun {d : DealerDKG} {staking : env.staking.Staking} :
      s.dkg = none → FreshDkg env s d →
      DkgEffect s height
        { s with staking := staking, dkg := some d, nextEpochId := s.nextEpochId + 1 }
  | moved {d d' : DealerDKG} {staking : env.staking.Staking} :
      s.dkg = some d → DkgMove env.suite s.params height d d' →
      DkgEffect s height { s with staking := staking, dkg := some d' }
  | aborted {d : DealerDKG} {staking : env.staking.Staking} :
      s.dkg = some d →
      DkgEffect s height { s with staking := staking, dkg := none }
  | finalised {d d' : DealerDKG} {staking : env.staking.Staking}
      {epoch : DealerEpoch} :
      s.dkg = some d →
      Slashes d d' (Uncommitted d ∪ Unresolved env.suite d) →
      d'.threshold ≤ (qualMembers d'.members d'.slashed).length →
      computeEpoch env.suite d' = .ok epoch →
      DkgEffect s height { s with staking := staking, epoch := some epoch, dkg := none }

/-! ## Evidence -/

def ValidAddress (env : Env) (valoper : String) : Prop :=
  (env.staking.valAddressFromBech32 valoper).isOk = true

theorem requireValAddress_eq_ok {valoper role : String} {u : Unit} :
    requireValAddress env valoper role = .ok u ↔ ValidAddress env valoper := by
  unfold requireValAddress ValidAddress
  cases env.staking.valAddressFromBech32 valoper with
  | ok _ | error _ => simp [Except.isOk, Except.toBool]

def pointOf (S : Suite) (b : Bytes) : S.Point :=
  match S.pointFromBytesCanonical b with
  | .ok p => p
  | .error _ => 0

theorem pointOf_eq {S : Suite} {b : Bytes} {p : S.Point}
    (hok : S.pointFromBytesCanonical b = .ok p) : pointOf S b = p := by
  unfold pointOf
  rw [hok]

theorem decodeCommitments_eq {S : Suite} {errorText : Nat → String → String} {i : Nat}
    {bytes : List Bytes} {points : List S.Point}
    (hok : decodeCommitments S errorText i bytes = .ok points) :
    points = bytes.map (pointOf S) := by
  induction bytes generalizing i points with
  | nil =>
    cases hok
    rfl
  | cons b rest ih =>
    simp only [decodeCommitments, ok_iff] at hok
    obtain ⟨p, hp, tail, htail, rfl⟩ := hok
    rw [List.map_cons, pointOf_eq hp, ih htail]

structure SignedShare (S : Suite) (d : DealerDKG) (complainer dealer : String)
    (bytes : Bytes) (sm : DkgShareMsgV1) (recipient : DealerMember) : Prop where
  decoded : decodeDKGShareMsgV1 bytes = .ok sm
  epochID : sm.epochID = d.epochId
  sender : sm.dealer = stringBytes dealer
  addressee : sm.recipient = stringBytes complainer
  member : findDKGMember d complainer = some recipient
  signed : ∃ mem, findDKGMember d dealer = some mem ∧
    verifyShareMsgSig S mem.consPubkey sm = true

def ConvictingShare (S : Suite) (d : DealerDKG) (dealer : String)
    (recipient : DealerMember) (share : Bytes) : Prop :=
  findDKGCommit d dealer = none ∨ ∃ commit, findDKGCommit d dealer = some commit ∧
    dkgVerifyShare S commit.commitments recipient.index share = .ok false

structure ProvedPoint (S : Suite) (d : DealerDKG) (req : MsgDkgComplaintAEADBad)
    (es : DealerDKGEncryptedShare) (pkR u v dh : S.Point) : Prop where
  recipient : ∃ mem, findDKGMember d req.complainer = some mem ∧
    req.recipientIndex = mem.index ∧ mem.ephemeralPubkey.length = 32 ∧
    S.pointFromBytesCanonical mem.ephemeralPubkey = .ok pkR
  share : findEncryptedShare d req.dealer req.recipientIndex = some es
  decodedU : S.pointFromBytesCanonical es.u = .ok u
  decodedV : S.pointFromBytesCanonical es.v = .ok v
  decodedDh : S.pointFromBytesCanonical req.dhShare = .ok dh
  proof : ∃ proof, S.decodeChaumPedersenProof req.dleqProof = .ok proof ∧
    Suite.chaumPedersenVerify pkR u dh proof = .ok true

structure EncryptedShareChecked (S : Suite) (d : DealerDKG)
    (req : MsgDkgEncryptedShare) (pkR u v : S.Point) (commitments : List S.Point) :
    Prop where
  dealer : (findDKGMember d req.dealer).isSome
  recipient : ∃ mem, d.members.find? (·.index = req.recipientIndex) = some mem ∧
    mem.validator ≠ req.dealer ∧
    S.pointFromBytesCanonical mem.ephemeralPubkey = .ok pkR
  commit : ∃ commit, findDKGCommit d req.dealer = some commit ∧
    commitments = commit.commitments.map (pointOf S)
  decodedU : S.pointFromBytesCanonical req.u = .ok u
  decodedV : S.pointFromBytesCanonical req.v = .ok v
  proof : ∃ proof, S.decodeDkgEncShareProof req.proof = .ok proof ∧
    Suite.dkgEncShareVerify commitments req.recipientIndex pkR u v proof = .ok true
  fresh : findEncryptedShare d req.dealer req.recipientIndex = none

structure ComplaintFiled (env : Env) (d : DealerDKG) (height : Int) (epochId : Nat)
    (complainer dealer : String) : Prop where
  epochId : epochId = d.epochId
  checked : ComplaintChecked d height complainer dealer
  complainer : ValidAddress env complainer
  dealer : ValidAddress env dealer

def atFault (verdict : ComplaintKind) (complainer dealer : String) : String :=
  if verdict = .aeadBad then dealer else complainer

def DkgMsg.epochOf : DkgMsg → Option Nat
  | .beginEpoch _ => none
  | .dkgCommit req => some req.epochId
  | .dkgEncryptedShare req => some req.epochId
  | .dkgComplaintMissing req => some req.epochId
  | .dkgComplaintInvalid req => some req.epochId
  | .dkgComplaintAEADBad req => some req.epochId
  | .dkgShareReveal req => some req.epochId
  | .finalizeEpoch req => some req.epochId
  | .dkgTimeout req => some req.epochId

/-! ## The handlers -/

/-- An accepted message to the DKG `d` in flight: what its handler found, and the
state it left. -/
inductive DkgHandled (s : State env) (block : Block) (d : DealerDKG) :
    DkgMsg → State env → Prop
  | commit {req : MsgDkgCommit} :
      req.dealer ≠ "" → ValidAddress env req.dealer →
      block.height ≤ d.commitDeadline → (findDKGMember d req.dealer).isSome →
      findDKGCommit d req.dealer = none → req.commitments.length = d.threshold →
      checkCommitments env.suite 0 req.commitments = .ok () →
      DkgHandled s block d (.dkgCommit req) { s with dkg := some { d with
        members := if req.ephemeralPubkey = [] then d.members
          else setEphemeralPubkey req.dealer req.ephemeralPubkey d.members
        commits := sortDKGCommits (d.commits ++ [⟨req.dealer, req.commitments⟩]) } }
  | encryptedShare {req : MsgDkgEncryptedShare} {pkR u v : env.suite.Point}
      {commitments : List env.suite.Point} :
      block.height ≤ d.revealDeadline →
      EncryptedShareChecked env.suite d req pkR u v commitments →
      DkgHandled s block d (.dkgEncryptedShare req) { s with dkg := some { d with
        encryptedShares := sortDKGEncryptedShares (d.encryptedShares ++
          [⟨req.dealer, req.recipientIndex, req.u, req.v, req.proof, req.scalarCt⟩]) } }
  | missing {req : MsgDkgComplaintMissing} :
      ComplaintFiled env d block.height req.epochId req.complainer req.dealer →
      DkgHandled s block d (.dkgComplaintMissing req) { s with
        dkg := some (addComplaint d req.complainer req.dealer .missing []) }
  | invalid {req : MsgDkgComplaintInvalid} {sm : DkgShareMsgV1}
      {recipient mem : DealerMember} {next : env.staking.Staking × DealerDKG} :
      ComplaintFiled env d block.height req.epochId req.complainer req.dealer →
      SignedShare env.suite d req.complainer req.dealer req.shareMsg sm recipient →
      ConvictingShare env.suite d req.dealer recipient sm.share →
      findDKGMember d req.dealer = some mem →
      dkgPenalise s block req.dealer mem.power (s.staking, d) = .ok next →
      DkgHandled s block d (.dkgComplaintInvalid req) { s with
        staking := next.1
        dkg := some (addComplaint next.2 req.complainer req.dealer .invalid
          req.shareMsg) }
  | aeadBad {req : MsgDkgComplaintAEADBad} {es : DealerDKGEncryptedShare}
      {pkR u v dh : env.suite.Point} {mem : DealerMember}
      {next : env.staking.Staking × DealerDKG} :
      ComplaintFiled env d block.height req.epochId req.complainer req.dealer →
      ProvedPoint env.suite d req es pkR u v dh →
      findDKGMember d (atFault (adjudicate env.suite dh v es) req.complainer
        req.dealer) = some mem →
      dkgPenalise s block (atFault (adjudicate env.suite dh v es) req.complainer
        req.dealer) mem.power (s.staking, d) = .ok next →
      DkgHandled s block d (.dkgComplaintAEADBad req) { s with
        staking := next.1
        dkg := some (addComplaint next.2 req.complainer req.dealer
          (adjudicate env.suite dh v es) []) }
  | reveal {req : MsgDkgShareReveal} {commit : DealerDKGCommit} {mem : DealerMember} :
      s.params.dkgVersionOrDefault < 2 → req.dealer ≠ req.recipient →
      block.height ≤ d.revealDeadline → findDKGMember d req.recipient = some mem →
      (findDKGComplaint d req.recipient req.dealer).isSome →
      findDKGReveal d req.dealer req.recipient = none →
      findDKGCommit d req.dealer = some commit →
      dkgVerifyShare env.suite commit.commitments mem.index req.share = .ok true →
      DkgHandled s block d (.dkgShareReveal req) { s with dkg := some { d with
        reveals := sortDKGReveals (d.reveals ++
          [⟨d.epochId, req.dealer, req.recipient, req.share⟩]) } }
  | finalize {req : MsgEpoch} {s' : State env} :
      completeEpoch s block d = .ok s' → DkgHandled s block d (.finalizeEpoch req) s'
  | timeout {req : MsgEpoch} {staking : env.staking.Staking} {d₁ : DealerDKG}
      {s' : State env} :
      d.commitDeadline < block.height →
      d.members.foldlM (slashMissingCommit s block) (s.staking, d) = .ok (staking, d₁) →
      s' = { s with staking := staking, dkg := none } ∨
        completeEpoch { s with staking := staking, dkg := some d₁ } block d₁ = .ok s' ∨
        s' = { s with staking := staking, dkg := some d₁ } →
      DkgHandled s block d (.dkgTimeout req) s'

section Handlers

variable {s s' : State env} {block : Block}

variable {epochId : Nat} {d : DealerDKG} {complainer dealer : String} {u : Unit} {msg : DkgMsg}

theorem loadDKG_epochId (hok : s.loadDKG epochId = .ok d) :
    s.dkg = some d ∧ epochId = d.epochId := by
  simp only [State.loadDKG, ok_iff, ne_eq, not_not] at hok
  obtain ⟨dkg, hdkg, -, hid, rfl⟩ := hok
  exact ⟨hdkg, hid⟩

theorem loadDKG_ok (hok : s.loadDKG epochId = .ok d) : s.dkg = some d := (loadDKG_epochId hok).1

theorem beginEpoch_effect {req : MsgBeginEpoch} (hok : beginEpoch s block req = .ok s') :
    DkgEffect s block.height s' := by
  simp only [beginEpoch, sampleMembers, ok_iff] at hok
  obtain ⟨-, -, -, hthreshold, -, -, -, -, -, hnone, -, -, -, hid, next, hnext,
    ⟨rand, staking⟩, -, members, ⟨snaps, -, hmembers⟩, -, -, -, -, -, -, -, -, commitDL, -,
    complaintDL, -, revealDL, hreveal, _, -, rfl⟩ := hok
  obtain rfl := addUint64Checked_ok hnext
  rw [ne_eq, not_not] at hid
  have hfree : s.dkg = none := by simpa using hnone
  have hwindow : complaintDL < revealDL := by
    have hpositive : 0 < windowBlocks req.revealBlocks := by
      unfold windowBlocks
      split <;> omega
    have hadd := Poker.addInt64AndU64Checked_ok hreveal
    omega
  rw [hid]
  exact .begun hfree
    ⟨rfl, not_lt.mp hthreshold, ⟨snaps, hmembers⟩, rfl, rfl, rfl, rfl, rfl, hwindow⟩

theorem complaintFiled {u' u'' : Unit} {from_ against : DealerMember}
    (hparties : requireParties complainer dealer = .ok u)
    (hfrom : requireValAddress env complainer "complainer" = .ok u')
    (hagainst : requireValAddress env dealer "dealer" = .ok u'')
    (hload : loadForComplaint s block epochId = .ok d)
    (hcomplainer : requireMember d complainer "complainer" = .ok from_)
    (hdealer : requireMember d dealer "dealer" = .ok against)
    (hfresh : ¬ (findDKGComplaint d complainer dealer).isSome = true) :
    s.dkg = some d ∧ ComplaintFiled env d block.height epochId complainer dealer := by
  simp only [requireParties, ok_iff, not_or] at hparties
  obtain ⟨-, ⟨hnamed, hnamed'⟩, hdiffer⟩ := hparties
  simp only [loadForComplaint, ok_iff, not_lt, gt_iff_lt] at hload
  obtain ⟨dkg, hload, -, hafter, -, hbefore, rfl⟩ := hload
  obtain ⟨hd, hid⟩ := loadDKG_epochId hload
  rw [requireMember, require_eq_ok] at hcomplainer hdealer
  exact ⟨hd, hid, ⟨hnamed, hnamed', hdiffer, hafter, hbefore, by simp [hcomplainer],
    by simp [hdealer], by simpa using hfresh⟩, requireValAddress_eq_ok.mp hfrom,
    requireValAddress_eq_ok.mp hagainst⟩

theorem checkInvalidShare_ok_iff {recipient : DealerMember} {share : Bytes} :
    checkInvalidShare env d dealer recipient.index share = .ok u ↔
      ConvictingShare env.suite d dealer recipient share := by
  unfold checkInvalidShare ConvictingShare
  cases hcommit : findDKGCommit d dealer with
  | none => simp [pure_ok_iff]
  | some commit =>
    simp only [ok_iff, Option.some.injEq, exists_eq_left', reduceCtorEq, false_or]
    constructor
    · rintro ⟨ok, hverify, hfalse⟩
      rw [Bool.not_eq_true] at hfalse
      rwa [hfalse] at hverify
    · intro hverify
      exact ⟨false, hverify, by simp⟩

theorem handleDkg_handled (hmsg : ∀ req, msg ≠ .beginEpoch req)
    (hok : handleDkg s block msg = .ok s') :
    ∃ d, s.dkg = some d ∧ msg.epochOf = some d.epochId ∧ DkgHandled s block d msg s' := by
  cases msg with
  | beginEpoch req => exact absurd rfl (hmsg req)
  | dkgCommit req =>
    simp only [handleDkg, dkgCommit, ok_iff, ne_eq, not_not, not_lt, gt_iff_lt] at hok
    obtain ⟨-, hnamed, _, haddress, d, hload, -, htime, -, hmember, -, hfresh, -,
      hlength, _, hchecked, -, -, rfl⟩ := hok
    obtain ⟨hd, hid⟩ := loadDKG_epochId hload
    exact ⟨d, hd, congrArg some hid, .commit hnamed (requireValAddress_eq_ok.mp haddress) htime (by
      simpa [Option.isSome_iff_ne_none] using hmember) (by simpa using hfresh) hlength hchecked⟩
  | dkgEncryptedShare req =>
    simp only [handleDkg, dkgEncryptedShare, decodePoint, requireLength, ok_iff, not_lt,
      gt_iff_lt, exists_const] at hok
    obtain ⟨-, -, -, d, hload, htime, hdealer, mem, hmem, hdiffer, -, pkR, hpkR, commit,
      hcommit, -, -, -, -, u, hu, v, hv, proof, hproof, commitments, hcommitments, ok,
      hverify, htrue, hfresh, rfl⟩ := hok
    obtain ⟨hd, hid⟩ := loadDKG_epochId hload
    rw [Bool.not_eq_false] at htrue
    subst htrue
    exact ⟨d, hd, congrArg some hid, .encryptedShare htime ⟨by simpa [Option.isSome_iff_ne_none]
      using hdealer, ⟨mem, hmem, hdiffer, hpkR⟩, ⟨commit, hcommit, decodeCommitments_eq
      hcommitments⟩, hu, hv, ⟨proof, hproof, hverify⟩, by simpa using hfresh⟩⟩
  | dkgComplaintMissing req =>
    simp only [handleDkg, dkgComplaintMissing, ok_iff] at hok
    obtain ⟨_, hparties, _, hfrom, _, hagainst, d, hload, _, hcomplainer, _, hdealer, -,
      hfresh, rfl⟩ := hok
    obtain ⟨hd, hfiled⟩ := complaintFiled hparties hfrom hagainst hload hcomplainer hdealer hfresh
    exact ⟨d, hd, congrArg some hfiled.epochId, .missing hfiled⟩
  | dkgComplaintInvalid req =>
    simp only [handleDkg, dkgComplaintInvalid, ok_iff, ne_eq, not_not, Bool.not_eq_false] at hok
    obtain ⟨_, hparties, -, -, _, hfrom, _, hagainst, d, hload, recipient, hcomplainer,
      mem, hdealer, -, hfresh, sm, hdecoded, -, hepoch, -, hsender, -, haddressee, -,
      hsigned, _, hevidence, next, hpenalty, rfl⟩ := hok
    obtain ⟨hd, hfiled⟩ := complaintFiled hparties hfrom hagainst hload hcomplainer hdealer hfresh
    rw [requireMember, require_eq_ok] at hcomplainer hdealer
    exact ⟨d, hd, congrArg some hfiled.epochId, .invalid hfiled
      ⟨hdecoded, hepoch, hsender, haddressee, hcomplainer, ⟨mem, hdealer, hsigned⟩⟩
      (checkInvalidShare_ok_iff.mp hevidence) hdealer hpenalty⟩
  | dkgComplaintAEADBad req =>
    simp only [handleDkg, dkgComplaintAEADBad, decodePoint, requireLength, ok_iff,
      ne_eq, not_not, Bool.not_eq_false] at hok
    obtain ⟨_, hparties, _, hfrom, _, hagainst, -, -, -, -, d, hload, complainerMem, hcomplainer,
      dealerMem, hdealer, -, hindex, -, hfresh, es, hes, -, hlength, pkR, hpkR, u, hu, v, hv, dh,
      hdh, proof, hproof, ok, hverify, -, htrue, next, hpenalty, rfl⟩ := hok
    obtain ⟨hd, hfiled⟩ := complaintFiled hparties hfrom hagainst hload hcomplainer hdealer hfresh
    subst htrue
    rw [requireMember, require_eq_ok] at hcomplainer hdealer
    refine ⟨d, hd, congrArg some hfiled.epochId, .aeadBad hfiled ⟨⟨complainerMem, hcomplainer,
      hindex, hlength, hpkR⟩, hes, hu, hv, hdh, ⟨proof, hproof, hverify⟩⟩ ?_ hpenalty⟩
    unfold atFault
    split
    · exact hdealer
    · exact hcomplainer
  | dkgShareReveal req =>
    simp only [handleDkg, dkgShareReveal, requireMember, ok_iff, not_le, ge_iff_le,
      exists_const, gt_iff_lt, not_lt] at hok
    obtain ⟨hversion, -, hne, -, -, -, -, d, hload, htime, _, -, mem, hmem, hcomplaint,
      hfresh, commit, hcommit, ok, hverify, htrue, rfl⟩ := hok
    obtain ⟨hd, hid⟩ := loadDKG_epochId hload
    rw [Bool.not_eq_false] at htrue
    subst htrue
    exact ⟨d, hd, congrArg some hid, .reveal hversion hne htime hmem (by simpa
      [Option.isSome_iff_ne_none] using hcomplaint) (by simpa using hfresh) hcommit hverify⟩
  | finalizeEpoch req =>
    simp only [handleDkg, finalizeEpoch, ok_iff] at hok
    obtain ⟨-, -, d, hload, -, -, hcomplete⟩ := hok
    obtain ⟨hd, hid⟩ := loadDKG_epochId hload
    exact ⟨d, hd, congrArg some hid, .finalize hcomplete⟩
  | dkgTimeout req =>
    simp only [handleDkg, dkgTimeout, ok_iff, not_le] at hok
    obtain ⟨-, -, d, hload, -, htime, ⟨staking, d₁⟩, hmissing, hrest⟩ := hok
    obtain ⟨hd, hid⟩ := loadDKG_epochId hload
    refine ⟨d, hd, congrArg some hid, .timeout htime hmissing ?_⟩
    split at hrest
    · exact .inl (pure_ok_iff.mp hrest).symm
    split at hrest
    · exact .inr (.inl hrest)
    · exact .inr (.inr (pure_ok_iff.mp hrest).symm)

theorem DkgHandled.of_inFlight (hd : s.dkg = some d) (hok : handleDkg s block msg = .ok s') :
    msg.epochOf = some d.epochId ∧ DkgHandled s block d msg s' := by
  have hmsg : ∀ req, msg ≠ .beginEpoch req := by
    rintro req rfl
    simp only [handleDkg, beginEpoch, ok_iff] at hok
    obtain ⟨-, -, -, -, -, -, -, -, -, hnone, -⟩ := hok
    rw [hd] at hnone
    exact absurd rfl hnone
  obtain ⟨d₁, hd₁, hhandled⟩ := handleDkg_handled hmsg hok
  cases hd.symm.trans hd₁
  exact hhandled

theorem adjudicate_eq {S : Suite} (dh v : S.Point) (es : DealerDKGEncryptedShare) :
    adjudicate S dh v es = .aeadBad ∨ adjudicate S dh v es = .aeadSpurious := by
  unfold adjudicate
  split
  · exact .inl rfl
  · split
    · exact .inl rfl
    · exact .inr rfl

theorem atFault_slashes {next : env.staking.Staking × DealerDKG} {height power : Int}
    {dh v : env.suite.Point} {es : DealerDKGEncryptedShare}
    (hchecked : ComplaintChecked d height complainer dealer)
    (hvalid : SlashedValid d.slashed) (hpenalty : dkgPenalise s block
      (atFault (adjudicate env.suite dh v es) complainer dealer) power (s.staking, d) = .ok next) :
    Slashes d next.2 (guiltyOf (adjudicate env.suite dh v es) complainer dealer) := by
  rcases adjudicate_eq dh v es with hbad | hspurious
  · rw [hbad] at hpenalty ⊢
    exact dkgPenalise_slashes hchecked.dealer_named hvalid hpenalty
  · rw [hspurious] at hpenalty ⊢
    exact dkgPenalise_slashes hchecked.complainer_named hvalid hpenalty

theorem completeEpoch_ok (hok : completeEpoch s block d = .ok s') :
    ∃ staking d', settle s block d = .ok (staking, d') ∧
      (s' = { s with staking := staking, dkg := none } ∨
        ∃ epoch, d'.threshold ≤ (qualMembers d'.members d'.slashed).length ∧
          computeEpoch env.suite d' = .ok epoch ∧
          s' = { s with staking := staking, epoch := some epoch, dkg := none }) := by
  simp only [completeEpoch, ok_iff] at hok
  obtain ⟨⟨staking, d'⟩, hsettle, hrest⟩ := hok
  refine ⟨staking, d', hsettle, ?_⟩
  split at hrest
  · rw [pure_ok_iff] at hrest
    exact .inl hrest.symm
  · rename_i henough
    simp only [ok_iff] at hrest
    obtain ⟨epoch, hepoch, rfl⟩ := hrest
    exact .inr ⟨epoch, not_lt.mp henough, hepoch, rfl⟩

theorem DkgHandled.effect (hd : s.dkg = some d) (hvalid : SlashedValid d.slashed)
    (hnames : NamesValid d) (hhandled : DkgHandled s block d msg s') :
    DkgEffect s block.height s' := by
  cases hhandled with
  | commit hnamed _ htime hmember hfresh hlength hchecked =>
    exact .moved hd (.commit hnamed htime hmember hfresh hlength hchecked)
  | encryptedShare htime hchecked =>
    obtain ⟨commit, hcommit, -⟩ := hchecked.commit
    exact .moved hd (.encryptedShare htime (by simp [hcommit]))
  | missing hfiled => exact .moved hd (.complaint hfiled.checked (.none hvalid))
  | invalid hfiled _ _ _ hpenalty =>
    exact .moved hd (.complaint hfiled.checked
      (dkgPenalise_slashes hfiled.checked.dealer_named hvalid hpenalty))
  | aeadBad hfiled _ _ hpenalty =>
    exact .moved hd (.complaint hfiled.checked (atFault_slashes hfiled.checked hvalid hpenalty))
  | reveal hversion hne _ hmem hcomplaint hfresh hcommit hverify =>
    exact .moved hd (.reveal hversion hne hmem hcomplaint hfresh hcommit hverify)
  | finalize hcomplete =>
    obtain ⟨staking, d', hsettle, rfl | ⟨epoch, henough, hepoch, rfl⟩⟩ := completeEpoch_ok hcomplete
    · exact .aborted hd
    · exact .finalised hd (settle_slashes hnames hvalid hsettle) henough hepoch
  | timeout htime hmissing hrest =>
    have hfirst := slashMissingCommits_slashes hnames hvalid hmissing
    rcases hrest with rfl | hcomplete | rfl
    · exact .aborted hd
    · -- Past the reveal deadline the timeout also settles the complaints.
      obtain ⟨staking', d₂, hsettle, rfl | ⟨epoch, henough, hepoch, rfl⟩⟩ :=
        completeEpoch_ok hcomplete
      · exact .aborted hd
      · rw [settle_after_missing hnames hvalid hmissing] at hsettle
        exact .finalised hd (settle_slashes hnames hvalid hsettle) henough hepoch
    · exact .moved hd (.timeout htime hfirst)

theorem handleDkg_effect (hvalid : ∀ d, s.dkg = some d → SlashedValid d.slashed)
    (hnames : ∀ d, s.dkg = some d → NamesValid d) (hok : handleDkg s block msg = .ok s') :
    DkgEffect s block.height s' := by
  by_cases hbegins : ∃ req, msg = .beginEpoch req
  · obtain ⟨req, rfl⟩ := hbegins
    exact beginEpoch_effect hok
  · push Not at hbegins
    obtain ⟨d, hd, -, hhandled⟩ := handleDkg_handled hbegins hok
    exact hhandled.effect hd (hvalid d hd) (hnames d hd)

end Handlers

end OnChainPoker.Dealer
