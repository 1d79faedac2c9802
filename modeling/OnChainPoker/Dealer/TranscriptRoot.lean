import OnChainPoker.Crypto.TranscriptFraming
import OnChainPoker.Dealer.DkgSteps

/-!
# What the transcript root of a DKG commits to

`dkgTranscriptRoot` sorts the lists of a DKG and hashes an encoding in which every field of
variable length has its length in front. With one row for every key the order of the lists
does not matter, and the bytes tell everything that is encoded.
-/

namespace OnChainPoker.Dealer

open Foundation Crypto

/-- What the transcript says of a member.  The public share is derived from the commits;
the key for encrypted shares is not part of the transcript either. -/
def DealerMember.identity (m : DealerMember) : String × Nat × Int × Bytes :=
  (m.validator, m.index, m.power, m.consPubkey)

structure DealerDKG.UniqueKeys (dkg : DealerDKG) : Prop where
  members : (dkg.members.map (·.validator)).Nodup
  commits : (dkg.commits.map (·.dealer)).Nodup
  complaints : (dkg.complaints.map fun c => (c.dealer, c.complainer)).Nodup
  reveals : (dkg.reveals.map fun r => (r.dealer, r.recipient)).Nodup
  slashed : dkg.slashed.Nodup

def FitsInt64 (x : Int) : Prop := -2 ^ 63 ≤ x ∧ x < 2 ^ 63

def FitsLength (n : Nat) : Prop := n < 2 ^ 32

def FitsText (s : String) : Prop := FitsLength (stringBytes s).length

structure DealerDKG.Fits (dkg : DealerDKG) : Prop where
  epochId : dkg.epochId < 2 ^ 64
  threshold : dkg.threshold < 2 ^ 32
  members : FitsLength dkg.members.length ∧ ∀ m ∈ dkg.members,
    FitsText m.validator ∧ m.index < 2 ^ 32 ∧ FitsInt64 m.power ∧
      FitsLength m.consPubkey.length
  startHeight : FitsInt64 dkg.startHeight
  commitDeadline : FitsInt64 dkg.commitDeadline
  complaintDeadline : FitsInt64 dkg.complaintDeadline
  revealDeadline : FitsInt64 dkg.revealDeadline
  finalizeDeadline : FitsInt64 dkg.finalizeDeadline
  randEpoch : FitsLength dkg.randEpoch.length
  commits : FitsLength dkg.commits.length ∧ ∀ c ∈ dkg.commits,
    FitsText c.dealer ∧ FitsLength c.commitments.length ∧
      ∀ b ∈ c.commitments, FitsLength b.length
  complaints : FitsLength dkg.complaints.length ∧ ∀ c ∈ dkg.complaints,
    c.epochId < 2 ^ 64 ∧ FitsText c.complainer ∧ FitsText c.dealer ∧
      FitsText c.kind.text ∧ FitsLength c.shareMsg.length
  reveals : FitsLength dkg.reveals.length ∧ ∀ r ∈ dkg.reveals,
    r.epochId < 2 ^ 64 ∧ FitsText r.dealer ∧ FitsText r.recipient ∧
      FitsLength r.share.length
  slashed : FitsLength dkg.slashed.length ∧ ∀ v ∈ dkg.slashed, FitsText v

structure DealerDKG.SameTranscript (dkg dkg' : DealerDKG) : Prop where
  epochId : dkg.epochId = dkg'.epochId
  threshold : dkg.threshold = dkg'.threshold
  startHeight : dkg.startHeight = dkg'.startHeight
  commitDeadline : dkg.commitDeadline = dkg'.commitDeadline
  complaintDeadline : dkg.complaintDeadline = dkg'.complaintDeadline
  revealDeadline : dkg.revealDeadline = dkg'.revealDeadline
  finalizeDeadline : dkg.finalizeDeadline = dkg'.finalizeDeadline
  randEpoch : dkg.randEpoch = dkg'.randEpoch
  members : (dkg.members.map DealerMember.identity).Perm
    (dkg'.members.map DealerMember.identity)
  commits : dkg.commits.Perm dkg'.commits
  complaints : dkg.complaints.Perm dkg'.complaints
  reveals : dkg.reveals.Perm dkg'.reveals
  slashed : dkg.slashed.Perm dkg'.slashed

def transcriptInput (dkg : DealerDKG) : Bytes :=
  stringBytes "ocp/v1/dkg/transcript/v2" ++ encodeDKG dkg

/-! ## The order of the lists -/

section Permuted

variable {dkg : DealerDKG} {members : List DealerMember} {commits : List DealerDKGCommit}
  {complaints : List DealerDKGComplaint} {reveals : List DealerDKGShareReveal}
  {slashed : List String}

theorem encodeDKG_perm (hkeys : dkg.UniqueKeys) (hmembers : members.Perm dkg.members)
    (hcommits : commits.Perm dkg.commits) (hcomplaints : complaints.Perm dkg.complaints)
    (hreveals : reveals.Perm dkg.reveals) (hslashed : slashed.Perm dkg.slashed) :
    encodeDKG { dkg with members, commits, complaints, reveals, slashed } = encodeDKG dkg := by
  have hvalidators : sortMembers members = sortMembers dkg.members := by
    refine sortSlice_eq_of_keys (lessBy_iff _ _) hmembers fun m hm m' hm' hkey => ?_
    exact List.inj_on_of_nodup_map hkeys.members hm hm' (congrArg (fun k => k.1) hkey)
  have hdealers : sortDKGCommits commits = sortDKGCommits dkg.commits :=
    sortSlice_eq_of_keys (fun _ _ => decide_eq_true_iff) hcommits
      (List.inj_on_of_nodup_map hkeys.commits)
  have hpairs : sortDKGComplaints complaints = sortDKGComplaints dkg.complaints :=
    sortSlice_eq_of_keys (lessBy_iff _ _) hcomplaints
      (by exact List.inj_on_of_nodup_map hkeys.complaints)
  have hshares : sortDKGReveals reveals = sortDKGReveals dkg.reveals :=
    sortSlice_eq_of_keys (lessBy_iff _ _) hreveals (by exact List.inj_on_of_nodup_map hkeys.reveals)
  have hnames : sortSlice (fun a b => decide (a < b)) slashed =
      sortSlice (fun a b => decide (a < b)) dkg.slashed :=
    sortSlice_eq_of_keys (fun _ _ => decide_eq_true_iff) hslashed (Set.injOn_id _)
  simp only [encodeDKG, hvalidators, hdealers, hpairs, hshares, hnames]

end Permuted

/-! ## Reading the encoding -/

theorem framed_lenString : Framed FitsText lenString := framed_label

theorem framed_lenBytes : Framed (fun b : Bytes => FitsLength b.length) lenBytes := framed_bytes 4

theorem Framed.sorted {α β : Type} {valid : α → Prop} {encode : α → Bytes}
    (h : Framed valid encode) (f : β → α) {less : β → β → Bool} {l l' : List β}
    (hl : FitsLength l.length ∧ ∀ x ∈ l, valid (f x))
    (hl' : FitsLength l'.length ∧ ∀ x ∈ l', valid (f x)) {rest rest' : Bytes}
    (hbytes : lenList (fun x => encode (f x)) (sortSlice less l) ++ rest =
      lenList (fun x => encode (f x)) (sortSlice less l') ++ rest') :
    (l.map f).Perm (l'.map f) ∧ rest = rest' := by
  have hvalid {l : List β} (hl : FitsLength l.length ∧ ∀ x ∈ l, valid (f x)) :
      ((sortSlice less l).map f).length < 256 ^ 4 ∧ ∀ a ∈ (sortSlice less l).map f, valid a := by
    rw [List.length_map, (sortSlice_perm less l).length_eq, List.forall_mem_map]
    exact ⟨hl.1, fun x hx => hl.2 x (mem_sortSlice.mp hx)⟩
  obtain ⟨hrows, hrest⟩ := h.list 4 (hvalid hl) (hvalid hl') (by
    simp only [List.length_map, List.flatMap_map]
    exact hbytes)
  refine ⟨((sortSlice_perm less l).map f).symm.trans ?_, hrest⟩
  rw [hrows]
  exact (sortSlice_perm less l').map f

theorem ComplaintKind.text_injective : Function.Injective ComplaintKind.text := by
  intro k k' htext
  cases k <;> cases k' <;> first | rfl | exact absurd htext (by decide)

theorem encodeDKG_inj {dkg dkg' : DealerDKG} (hfits : dkg.Fits) (hfits' : dkg'.Fits)
    (hbytes : encodeDKG dkg = encodeDKG dkg') : dkg.SameTranscript dkg' := by
  have hmember := framed_lenString.pair
    ((framed_leBytes 4).pair (framed_leInt64.pair framed_lenBytes))
  have hcommit := framed_lenString.pair (framed_lenBytes.list 4)
  have hcomplaint := (framed_leBytes 8).pair (framed_lenString.pair (framed_lenString.pair
    ((framed_lenString.comp ComplaintKind.text_injective).pair framed_lenBytes)))
  have hreveal := (framed_leBytes 8).pair
    (framed_lenString.pair (framed_lenString.pair framed_lenBytes))
  have hend := congrArg (· ++ ([] : Bytes)) hbytes
  simp only [encodeDKG, List.append_assoc] at hend
  obtain ⟨hepoch, hend⟩ := framed_leBytes 8 hfits.epochId hfits'.epochId hend
  obtain ⟨hthreshold, hend⟩ := framed_leBytes 4 hfits.threshold hfits'.threshold hend
  obtain ⟨hmembers, hend⟩ := Framed.sorted hmember DealerMember.identity hfits.members
    hfits'.members hend
  obtain ⟨hstart, hend⟩ := framed_leInt64 hfits.startHeight hfits'.startHeight hend
  obtain ⟨hdue, hend⟩ := framed_leInt64 hfits.commitDeadline hfits'.commitDeadline hend
  obtain ⟨hdue₁, hend⟩ := framed_leInt64 hfits.complaintDeadline hfits'.complaintDeadline hend
  obtain ⟨hdue₂, hend⟩ := framed_leInt64 hfits.revealDeadline hfits'.revealDeadline hend
  obtain ⟨hdue₃, hend⟩ := framed_leInt64 hfits.finalizeDeadline hfits'.finalizeDeadline hend
  obtain ⟨hrand, hend⟩ := framed_lenBytes hfits.randEpoch hfits'.randEpoch hend
  obtain ⟨hcommits, hend⟩ := Framed.sorted hcommit
    (fun c : DealerDKGCommit => (c.dealer, c.commitments)) hfits.commits hfits'.commits hend
  obtain ⟨hcomplaints, hend⟩ := Framed.sorted hcomplaint
    (fun c : DealerDKGComplaint => (c.epochId, c.complainer, c.dealer, c.kind, c.shareMsg))
    hfits.complaints hfits'.complaints hend
  obtain ⟨hreveals, hend⟩ := Framed.sorted hreveal
    (fun r : DealerDKGShareReveal => (r.epochId, r.dealer, r.recipient, r.share))
    hfits.reveals hfits'.reveals hend
  obtain ⟨hslashed, -⟩ := Framed.sorted framed_lenString id hfits.slashed hfits'.slashed hend
  refine ⟨hepoch, hthreshold, hstart, hdue, hdue₁, hdue₂, hdue₃, hrand, hmembers,
    (List.map_perm_map_iff ?_).mp hcommits, (List.map_perm_map_iff ?_).mp hcomplaints,
    (List.map_perm_map_iff ?_).mp hreveals, by simpa using hslashed⟩
  · rintro ⟨⟩ ⟨⟩ ⟨⟩
    rfl
  · rintro ⟨⟩ ⟨⟩ ⟨⟩
    rfl
  · rintro ⟨⟩ ⟨⟩ ⟨⟩
    rfl

/-- The root is the hash of bytes that do not depend on the order of the lists, if their keys
are unique, and that tell everything a transcript says. -/
theorem transcript_root_commits (S : Suite) :
    (∀ dkg, dkgTranscriptRoot S dkg = S.sha256 (transcriptInput dkg)) ∧
    (∀ dkg members commits complaints reveals slashed, dkg.UniqueKeys →
      members.Perm dkg.members → commits.Perm dkg.commits →
      complaints.Perm dkg.complaints → reveals.Perm dkg.reveals →
      slashed.Perm dkg.slashed →
      transcriptInput { dkg with members, commits, complaints, reveals, slashed } =
        transcriptInput dkg) ∧
    ∀ dkg dkg' : DealerDKG, dkg.UniqueKeys → dkg'.UniqueKeys → dkg.Fits → dkg'.Fits →
      transcriptInput dkg = transcriptInput dkg' → dkg.SameTranscript dkg' := by
  refine ⟨fun _ => rfl, ?_, ?_⟩
  · intro dkg members commits complaints reveals slashed hkeys hmembers hcommits hcomplaints
      hreveals hslashed
    rw [transcriptInput, encodeDKG_perm hkeys hmembers hcommits hcomplaints hreveals hslashed,
      transcriptInput]
  · intro dkg dkg' _ _ hfits hfits' hbytes
    exact encodeDKG_inj hfits hfits' (List.append_cancel_left hbytes)

def oneMemberDKG (ephemeralPubkey : Bytes) : DealerDKG where
  epochId := 1
  threshold := 1
  members := [⟨"A", 1, [], [], 1, ephemeralPubkey⟩]
  startHeight := 1
  commitDeadline := 2
  complaintDeadline := 3
  revealDeadline := 4
  finalizeDeadline := 5
  randEpoch := []
  commits := []
  complaints := []
  reveals := []
  slashed := []
  encryptedShares := []

def settledDKG (slashed : List String) : DealerDKG :=
  { oneMemberDKG [] with
    members := [⟨"A", 1, [], [], 1, []⟩, ⟨"B", 2, [], [], 1, []⟩]
    commits := [⟨"A", [[1]]⟩, ⟨"B", [[2]]⟩]
    complaints := [⟨1, "A", "B", .missing, []⟩, ⟨1, "B", "A", .invalid, [3]⟩]
    reveals := [⟨1, "A", "B", [4]⟩, ⟨1, "B", "A", [5]⟩]
    slashed }

theorem settledDKG_told_apart :
    transcriptInput (settledDKG ["B", "A"]) = transcriptInput (settledDKG ["A", "B"]) ∧
      transcriptInput (settledDKG ["A", "B"]) ≠ transcriptInput (settledDKG ["A"]) := by
  have hkeys : ∀ slashed, slashed.Nodup → (settledDKG slashed).UniqueKeys := by
    intro slashed hslashed
    constructor <;> simp [settledDKG, hslashed]
  have hfits : ∀ slashed, slashed.Sublist ["A", "B"] → (settledDKG slashed).Fits := by
    intro slashed hslashed
    have hname : ∀ v ∈ ["A", "B"], (stringBytes v).length < 4294967296 := by decide +kernel
    have hkind : ∀ kind : ComplaintKind, (stringBytes kind.text).length < 4294967296 := by
      rintro ⟨⟩ <;> decide +kernel
    have hlength := hslashed.length_le
    constructor <;> simp [settledDKG, oneMemberDKG, FitsInt64, FitsLength, FitsText, hkind, hname]
    exact ⟨by grind, fun v hv => hname v (hslashed.subset hv)⟩
  obtain ⟨-, hperm, htold⟩ := transcript_root_commits residueSuite
  refine ⟨hperm (settledDKG ["A", "B"]) _ _ _ _ _ (hkeys _ (by decide)) (.refl _) (.refl _)
    (.refl _) (.refl _) (.swap "A" "B" []), fun hbytes => ?_⟩
  have hsame := htold _ _ (hkeys _ (by decide)) (hkeys _ (by decide)) (hfits _ (by decide))
    (hfits _ (by decide)) hbytes
  exact absurd hsame.slashed.length_eq (by decide)

theorem oneMemberDKG_collides :
    (oneMemberDKG [1]).UniqueKeys ∧ (oneMemberDKG [2]).UniqueKeys ∧
    (oneMemberDKG [1]).Fits ∧ (oneMemberDKG [2]).Fits ∧
    (oneMemberDKG [1]).members.toFinset ≠ (oneMemberDKG [2]).members.toFinset ∧
    transcriptInput (oneMemberDKG [1]) = transcriptInput (oneMemberDKG [2]) := by
  have hkeys (key : Bytes) : (oneMemberDKG key).UniqueKeys := by
    constructor <;> simp [oneMemberDKG]
  have hfits (key : Bytes) : (oneMemberDKG key).Fits := by
    have hname : (stringBytes "A").length < 4294967296 := by decide +kernel
    constructor <;> simp [oneMemberDKG, FitsInt64, FitsLength, FitsText, hname]
  exact ⟨hkeys _, hkeys _, hfits _, hfits _, by decide, rfl⟩

end OnChainPoker.Dealer
