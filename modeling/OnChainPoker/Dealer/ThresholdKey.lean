import OnChainPoker.Crypto.Sharing
import OnChainPoker.Dealer.HandActs

/-!
# The key of an epoch

Every stored epoch carries a shared key: one polynomial `f` of degree below the
threshold with `PkEpoch = f 0` and `PubShare_j = f j` in the exponent.  It is
the sum of the polynomials that the qualified dealers committed to.
-/

namespace OnChainPoker.Dealer

open Foundation Crypto Polynomial

/-! ## Committees -/

structure CommitteeValid (members : List DealerMember) : Prop where
  named : ∀ m ∈ members, m.validator ≠ ""
  validators : (members.map (·.validator)).Nodup
  indices : (members.map (·.index)).Nodup
  positive : ∀ m ∈ members, m.index ≠ 0

variable {members qual : List DealerMember} {snaps : List MemberSnapshot} {e : DealerEpoch}

theorem CommitteeValid.of_perm {members' : List DealerMember} (hvalid : CommitteeValid members)
    (hperm : (members'.map fun m => (m.validator, m.index)).Perm
      (members.map fun m => (m.validator, m.index))) :
    CommitteeValid members' := by
  have hvalidators : (members'.map (·.validator)).Perm (members.map (·.validator)) := by
    simpa [Function.comp_def] using hperm.map Prod.fst
  have hindices : (members'.map (·.index)).Perm (members.map (·.index)) := by
    simpa [Function.comp_def] using hperm.map Prod.snd
  refine ⟨fun m hm => ?_, hvalidators.nodup_iff.mpr hvalid.validators,
    hindices.nodup_iff.mpr hvalid.indices, fun m hm => ?_⟩
  · obtain ⟨m', hm', hsame⟩ := List.mem_map.mp (hvalidators.mem_iff.mp (List.mem_map_of_mem hm))
    exact hsame ▸ hvalid.named m' hm'
  · obtain ⟨m', hm', hsame⟩ := List.mem_map.mp (hindices.mem_iff.mp (List.mem_map_of_mem hm))
    exact hsame ▸ hvalid.positive m' hm'

theorem membersOfSnapshots_spec {index : Nat} {seen : List String}
    (hok : membersOfSnapshots index seen snaps = .ok members) :
    (∀ m ∈ members, m.validator ≠ "" ∧ m.validator ∉ seen ∧ index ≤ m.index) ∧
      (members.map (·.validator)).Nodup ∧ (members.map (·.index)).Nodup := by
  induction snaps generalizing index seen members with
  | nil =>
    cases hok
    simp
  | cons snap rest ih =>
    simp only [membersOfSnapshots, ok_iff] at hok
    obtain ⟨-, hnamed, -, hfresh, -, -, tail, htail, rfl⟩ := hok
    obtain ⟨hall, hvalidators, hindices⟩ := ih htail
    refine ⟨?_, ?_, ?_⟩
    · intro m hm
      rcases List.mem_cons.mp hm with rfl | hm
      · exact ⟨hnamed, hfresh, le_rfl⟩
      · obtain ⟨hname, hseen, hindex⟩ := hall m hm
        exact ⟨hname, fun hmem => hseen (List.mem_cons_of_mem _ hmem), by omega⟩
    · refine List.nodup_cons.mpr ⟨fun hmem => ?_, hvalidators⟩
      obtain ⟨m, hm, hsame⟩ := List.mem_map.mp hmem
      exact (hall m hm).2.1 (hsame ▸ List.mem_cons_self)
    · refine List.nodup_cons.mpr ⟨fun hmem => ?_, hindices⟩
      obtain ⟨m, hm, hsame⟩ := List.mem_map.mp hmem
      have hindex := (hall m hm).2.2
      simp only at hsame
      omega

theorem committeeValid_of_snapshots (hok : dealerMembersFromSnapshots snaps = .ok members) :
    CommitteeValid members := by
  obtain ⟨hall, hvalidators, hindices⟩ := membersOfSnapshots_spec hok
  refine ⟨fun m hm => (hall m hm).1, hvalidators, hindices, fun m hm => ?_⟩
  have hindex := (hall m hm).2.2
  omega

theorem setEphemeralPubkey_ids (valoper : String) (key : Bytes) (members : List DealerMember) :
    (setEphemeralPubkey valoper key members).map (fun m => (m.validator, m.index)) =
      members.map fun m => (m.validator, m.index) := by
  induction members with
  | nil => rfl
  | cons m rest ih =>
    unfold setEphemeralPubkey
    split
    · rfl
    · rw [List.map_cons, List.map_cons, ih]

/-! ## The polynomial of a DKG -/

def commitmentPoints (S : Suite) (d : DealerDKG) (dealer : String) : List S.Point :=
  ((findDKGCommit d dealer).elim [] (·.commitments)).map (pointOf S)

noncomputable def jointPoly (S : Suite) (d : DealerDKG)
    (qual : List DealerMember) : S.Scalar[X] :=
  (qual.map fun m =>
    Suite.committedPoly (commitmentPoints S d m.validator)).sum

structure SharedKey (S : Suite) (f : S.Scalar[X]) (e : DealerEpoch) : Prop where
  degree : f.degree < e.threshold
  key : S.pointFromBytesCanonical e.pkEpoch = .ok (f.eval 0 • S.base)
  shares : ∀ m ∈ e.members,
    S.pointFromBytesCanonical m.pubShare = .ok (f.eval (m.index : S.Scalar) • S.base)

variable {S : Suite} {d : DealerDKG}

private theorem sum_eval_smul (polys : List S.Scalar[X]) (x : S.Scalar) :
    (polys.map fun f => f.eval x • S.base).sum = polys.sum.eval x • S.base := by
  induction polys with
  | nil => simp
  | cons f rest ih => simp [ih, add_smul]

theorem epochKey_eq {pk : S.Point} (hok : epochKey S d qual = .ok pk) :
    pk = (jointPoly S d qual).eval 0 • S.base := by
  have hsum := foldlM_add (fun m : DealerMember =>
    (Suite.committedPoly (commitmentPoints S d m.validator)).eval 0 • S.base) ?_ hok
  · rw [hsum, zero_add, jointPoly, ← sum_eval_smul, List.map_map]
    rfl
  · intro m _ acc acc' hstep
    cases hcommit : findDKGCommit d m.validator with
    | none =>
      simp only [hcommit, Option.bind_none, pure_ok_iff] at hstep
      simp [← hstep, commitmentPoints, hcommit, Suite.committedPoly, polyOfCoeffs]
    | some commit =>
      cases hbytes : commit.commitments with
      | nil =>
        simp only [hcommit, Option.bind_some, hbytes, List.head?_nil, pure_ok_iff] at hstep
        simp [← hstep, commitmentPoints, hcommit, hbytes, Suite.committedPoly, polyOfCoeffs]
      | cons b rest =>
        simp only [hcommit, Option.bind_some, hbytes, List.head?_cons, ok_iff] at hstep
        obtain ⟨c0, hc0, rfl⟩ := hstep
        simp only [commitmentPoints, hcommit, Option.elim_some, hbytes,
          List.map_cons, Suite.committedPoly_eval_zero, pointOf_eq hc0]

theorem publicShare_eq {x : Nat} {y : S.Point} (hok : publicShare S d qual x = .ok y) :
    y = (jointPoly S d qual).eval (x : S.Scalar) • S.base := by
  have hsum := foldlM_add (fun m : DealerMember =>
    (Suite.committedPoly (commitmentPoints S d m.validator)).eval (x : S.Scalar) • S.base) ?_ hok
  · rw [hsum, zero_add, jointPoly, ← sum_eval_smul, List.map_map]
    rfl
  · intro m _ acc acc' hstep
    cases hcommit : findDKGCommit d m.validator with
    | none =>
      simp only [hcommit, pure_ok_iff] at hstep
      simp [← hstep, commitmentPoints, hcommit, Suite.committedPoly, polyOfCoeffs]
    | some commit =>
      simp only [hcommit, dkgEvalCommitment, ok_iff] at hstep
      obtain ⟨pt, ⟨points, hpoints, rfl⟩, rfl⟩ := hstep
      rw [Suite.evalPowers_eq, decodeCommitments_eq hpoints]
      simp only [commitmentPoints, hcommit, Option.elim_some, Suite.scalarFromUint64]

theorem findDKGCommit_mem {v : String} {commit : DealerDKGCommit}
    (hfind : findDKGCommit d v = some commit) : commit ∈ d.commits := by
  unfold findDKGCommit at hfind
  split at hfind
  · cases hfind
  · exact List.mem_of_find?_eq_some hfind

def CommitsFit (d : DealerDKG) : Prop :=
  ∀ commit ∈ d.commits, commit.commitments.length = d.threshold

theorem jointPoly_degree_lt (hfit : CommitsFit d) (qual : List DealerMember) :
    (jointPoly S d qual).degree < d.threshold := by
  unfold jointPoly
  induction qual with
  | nil => simp
  | cons m rest ih =>
    rw [List.map_cons, List.sum_cons]
    refine (degree_add_le _ _).trans_lt (max_lt ?_ ih)
    cases hcommit : findDKGCommit d m.validator with
    | none => simp [commitmentPoints, hcommit, Suite.committedPoly, polyOfCoeffs]
    | some commit =>
      have hmem := findDKGCommit_mem hcommit
      have hdegree := Suite.committedPoly_degree_lt (commitmentPoints S d m.validator)
      rw [commitmentPoints, hcommit] at hdegree ⊢
      simpa [hfit commit hmem] using hdegree

theorem withPubShares_spec {out : List DealerMember}
    (hall : List.Forall₂ (fun m m' => withPubShare S d qual m = .ok m') members out) :
    (out.map fun m => (m.validator, m.index)) = (members.map fun m => (m.validator, m.index)) ∧
      ∀ m ∈ out, S.pointFromBytesCanonical m.pubShare =
        .ok ((jointPoly S d qual).eval (m.index : S.Scalar) • S.base) := by
  induction hall with
  | nil => simp
  | cons hhead _ ih =>
    simp only [withPubShare, ok_iff] at hhead
    obtain ⟨y, hy, rfl⟩ := hhead
    obtain ⟨hids, hshares⟩ := ih
    refine ⟨by rw [List.map_cons, List.map_cons, hids], fun m hm => ?_⟩
    rcases List.mem_cons.mp hm with rfl | hm
    · rw [S.pointFromBytesCanonical_pointBytes, publicShare_eq hy]
    · exact hshares m hm

structure ComputedFrom (d : DealerDKG) (e : DealerEpoch) : Prop where
  epochId : e.epochId = d.epochId
  threshold : e.threshold = d.threshold
  slashed : e.slashed = d.slashed
  ids : (e.members.map fun m => (m.validator, m.index)).Perm
    (d.members.map fun m => (m.validator, m.index))

theorem computeEpoch_spec (hfit : CommitsFit d) (hok : computeEpoch S d = .ok e) :
    ComputedFrom d e ∧ SharedKey S (jointPoly S d (qualMembers d.members d.slashed)) e := by
  simp only [computeEpoch, ok_iff, mapM_eq_ok_iff] at hok
  obtain ⟨pk, hpk, membersOut, hmembers, rfl⟩ := hok
  obtain ⟨hids, hshares⟩ := withPubShares_spec hmembers
  refine ⟨⟨rfl, rfl, rfl, ?_⟩, jointPoly_degree_lt hfit _, ?_, fun m hm => ?_⟩
  · exact ((sortSlice_perm _ _).map _).trans (by rw [hids])
  · rw [epochKey_eq hpk, S.pointFromBytesCanonical_pointBytes]
  · exact hshares m (mem_sortSlice.mp hm)

/-- Any `threshold` members recover the key from their public shares. -/
theorem SharedKey.recover {f : S.Scalar[X]} (hkey : SharedKey S f e) {indices : List Nat}
    {lambdas : List S.Scalar} {shares : List S.Point} (hcount : indices.length = e.threshold)
    (hlambdas : S.lagrangeAtZero indices = .ok lambdas)
    (hshares : List.Forall₂ (fun i p => ∃ m ∈ e.members, m.index = i ∧
      S.pointFromBytesCanonical m.pubShare = .ok p) indices shares) :
    S.pointFromBytesCanonical e.pkEpoch = .ok (List.zipWith (· • ·) lambdas shares).sum := by
  have hvalues : shares = indices.map fun i : ℕ => f.eval (i : S.Scalar) • S.base := by
    refine (List.forall₂_eq_eq_eq ▸ List.forall₂_map_right_iff.mpr ?_ : shares = indices.map _)
    refine hshares.flip.imp ?_
    rintro p i ⟨m, hm, rfl, hp⟩
    rw [hkey.shares m hm] at hp
    exact (Except.ok.inj hp).symm
  have hdegree : f.degree < indices.length := by
    rw [hcount]
    exact hkey.degree
  rw [hkey.key, hvalues, List.zipWith_map_right, Suite.lagrangeAtZero_combine hlambdas hdegree]

end OnChainPoker.Dealer
