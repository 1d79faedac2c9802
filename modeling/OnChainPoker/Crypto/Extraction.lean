import OnChainPoker.Crypto.Permutation
import OnChainPoker.Crypto.Sharing

/-!
# Completeness and special soundness

Two accepting answers to different challenges on the same commitments yield the witness.
The verifiers derive their challenge by hashing; here it is any scalar for which the
equations that they check hold.
-/

namespace OnChainPoker.Crypto.Suite

open Foundation

variable {S : Suite}

def extract (z z' e e' : S.Scalar) : S.Scalar := S.invert (e - e') * (z - z')

theorem eq_smul_of_two {a x w w' : S.Point} {e e' : S.Scalar} (hne : e ≠ e')
    (hw : w = a + e • x) (hw' : w' = a + e' • x) : x = S.invert (e - e') • (w - w') := by
  have hinv : S.invert (e - e') * (e - e') = 1 := by
    rw [mul_comm]
    exact S.mul_invert (sub_ne_zero.mpr hne)
  rw [hw, hw', add_sub_add_left_eq_sub, ← sub_smul, smul_smul, hinv, one_smul]

theorem eq_extract_smul {a x g : S.Point} {z z' e e' : S.Scalar} (hne : e ≠ e')
    (hz : z • g = a + e • x) (hz' : z' • g = a + e' • x) :
    x = extract z z' e e' • g := by
  rw [eq_smul_of_two hne hz hz', ← sub_smul, smul_smul, extract]

/-! ## Switches -/

section Switch

variable {pk : S.Point} {in0 in1 out0 out1 : S.ElGamalCiphertext}

def SwitchHolds (pk : S.Point) (in0 in1 out0 out1 : S.ElGamalCiphertext)
    (proof : S.SwitchProof) (e : S.Scalar) : Prop :=
  (relationHolds pk in0 out0 proof.r0 proof.e0 = true ∧
    relationHolds pk in1 out1 proof.r1 proof.e0 = true) ∧
  relationHolds pk in1 out0 proof.r2 (e - proof.e0) = true ∧
    relationHolds pk in0 out1 proof.r3 (e - proof.e0) = true

theorem verifySwitch_holds {proof : S.SwitchProof} {context : Option Bytes}
    (hok : verifySwitch pk in0 in1 out0 out1 proof context = .ok true) :
    ∃ e, switchChallenge pk in0 in1 out0 out1 proof context = .ok e ∧
      SwitchHolds pk in0 in1 out0 out1 proof e := by
  unfold verifySwitch at hok
  split at hok
  · cases hok
  · split at hok
    · cases hok
    · simp only [ok_iff, Bool.and_eq_true] at hok
      obtain ⟨e, he, ⟨⟨h0, h1⟩, h2⟩, h3⟩ := hok
      exact ⟨e, he, ⟨h0, h1⟩, h2, h3⟩

def SwitchProof.SameCommitments (proof proof' : S.SwitchProof) : Prop :=
  ∀ rel ∈ [SwitchProof.r0, SwitchProof.r1, SwitchProof.r2, SwitchProof.r3],
    (rel proof).t1 = (rel proof').t1 ∧ (rel proof).t2 = (rel proof').t2

theorem relationHolds_extract {inCt outCt : S.ElGamalCiphertext} {rel rel' : S.EqDlogProof}
    {e e' : S.Scalar} (hne : e ≠ e') (hsame : rel.t1 = rel'.t1 ∧ rel.t2 = rel'.t2)
    (hrel : relationHolds pk inCt outCt rel e = true)
    (hrel' : relationHolds pk inCt outCt rel' e' = true) :
    outCt = elgamalReencrypt pk inCt (extract rel.z rel'.z e e') := by
  simp only [relationHolds, Bool.and_eq_true, decide_eq_true_eq] at hrel hrel'
  rw [← hsame.1, ← hsame.2] at hrel'
  have hc1 := eq_extract_smul hne hrel.1 hrel'.1
  have hc2 := eq_extract_smul hne hrel.2 hrel'.2
  rw [sub_eq_iff_eq_add'] at hc1 hc2
  obtain ⟨c1, c2⟩ := outCt
  rw [elgamalReencrypt, Ciphertext.mk.injEq]
  exact ⟨hc1, hc2⟩

/-- The switch proof is complete, and two answers to different challenges give the two
randomisers of one and the same branch. -/
theorem switch_complete_and_sound (S : Suite) (pk : S.Point)
    (in0 in1 out0 out1 : S.ElGamalCiphertext) :
    (∀ (rng : S.ScalarRng) swapped rho0 rho1 context st sp st',
      out0 = elgamalReencrypt pk (if swapped then in1 else in0) rho0 →
      out1 = elgamalReencrypt pk (if swapped then in0 else in1) rho1 →
      out0.c1 ∉ [in0.c1, in1.c1] → out1.c1 ∉ [in0.c1, in1.c1] →
      proveSwitch rng pk in0 in1 out0 out1 swapped rho0 rho1 context st = .ok (sp, st') →
      verifySwitch pk in0 in1 out0 out1 sp context = .ok true) ∧
    (∀ proof context, verifySwitch pk in0 in1 out0 out1 proof context = .ok true →
      ∃ e, switchChallenge pk in0 in1 out0 out1 proof context = .ok e ∧
        SwitchHolds pk in0 in1 out0 out1 proof e) ∧
    ∀ proof proof' e e', proof.SameCommitments proof' → e ≠ e' →
      SwitchHolds pk in0 in1 out0 out1 proof e →
      SwitchHolds pk in0 in1 out0 out1 proof' e' →
      (out0 = elgamalReencrypt pk in0
          (extract proof.r0.z proof'.r0.z proof.e0 proof'.e0) ∧
        out1 = elgamalReencrypt pk in1
          (extract proof.r1.z proof'.r1.z proof.e0 proof'.e0)) ∨
      (out0 = elgamalReencrypt pk in1
          (extract proof.r2.z proof'.r2.z (e - proof.e0) (e' - proof'.e0)) ∧
        out1 = elgamalReencrypt pk in0
          (extract proof.r3.z proof'.r3.z (e - proof.e0) (e' - proof'.e0))) := by
  refine ⟨?_, fun _ _ => verifySwitch_holds, ?_⟩
  · intro rng swapped rho0 rho1 context st sp st' hout0 hout1 havoid0 havoid1 hok
    exact verifySwitch_prove hout0 hout1 havoid0 havoid1 hok
  · rintro proof proof' e e' hsame hne ⟨⟨h0, h1⟩, h2, h3⟩ ⟨⟨h0', h1'⟩, h2', h3'⟩
    by_cases he0 : proof.e0 = proof'.e0
    · -- The shares of the first branch agree, so those of the second differ.
      have he1 : e - proof.e0 ≠ e' - proof'.e0 := by
        rw [he0]
        exact fun heq => hne (sub_left_injective heq)
      exact .inr ⟨relationHolds_extract he1 (hsame _ (by simp)) h2 h2',
        relationHolds_extract he1 (hsame _ (by simp)) h3 h3'⟩
    · exact .inl ⟨relationHolds_extract he0 (hsame _ (by simp)) h0 h0',
        relationHolds_extract he0 (hsame _ (by simp)) h1 h1'⟩

abbrev keptIn0 : residueSuite.ElGamalCiphertext := ⟨(0 : ZMod 53), (5 : ZMod 53)⟩

abbrev keptIn1 : residueSuite.ElGamalCiphertext := ⟨(10 : ZMod 53), (7 : ZMod 53)⟩

abbrev keptOut0 : residueSuite.ElGamalCiphertext := ⟨(3 : ZMod 53), (50 : ZMod 53)⟩

abbrev keptOut1 : residueSuite.ElGamalCiphertext := ⟨(14 : ZMod 53), (14 : ZMod 53)⟩

/-- The nonces 1 and 2 are answered for the first branch, the second is simulated. -/
def keptProof (e0 : ZMod 53) : residueSuite.SwitchProof :=
  ⟨e0, (commitNonce spacedKey (1 : ZMod 53)).respond (1 + e0 * 3 : ZMod 53),
    (commitNonce spacedKey (2 : ZMod 53)).respond (2 + e0 * 4 : ZMod 53),
    simulateEqDlog spacedKey keptIn1 keptOut0 (6 : ZMod 53) (8 : ZMod 53),
    simulateEqDlog spacedKey keptIn0 keptOut1 (6 : ZMod 53) (9 : ZMod 53)⟩

def keptTape : (tapeRng residueSuite).State :=
  ([(6 : ZMod 53), (8 : ZMod 53), (9 : ZMod 53), (1 : ZMod 53), (2 : ZMod 53)], [])

theorem keptProof_extracted :
    (∃ sp st', proveSwitch (tapeRng residueSuite) spacedKey keptIn0 keptIn1 keptOut0
        keptOut1 false (3 : ZMod 53) (4 : ZMod 53) none keptTape = .ok (sp, st') ∧
      verifySwitch spacedKey keptIn0 keptIn1 keptOut0 keptOut1 sp none = .ok true) ∧
    ∃ rho0 rho1, (keptOut0 = elgamalReencrypt spacedKey keptIn0 rho0 ∧
        keptOut1 = elgamalReencrypt spacedKey keptIn1 rho1) ∨
      (keptOut0 = elgamalReencrypt spacedKey keptIn1 rho0 ∧
        keptOut1 = elgamalReencrypt spacedKey keptIn0 rho1) := by
  obtain ⟨hcomplete, -, hsound⟩ :=
    switch_complete_and_sound residueSuite spacedKey keptIn0 keptIn1 keptOut0 keptOut1
  have hsame : (keptProof 1).SameCommitments (keptProof 2) := by
    unfold SwitchProof.SameCommitments
    decide +kernel
  have hfirst : SwitchHolds spacedKey keptIn0 keptIn1 keptOut0 keptOut1 (keptProof 1)
      (7 : ZMod 53) := by
    unfold SwitchHolds
    decide +kernel
  have hsecond : SwitchHolds spacedKey keptIn0 keptIn1 keptOut0 keptOut1 (keptProof 2)
      (8 : ZMod 53) := by
    unfold SwitchHolds
    decide +kernel
  constructor
  · exact ⟨_, _, rfl, hcomplete _ false (3 : ZMod 53) (4 : ZMod 53) none keptTape _ _
      (by decide +kernel) (by decide +kernel) (by decide +kernel) (by decide +kernel) rfl⟩
  · have hne : (7 : ZMod 53) ≠ 8 := by decide
    rcases hsound _ _ _ _ hsame hne hfirst hsecond with hkept | hswapped
    · exact ⟨_, _, .inl hkept⟩
    · exact ⟨_, _, .inr hswapped⟩

end Switch

/-! ## Shares -/

section Share

/-- The three equations of a share proof: `y` has the logarithm of the share, `(u, v)`
encrypts its multiple of `p` under `q`. -/
def ShareHolds (p q y u v : S.Point) (proof : S.ShareProof) (e : S.Scalar) : Prop :=
  (S.mulBase proof.sx = proof.a1 + e • y ∧ S.mulBase proof.sr = proof.a2 + e • u) ∧
    proof.sx • p + proof.sr • q = proof.a3 + e • v

def ShareOf (p q y u v : S.Point) (x r : S.Scalar) : Prop :=
  (S.mulBase x = y ∧ u = S.mulBase r ∧ v = x • p + r • q) ∧
    ∀ sk, q = S.mulBase sk → v - sk • u = x • p

def encShareChallenge (y c1 pkp u v a1 a2 a3 : S.Point) : Except String S.Scalar :=
  S.pointsChallenge (newTranscript encShareDomain)
    [("Y", y), ("C1", c1), ("PKP", pkp), ("U", u), ("V", v), ("A1", a1), ("A2", a2),
      ("A3", a3)]

def encShareProve (y c1 pkp u v : S.Point) (x r wx wr : S.Scalar) :
    Except String S.ShareProof := do
  rejectIf (wx = 0 ∨ wr = 0) "encshare: nonces must be non-zero"
  let a1 := S.mulBase wx
  let a2 := S.mulBase wr
  let a3 := wx • c1 + wr • pkp
  let e ← encShareChallenge y c1 pkp u v a1 a2 a3
  pure ⟨a1, a2, a3, wx + e * x, wr + e * r⟩

def dkgEncShareChallenge (commitments : List S.Point) (j : Nat)
    (pkR u v a1 a2 a3 : S.Point) : Except String S.Scalar :=
  S.pointsChallenge ((newTranscript dkgEncShareDomain).appendMessages
      ([("t", u32le commitments.length)] ++ S.commitmentMessages commitments ++
        [("j", u32le j)]))
    [("pkR", pkR), ("U", u), ("V", v), ("A1", a1), ("A2", a2), ("A3", a3)]

def dkgEncShareProve (commitments : List S.Point) (j : Nat) (pkR u v : S.Point)
    (s r ws wr : S.Scalar) : Except String S.ShareProof := do
  rejectIf (commitments = []) "dkgEncShare: commitments must be non-empty"
  rejectIf (j = 0) "dkgEncShare: j must be >= 1"
  rejectIf (ws = 0 ∨ wr = 0) "dkgEncShare: nonces must be non-zero"
  let a1 := S.mulBase ws
  let a2 := S.mulBase wr
  let a3 := S.mulBase ws + wr • pkR
  let e ← dkgEncShareChallenge commitments j pkR u v a1 a2 a3
  pure ⟨a1, a2, a3, ws + e * s, wr + e * r⟩

theorem shareHolds_respond (p q : S.Point) (x r wx wr e : S.Scalar) :
    ShareHolds p q (S.mulBase x) (S.mulBase r) (x • p + r • q)
      ⟨S.mulBase wx, S.mulBase wr, wx • p + wr • q, wx + e * x, wr + e * r⟩ e := by
  simp only [ShareHolds, mulBase, add_smul, mul_smul, smul_add, and_self, true_and]
  abel

theorem ShareHolds.extracts {p q y u v : S.Point} {proof proof' : S.ShareProof} {e e' : S.Scalar}
    (hsame : proof.a1 = proof'.a1 ∧ proof.a2 = proof'.a2 ∧ proof.a3 = proof'.a3) (hne : e ≠ e')
    (hholds : ShareHolds p q y u v proof e) (hholds' : ShareHolds p q y u v proof' e') :
    ShareOf p q y u v (extract proof.sx proof'.sx e e') (extract proof.sr proof'.sr e e') := by
  obtain ⟨⟨hx, hr⟩, hv⟩ := hholds
  obtain ⟨⟨hx', hr'⟩, hv'⟩ := hholds'
  rw [← hsame.1] at hx'
  rw [← hsame.2.1] at hr'
  rw [← hsame.2.2] at hv'
  have hy := eq_extract_smul hne hx hx'
  have hu := eq_extract_smul hne hr hr'
  have hshare := eq_smul_of_two hne hv hv'
  rw [add_sub_add_comm, ← sub_smul, ← sub_smul, smul_add, smul_smul, smul_smul] at hshare
  refine ⟨⟨hy.symm, hu, hshare⟩, ?_⟩
  rintro sk rfl
  rw [hshare, hu, mulBase, smul_comm sk]
  exact add_sub_cancel_right _ _

theorem evalPowers_sum (commitments : List S.Point) (x : S.Scalar) :
    S.evalPowers commitments x = ∑ k : Fin commitments.length, x ^ (k : ℕ) • commitments[k] := by
  have hloop : ∀ (l : List S.Point) (acc : S.Point) (pow : S.Scalar),
      (l.foldl (fun (state : S.Point × S.Scalar) c =>
        (state.1 + state.2 • c, state.2 * x)) (acc, pow)).1 =
        acc + ∑ k : Fin l.length, (pow * x ^ (k : ℕ)) • l[k] := by
    intro l
    induction l with
    | nil => simp
    | cons c rest ih =>
      intro acc pow
      rw [List.foldl_cons, ih]
      simp [Fin.sum_univ_succ, pow_succ', mul_assoc, add_assoc]
  rw [evalPowers, hloop]
  simp

theorem encShareVerify_iff {y c1 pkp u v : S.Point} {proof : S.ShareProof} :
    encShareVerify y c1 pkp u v proof = .ok true ↔
      ∃ e, encShareChallenge y c1 pkp u v proof.a1 proof.a2 proof.a3 = .ok e ∧
        ShareHolds c1 pkp y u v proof e := by
  simp [encShareVerify, encShareChallenge, ShareHolds]

theorem dkgEncShareVerify_iff {commitments : List S.Point} {j : Nat} {pkR u v : S.Point}
    {proof : S.ShareProof} (hsome : commitments ≠ []) (hj : j ≠ 0) :
    dkgEncShareVerify commitments j pkR u v proof = .ok true ↔
      ∃ e, dkgEncShareChallenge commitments j pkR u v proof.a1 proof.a2 proof.a3 = .ok e ∧
        ShareHolds S.base pkR
          (∑ k : Fin commitments.length, (j : S.Scalar) ^ (k : ℕ) • commitments[k]) u v
          proof e := by
  have heval : S.evalCommitments commitments j = .ok (S.evalPowers commitments j) := by
    simp [evalCommitments, hsome, hj, scalarFromUint64]
  rw [← evalPowers_sum]
  simp only [dkgEncShareVerify, heval, ok_iff, Bool.and_eq_true, decide_eq_true_eq]
  rfl

/-- Both share proofs are complete, and two answers to different challenges give the
secrets of the statement, so that the recipient decrypts the share. -/
theorem shareProofs_complete_and_sound (S : Suite) (u v : S.Point)
    (proof proof' : S.ShareProof) (e e' : S.Scalar) :
    (∀ (c1 pkp : S.Point) (x r wx wr : S.Scalar), wx ≠ 0 → wr ≠ 0 → ∃ proof,
      encShareProve (S.mulBase x) c1 pkp (S.mulBase r) (x • c1 + r • pkp) x r wx wr =
        .ok proof ∧
      encShareVerify (S.mulBase x) c1 pkp (S.mulBase r) (x • c1 + r • pkp) proof =
        .ok true) ∧
    (∀ y c1 pkp : S.Point,
      (encShareVerify y c1 pkp u v proof = .ok true ↔
        ∃ e, encShareChallenge y c1 pkp u v proof.a1 proof.a2 proof.a3 = .ok e ∧
          ShareHolds c1 pkp y u v proof e) ∧
      (proof.a1 = proof'.a1 ∧ proof.a2 = proof'.a2 ∧ proof.a3 = proof'.a3 → e ≠ e' →
        ShareHolds c1 pkp y u v proof e → ShareHolds c1 pkp y u v proof' e' →
        ShareOf c1 pkp y u v (extract proof.sx proof'.sx e e')
          (extract proof.sr proof'.sr e e'))) ∧
    ∀ (commitments : List S.Point) (j : Nat) (pkR : S.Point), commitments ≠ [] → j ≠ 0 →
      let share := ∑ k : Fin commitments.length, (j : S.Scalar) ^ (k : ℕ) • commitments[k]
      (∀ s r ws wr : S.Scalar, S.mulBase s = share → ws ≠ 0 → wr ≠ 0 → ∃ proof,
        dkgEncShareProve commitments j pkR (S.mulBase r) (s • S.base + r • pkR) s r ws wr =
          .ok proof ∧
        dkgEncShareVerify commitments j pkR (S.mulBase r) (s • S.base + r • pkR) proof =
          .ok true) ∧
      (dkgEncShareVerify commitments j pkR u v proof = .ok true ↔
        ∃ e, dkgEncShareChallenge commitments j pkR u v proof.a1 proof.a2 proof.a3 =
          .ok e ∧ ShareHolds S.base pkR share u v proof e) ∧
      (proof.a1 = proof'.a1 ∧ proof.a2 = proof'.a2 ∧ proof.a3 = proof'.a3 → e ≠ e' →
        ShareHolds S.base pkR share u v proof e →
        ShareHolds S.base pkR share u v proof' e' →
        ShareOf S.base pkR share u v (extract proof.sx proof'.sx e e')
          (extract proof.sr proof'.sr e e')) := by
  refine ⟨?_, fun y c1 pkp => ⟨encShareVerify_iff, ShareHolds.extracts⟩, ?_⟩
  · intro c1 pkp x r wx wr hwx hwr
    obtain ⟨e, he⟩ : ∃ e, encShareChallenge (S.mulBase x) c1 pkp (S.mulBase r)
      (x • c1 + r • pkp) (S.mulBase wx) (S.mulBase wr) (wx • c1 + wr • pkp) = .ok e :=
      pointsChallenge_ok _ _
    have hholds := shareHolds_respond c1 pkp x r wx wr e
    refine ⟨⟨_, _, _, wx + e * x, wr + e * r⟩, ?_, encShareVerify_iff.mpr ⟨e, he, hholds⟩⟩
    rw [encShareProve, rejectIf_bind (not_or.mpr ⟨hwx, hwr⟩)]
    dsimp only
    rw [he]
    rfl
  · intro commitments j pkR hsome hj share
    refine ⟨?_, dkgEncShareVerify_iff hsome hj, ShareHolds.extracts⟩
    intro s r ws wr hs hws hwr
    obtain ⟨e, he⟩ : ∃ e, dkgEncShareChallenge commitments j pkR (S.mulBase r)
      (s • S.base + r • pkR) (S.mulBase ws) (S.mulBase wr) (S.mulBase ws + wr • pkR) =
        .ok e := pointsChallenge_ok _ _
    have hholds := shareHolds_respond S.base pkR s r ws wr e
    rw [hs] at hholds
    refine ⟨⟨_, _, _, ws + e * s, wr + e * r⟩, ?_,
      (dkgEncShareVerify_iff hsome hj).mpr ⟨e, he, hholds⟩⟩
    rw [dkgEncShareProve, rejectIf_bind hsome, rejectIf_bind hj,
      rejectIf_bind (not_or.mpr ⟨hws, hwr⟩)]
    dsimp only
    rw [he]
    rfl

def residueShareProof (e : ZMod 53) : residueSuite.ShareProof :=
  ⟨(1 : ZMod 53), (1 : ZMod 53), (8 : ZMod 53), (1 + e * 2 : ZMod 53),
    (1 + e * 3 : ZMod 53)⟩

theorem residueShareProof_extracted :
    (∃ x r, ShareOf (S := residueSuite) (1 : ZMod 53) (7 : ZMod 53) (2 : ZMod 53)
      (3 : ZMod 53) (23 : ZMod 53) x r) ∧
    ∃ proof, dkgEncShareProve (S := residueSuite) [(2 : ZMod 53)] 1 (7 : ZMod 53)
        (3 : ZMod 53) (23 : ZMod 53) (2 : ZMod 53) (3 : ZMod 53) (1 : ZMod 53)
        (1 : ZMod 53) = .ok proof ∧
      dkgEncShareVerify (S := residueSuite) [(2 : ZMod 53)] 1 (7 : ZMod 53) (3 : ZMod 53)
        (23 : ZMod 53) proof = .ok true := by
  obtain ⟨-, hsound, hdkg⟩ := shareProofs_complete_and_sound residueSuite
    (3 : ZMod 53) (23 : ZMod 53) (residueShareProof 1) (residueShareProof 2)
    (1 : ZMod 53) (2 : ZMod 53)
  have hholds : ∀ e : ZMod 53, ShareHolds (S := residueSuite) (1 : ZMod 53) (7 : ZMod 53)
      (2 : ZMod 53) (3 : ZMod 53) (23 : ZMod 53) (residueShareProof e) e := by
    unfold ShareHolds
    decide +kernel
  have hnonce : (1 : ZMod 53) ≠ 0 := by decide
  have hne : (1 : ZMod 53) ≠ 2 := by decide
  constructor
  · exact ⟨_, _, (hsound _ _ _).2 (by decide +kernel) hne (hholds 1) (hholds 2)⟩
  · exact (hdkg [(2 : ZMod 53)] 1 (7 : ZMod 53) (by simp) (by simp)).1 (2 : ZMod 53)
      (3 : ZMod 53) (1 : ZMod 53) (1 : ZMod 53) (by decide +kernel) hnonce hnonce

end Share

end OnChainPoker.Crypto.Suite
