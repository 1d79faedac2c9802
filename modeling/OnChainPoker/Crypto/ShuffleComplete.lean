import Mathlib.Data.List.GetD
import OnChainPoker.Crypto.ShuffleProver

/-!
# The verifier accepts what the prover writes

Decoding undoes encoding, the verifier's equations hold for the prover's responses, and
both walk through pairs and singles in the same order, so that the verifier reads each
round exactly to its end.
-/

namespace OnChainPoker.Crypto.Suite

open Foundation

variable {S : Suite} {items next : List S.ShuffleItem} {proofs : Bytes} {i n optRounds start : Nat}
  {perm : List Nat} {deckIn : List S.ElGamalCiphertext} {result : ShuffleProveResult S}

/-! ## Decoding what was encoded -/

section Decoding

theorem scalarFromBytesCanonical_scalarBytes (x : S.Scalar) :
    S.scalarFromBytesCanonical (S.scalarBytes x) = .ok x :=
  S.scalarFromBytesCanonical_eq_ok.mpr rfl

theorem encodeCiphertext_length (ct : S.ElGamalCiphertext) : (encodeCiphertext ct).length = 64 := by
  simp [encodeCiphertext, S.pointBytes_length]

theorem decodeCiphertext_encode (ct : S.ElGamalCiphertext) :
    S.decodeCiphertext (encodeCiphertext ct) = .ok ct := by
  have hfirst : chunk (encodeCiphertext ct) 0 = S.pointBytes ct.c1 := by
    rw [chunk, encodeCiphertext, List.drop_zero, List.take_left' (S.pointBytes_length _)]
  have hsecond : chunk (encodeCiphertext ct) 32 = S.pointBytes ct.c2 := by
    rw [chunk, encodeCiphertext, List.drop_left' (S.pointBytes_length _),
      List.take_of_length_le (S.pointBytes_length _).le]
  rw [decodeCiphertext, rejectIf_bind (by simp [encodeCiphertext_length]), hfirst, hsecond,
    pointFromBytesCanonical_pointBytes, ok_bind, pointFromBytesCanonical_pointBytes, ok_bind]
  rfl

theorem decodeDeck_encode (deck : List S.ElGamalCiphertext) :
    S.decodeDeck deck.length (deck.flatMap encodeCiphertext) = .ok deck := by
  induction deck with
  | nil => rfl
  | cons ct deck ih =>
    rw [List.length_cons, decodeDeck, List.flatMap_cons,
      List.take_left' (encodeCiphertext_length ct), List.drop_left' (encodeCiphertext_length ct),
      decodeCiphertext_encode, ok_bind, ih, ok_bind]
    rfl

theorem deckBytes_length (deck : List S.ElGamalCiphertext) :
    (deck.flatMap encodeCiphertext).length = deck.length * 64 := by
  induction deck with
  | nil => rfl
  | cons ct deck ih =>
    rw [List.flatMap_cons, List.length_append, encodeCiphertext_length, ih, List.length_cons]
    omega

theorem decodeEqDlogProof_encode (p : S.EqDlogProof) (rd : Bytes) :
    S.decodeEqDlogProofFromReader (encodeEqDlogProof p ++ rd) = .ok (p, rd) := by
  rw [decodeEqDlogProofFromReader, encodeEqDlogProof, List.append_assoc, List.append_assoc,
    takeBytes_append (S.pointBytes_length _), ok_bind]
  dsimp only
  rw [takeBytes_append (S.pointBytes_length _), ok_bind]
  rw [takeBytes_append (S.scalarBytes_length _), ok_bind]
  rw [pointFromBytesCanonical_pointBytes, ok_bind, pointFromBytesCanonical_pointBytes,
    ok_bind, scalarFromBytesCanonical_scalarBytes, ok_bind]
  rfl

theorem decodeSwitchProof_encode (p : S.SwitchProof) (rd : Bytes) :
    S.decodeSwitchProofFromReader (encodeSwitchProof p ++ rd) = .ok (p, rd) := by
  rw [decodeSwitchProofFromReader, encodeSwitchProof]
  simp only [List.append_assoc]
  rw [takeBytes_append (S.scalarBytes_length _), ok_bind]
  rw [scalarFromBytesCanonical_scalarBytes, ok_bind, decodeEqDlogProof_encode, ok_bind]
  rw [decodeEqDlogProof_encode, ok_bind]
  rw [decodeEqDlogProof_encode, ok_bind]
  rw [decodeEqDlogProof_encode, ok_bind]
  rfl

end Decoding

/-! ## The equations of the proofs -/

section Equations

variable {rng : S.ScalarRng} {limit : Nat} {pk : S.Point} {context : Option Bytes}
  {st st' : rng.State}

theorem sampleNonzeroScalar_spec {fuel : Nat} {s : S.Scalar}
    (hok : sampleNonzeroScalar rng fuel st = .ok (s, st')) : s ≠ 0 := by
  induction fuel generalizing st with
  | zero => cases hok
  | succ fuel ih =>
    simp only [sampleNonzeroScalar, ok_iff] at hok
    obtain ⟨⟨drawn, st₁⟩, -, hok⟩ := hok
    split at hok
    · exact ih hok
    · cases hok
      assumption

theorem reencryptAvoidingC1Collisions_spec {src ct : S.ElGamalCiphertext}
    {avoidC1s : List S.Point} {fuel : Nat} {rho : S.Scalar}
    (hok : reencryptAvoidingC1Collisions rng limit pk src avoidC1s fuel st = .ok ((ct, rho), st')) :
    ct = elgamalReencrypt pk src rho ∧ ct.c1 ∉ avoidC1s := by
  induction fuel generalizing st with
  | zero => cases hok
  | succ fuel ih =>
    simp only [reencryptAvoidingC1Collisions, ok_iff] at hok
    obtain ⟨⟨drawn, st₁⟩, -, hok⟩ := hok
    split at hok
    · exact ih hok
    · cases hok
      exact ⟨rfl, by assumption⟩

theorem reencrypts_elgamalReencrypt (ct : S.ElGamalCiphertext) (rho : S.Scalar) :
    Reencrypts S.Scalar S.base pk ct (elgamalReencrypt pk ct rho) :=
  ⟨rho, rfl, rfl⟩

theorem elgamalReencrypt_c1_ne (ct : S.ElGamalCiphertext) {rho : S.Scalar} (hrho : rho ≠ 0) :
    (elgamalReencrypt pk ct rho).c1 ≠ ct.c1 := by
  intro heq
  rw [elgamalReencrypt, add_eq_left, mulBase] at heq
  exact (smul_eq_zero.mp heq).elim hrho S.base_ne_zero

theorem verifyEqDlog_prove {domain : String} {A B : S.Point} {x : S.Scalar} {p : S.EqDlogProof}
    (hok : proveEqDlog rng domain A B (x • A) (x • B) x context st = .ok (p, st')) :
    verifyEqDlog domain A B (x • A) (x • B) p context = .ok true := by
  simp only [proveEqDlog, ok_iff, Prod.mk.injEq] at hok
  obtain ⟨⟨w, st₁⟩, -, e, he, rfl, -⟩ := hok
  rw [verifyEqDlog, he, ok_bind]
  simp [add_smul, mul_smul]

theorem relationHolds_simulate (inCt outCt : S.ElGamalCiphertext) (e z : S.Scalar) :
    relationHolds pk inCt outCt (simulateEqDlog pk inCt outCt e z) e = true := by
  simp [relationHolds, simulateEqDlog]

theorem relationHolds_respond (inCt : S.ElGamalCiphertext) (rho w e : S.Scalar) :
    relationHolds pk inCt (elgamalReencrypt pk inCt rho)
      ((commitNonce pk w).respond (w + e * rho)) e = true := by
  simp [relationHolds, commitNonce, EqDlogProof.respond, elgamalReencrypt, mulBase,
    add_smul, mul_smul]

theorem verifySwitch_prove {in0 in1 : S.ElGamalCiphertext} {swapped : Bool} {rho0 rho1 : S.Scalar}
    {out0 out1 : S.ElGamalCiphertext} {st st' : rng.State} {sp : S.SwitchProof}
    (hout0 : out0 = elgamalReencrypt pk (if swapped then in1 else in0) rho0)
    (hout1 : out1 = elgamalReencrypt pk (if swapped then in0 else in1) rho1)
    (havoid0 : out0.c1 ∉ [in0.c1, in1.c1]) (havoid1 : out1.c1 ∉ [in0.c1, in1.c1])
    (hok : proveSwitch rng pk in0 in1 out0 out1 swapped rho0 rho1 context st = .ok (sp, st')) :
    verifySwitch pk in0 in1 out0 out1 sp context = .ok true := by
  simp only [List.mem_cons, List.not_mem_nil, or_false] at havoid0 havoid1
  rw [verifySwitch, if_neg havoid0, if_neg havoid1]
  simp only [proveSwitch, ok_iff] at hok
  obtain ⟨⟨eSim, _⟩, -, ⟨z0, _⟩, -, ⟨z1, _⟩, -, ⟨w0, _⟩, -, ⟨w1, _⟩, -, hok⟩ := hok
  -- The challenge does not depend on the responses.
  cases swapped with
  | true =>
    simp only [if_true, ok_iff, Prod.mk.injEq] at hok hout0 hout1
    obtain ⟨e, he, rfl, -⟩ := hok
    rw [bind_ok_iff]
    refine ⟨e, he, pure_ok_iff.mpr ?_⟩
    subst hout0 hout1
    simp only [relationHolds_simulate, relationHolds_respond, Bool.and_self]
  | false =>
    simp only [Bool.false_eq_true, if_false, ok_iff, Prod.mk.injEq] at hok hout0 hout1
    obtain ⟨e, he, rfl, -⟩ := hok
    rw [bind_ok_iff]
    refine ⟨e, he, pure_ok_iff.mpr ?_⟩
    subst hout0 hout1
    simp only [sub_sub_cancel, relationHolds_simulate, relationHolds_respond, Bool.and_self]

end Equations

/-! ## The walk through a round -/

def Tracks (pk : S.Point) (items next : List S.ShuffleItem) : Prop :=
  ∀ item' ∈ next, ∃ item ∈ items, item.key = item'.key ∧
    Reencrypts S.Scalar S.base pk item.ct item'.ct

theorem Tracks.refl (pk : S.Point) (items : List S.ShuffleItem) : Tracks pk items items :=
  fun item hitem => ⟨item, hitem, rfl, .refl _⟩

theorem Tracks.trans {pk : S.Point} {items next last : List S.ShuffleItem}
    (hfirst : Tracks pk items next) (hsecond : Tracks pk next last) :
    Tracks pk items last := by
  intro item'' hitem''
  obtain ⟨item', hitem', hkey', hre'⟩ := hsecond item'' hitem''
  obtain ⟨item, hitem, hkey, hre⟩ := hfirst item' hitem'
  exact ⟨item, hitem, hkey.trans hkey', hre.trans hre'⟩

section Walk

variable {rng : S.ScalarRng} {limit : Nat} {pk : S.Point} {context : Option Bytes}
  {st st' : rng.State}

structure PairsProved (pk : S.Point) (context : Option Bytes)
    (items next : List S.ShuffleItem) (proofs : Bytes) : Prop where
  length : next.length = items.length
  keys : next.map ShuffleItem.key = exchangePairs (items.map ShuffleItem.key)
  tracks : Tracks pk items next
  /-- An odd last item is left alone. -/
  last : items.length % 2 = 1 → next[items.length - 1]? = items[items.length - 1]?
  /-- The proofs do not look at an odd last item. -/
  verified : ∀ round i rd, ∀ out : List S.ShuffleItem,
    (∀ j < items.length / 2 * 2, out[j]? = next[j]?) →
    verifyPairs pk context round i (items.map ShuffleItem.ct) (out.map ShuffleItem.ct)
      (proofs ++ rd) = .ok rd

theorem provePairs_spec :
    (items : List S.ShuffleItem) → {st st' : rng.State} →
      {next : List S.ShuffleItem} → {proofs : Bytes} →
      provePairs rng limit pk context items st = .ok ((next, proofs), st') →
      PairsProved pk context items next proofs
  | [], _, _, _, _, hok => by
      cases hok
      exact ⟨rfl, rfl, .refl _ _, by simp, fun _ _ _ _ _ => by simp [verifyPairs]⟩
  | [item], _, _, _, _, hok => by
      cases hok
      exact ⟨rfl, rfl, .refl _ _, fun _ => rfl, fun _ _ _ _ _ => by simp [verifyPairs]⟩
  | left :: right :: rest, st, st', next, proofs, hok => by
      simp only [provePairs, ok_iff, Prod.mk.injEq] at hok
      obtain ⟨⟨⟨out0, rho0⟩, _⟩, hout0, ⟨⟨out1, rho1⟩, _⟩, hout1, ⟨sp, _⟩, hsp,
        ⟨⟨tail, tailProofs⟩, _⟩, htail, ⟨rfl, rfl⟩, -⟩ := hok
      have hrest := provePairs_spec rest htail
      obtain ⟨heq0, havoid0⟩ := reencryptAvoidingC1Collisions_spec hout0
      obtain ⟨heq1, havoid1⟩ := reencryptAvoidingC1Collisions_spec hout1
      dsimp only at heq0 heq1 havoid0 havoid1 hsp
      have hswitch : verifySwitch pk left.ct right.ct out0 out1 sp context = .ok true := by
        refine verifySwitch_prove ?_ ?_ havoid0 havoid1 hsp
        · rw [heq0, apply_ite ShuffleItem.ct]
        · rw [heq1, apply_ite ShuffleItem.ct]
      refine ⟨?_, ?_, ?_, ?_, fun round i rd out hout => ?_⟩
      · simp only [List.length_cons, hrest.length]
      · simp only [List.map_cons, exchangePairs, hrest.keys]
        by_cases hswap : left.key > right.key
        · simp [hswap, hswap.le]
        · simp [hswap, Nat.le_of_not_lt hswap]
      · have htail : Tracks pk (left :: right :: rest) tail := fun item' hitem' => by
          obtain ⟨item, hitem, hsame⟩ := hrest.tracks item' hitem'
          exact ⟨item, by simp [hitem], hsame⟩
        intro item' hitem'
        rw [List.mem_cons, List.mem_cons] at hitem'
        rcases hitem' with rfl | rfl | hitem'
        · refine ⟨if decide (left.key > right.key) then right else left, ?_, rfl, ?_⟩
          · split <;> simp
          · rw [heq0]
            exact reencrypts_elgamalReencrypt _ rho0
        · refine ⟨if decide (left.key > right.key) then left else right, ?_, rfl, ?_⟩
          · split <;> simp
          · rw [heq1]
            exact reencrypts_elgamalReencrypt _ rho1
        · exact htail item' hitem'
      · intro hodd
        simp only [List.length_cons] at hodd ⊢
        obtain ⟨k, hk⟩ : ∃ k, rest.length = k + 1 := ⟨rest.length - 1, by omega⟩
        have hlast := hrest.last (by omega)
        simpa [hk] using hlast
      · simp only [List.length_cons] at hout
        have hfirst := hout 0 (by omega)
        have hsecond := hout 1 (by omega)
        rcases out with _ | ⟨_, _ | ⟨_, others⟩⟩
        · cases hfirst
        · cases hsecond
        · cases hfirst
          cases hsecond
          have hothers : ∀ j < rest.length / 2 * 2, others[j]? = tail[j]? :=
            fun j hj => hout (j + 2) (by omega)
          simp only [List.map_cons, verifyPairs, List.append_assoc,
            decodeSwitchProof_encode, ok_bind, hswitch]
          exact hrest.verified round (i + 2) rd others hothers

/-- What the singles of a round do, when they still hold the items they started with. -/
structure SinglesProved (pk : S.Point) (context : Option Bytes)
    (items before next : List S.ShuffleItem) (singles : List Nat) (proofs : Bytes) :
    Prop where
  keys : next.map ShuffleItem.key = before.map ShuffleItem.key
  kept : ∀ j ∉ singles, next[j]? = before[j]?
  tracks : Tracks pk items before → Tracks pk items next
  verified : ∀ round rd, singles.foldlM
    (verifySingle pk context round (items.map ShuffleItem.ct) (next.map ShuffleItem.ct))
    (proofs ++ rd) = .ok rd

theorem proveSingles_spec {singles : List Nat} (hnodup : singles.Nodup)
    {before next : List S.ShuffleItem} {acc proofs : Bytes}
    (hsame : ∀ j ∈ singles, ∃ item, items[j]? = some item ∧ before[j]? = some item)
    (hok : singles.foldlM (proveSingle rng limit pk context items) ((before, acc), st) =
      .ok ((next, proofs), st')) :
    ∃ added, proofs = acc ++ added ∧ SinglesProved pk context items before next singles added := by
  induction singles generalizing before acc st with
  | nil =>
    cases hok
    exact ⟨[], by simp, rfl, fun _ _ => rfl, id, fun _ _ => rfl⟩
  | cons idx rest ih =>
    rw [List.nodup_cons] at hnodup
    obtain ⟨item, hitem, hbefore⟩ := hsame idx (by simp)
    simp only [List.foldlM_cons, proveSingle, hitem, ok_iff] at hok
    obtain ⟨_, ⟨⟨rho, _⟩, hrho, ⟨p, _⟩, hp, hone⟩, hok⟩ := hok
    cases hone
    have hother : ∀ j, j ≠ idx → (before.modify idx fun entry =>
        { entry with ct := elgamalReencrypt pk item.ct rho })[j]? = before[j]? := by
      intro j hj
      simp [hj.symm]
    have hself : (before.modify idx fun entry =>
        { entry with ct := elgamalReencrypt pk item.ct rho })[idx]? =
          some { item with ct := elgamalReencrypt pk item.ct rho } := by
      simp [hbefore]
    obtain ⟨added, rfl, hrest⟩ := ih hnodup.2 (fun j hj => by
      obtain ⟨other, hfirst, hsecond⟩ := hsame j (by simp [hj])
      exact ⟨other, hfirst, (hother j fun heq => hnodup.1 (heq ▸ hj)).trans hsecond⟩) hok
    refine ⟨encodeEqDlogProof p ++ added, List.append_assoc _ _ _, ?_, ?_, ?_, ?_⟩
    · refine hrest.keys.trans (List.ext_getElem? fun j => ?_)
      rw [List.getElem?_map, List.getElem?_map, List.getElem?_modify,
        Option.map_eq_map, Option.map_map]
      refine congrArg (Option.map · _) (funext fun entry => ?_)
      split <;> rfl
    · intro j hj
      rw [List.mem_cons, not_or] at hj
      exact (hrest.kept j hj.2).trans (hother j hj.1)
    · intro htracks
      refine hrest.tracks fun item' hitem' => ?_
      obtain ⟨j, hj⟩ := List.mem_iff_getElem?.mp hitem'
      by_cases hidx : j = idx
      · rw [hidx, hself] at hj
        cases hj
        exact ⟨item, List.mem_of_getElem? hitem, rfl, reencrypts_elgamalReencrypt _ rho⟩
      · rw [hother j hidx] at hj
        exact htracks item' (List.mem_of_getElem? hj)
    · intro round rd
      have hnext := (hrest.kept idx hnodup.1).trans hself
      have hc1 : (elgamalReencrypt pk item.ct rho).c1 - item.ct.c1 = rho • S.base :=
        add_sub_cancel_left _ _
      have hc2 : (elgamalReencrypt pk item.ct rho).c2 - item.ct.c2 = rho • pk :=
        add_sub_cancel_left _ _
      rw [hc1, hc2] at hp
      simp only [List.foldlM_cons, verifySingle, List.getElem?_map, hitem, hnext,
        Option.map_some, List.append_assoc, decodeEqDlogProof_encode, ok_bind]
      rw [rejectIf_bind (elgamalReencrypt_c1_ne _ (sampleNonzeroScalar_spec hrho)), hc1, hc2,
        verifyEqDlog_prove hp, ok_bind, rejectIf_bind (by simp)]
      exact hrest.verified round rd

theorem unpaired_eq_roundSingles (hcards : 2 ≤ n) (hstart : start < 2) :
    unpaired n start = roundSingles n start := by
  have hsorted : (roundSingles n start).Pairwise (· < ·) := by
    unfold roundSingles
    split
    · exact List.pairwise_singleton _ _
    · split
      · simp
        omega
      · exact .nil
  refine List.Pairwise.eq_of_mem_iff (List.pairwise_lt_range.filter _) hsorted fun i => ?_
  simp only [unpaired, startsPair, List.mem_filter, List.mem_range, Bool.not_eq_true',
    Bool.or_eq_false_iff, Bool.and_eq_false_iff, decide_eq_false_iff_not]
  unfold roundSingles
  split
  · simp only [List.mem_singleton]
    split <;> omega
  · split
    · simp only [List.mem_cons, List.not_mem_nil, or_false]
      omega
    · simp only [List.not_mem_nil, iff_false]
      omega

theorem roundSingles_nodup (hcards : 2 ≤ n) : (roundSingles n start).Nodup := by
  unfold roundSingles
  split
  · exact List.nodup_singleton _
  · split
    · simp
      omega
    · exact .nil

theorem untouched {items paired : List S.ShuffleItem} (hcards : 2 ≤ items.length)
    (hstart : start < 2) (hpaired : PairsProved pk context (items.drop start) paired proofs) :
    ∀ j ∈ roundSingles items.length start, ∃ item,
      items[j]? = some item ∧ (items.take start ++ paired)[j]? = some item := by
  have hfirst : start = 1 → (items.take start ++ paired)[0]? = items[0]? := by
    rintro rfl
    rw [List.getElem?_append_left (by simp; omega), List.getElem?_take_of_lt (by omega)]
  have hlast : (items.length - start) % 2 = 1 →
      (items.take start ++ paired)[items.length - 1]? = items[items.length - 1]? := by
    intro hodd
    have hkept := hpaired.last (by simpa using hodd)
    rw [List.length_drop, List.getElem?_drop] at hkept
    rw [List.getElem?_append_right (by simp; omega), List.length_take, min_eq_left (by omega)]
    rw [show items.length - 1 - start = items.length - start - 1 by omega, hkept]
    congr 1
    omega
  have hsame : ∀ j ∈ roundSingles items.length start,
      j < items.length ∧ (items.take start ++ paired)[j]? = items[j]? := by
    intro j hj
    unfold roundSingles at hj
    split at hj
    · rename_i hodd
      rw [List.mem_singleton] at hj
      subst hj
      split
      · exact ⟨by omega, hlast (by omega)⟩
      · exact ⟨by omega, hfirst (by omega)⟩
    · split at hj
      · simp only [List.mem_cons, List.not_mem_nil, or_false] at hj
        rcases hj with rfl | rfl
        · exact ⟨by omega, hfirst (by assumption)⟩
        · exact ⟨by omega, hlast (by omega)⟩
      · cases hj
  intro j hj
  obtain ⟨hlt, heq⟩ := hsame j hj
  exact ⟨items[j], List.getElem?_eq_getElem hlt, heq.trans (List.getElem?_eq_getElem hlt)⟩

theorem paired_kept {items paired out : List S.ShuffleItem} (hcards : 2 ≤ items.length)
    (hstart : start < 2)
    (hkept : ∀ j ∉ roundSingles items.length start, out[j]? = (items.take start ++ paired)[j]?) :
    ∀ j < (items.drop start).length / 2 * 2, (out.drop start)[j]? = paired[j]? := by
  intro j hj
  rw [List.length_drop] at hj
  have hnot : start + j ∉ roundSingles items.length start := by
    unfold roundSingles
    split
    · rw [List.mem_singleton]
      split <;> omega
    · split
      · simp only [List.mem_cons, List.not_mem_nil, or_false]
        omega
      · simp
  rw [List.getElem?_drop, hkept _ hnot, List.getElem?_append_right (by simp),
    List.length_take, min_eq_left (by omega), Nat.add_sub_cancel_left]

structure RoundProved (pk : S.Point) (context : Option Bytes) (round : Nat)
    (items next : List S.ShuffleItem) (proofs : Bytes) : Prop where
  keys : next.map ShuffleItem.key = oddEvenRound round (items.map ShuffleItem.key)
  tracks : Tracks pk items next
  verified : ∀ rd, verifyRound pk context items.length round (items.map ShuffleItem.ct)
    (proofs ++ rd) = .ok (next.map ShuffleItem.ct, rd)

theorem proveRound_spec {round : Nat} (hcards : 2 ≤ items.length)
    (hok : proveRound rng limit pk context round items st = .ok ((next, proofs), st')) :
    RoundProved pk context round items next proofs := by
  simp only [proveRound, ok_iff, Prod.mk.injEq] at hok
  obtain ⟨⟨⟨paired, switchProofs⟩, st₁⟩, hpairs, ⟨⟨out, singleProofs⟩, st₂⟩, hsingles,
    ⟨rfl, rfl⟩, -⟩ := hok
  have hstart : round % 2 < 2 := Nat.mod_lt _ (by omega)
  have hpaired := provePairs_spec _ hpairs
  rw [unpaired_eq_roundSingles hcards hstart] at hsingles
  obtain ⟨added, hadded, hsingles⟩ := proveSingles_spec (roundSingles_nodup hcards)
    (untouched hcards hstart hpaired) hsingles
  subst hadded
  have hkeys : out.map ShuffleItem.key = oddEvenRound round (items.map ShuffleItem.key) := by
    rw [hsingles.keys, List.map_append, hpaired.keys, oddEvenRound, List.map_take, List.map_drop]
  have hlength : out.length = items.length := by
    simpa [(oddEvenRound_perm _ _).length_eq] using congrArg List.length hkeys
  refine ⟨hkeys, hsingles.tracks ?_, fun rd => ?_⟩
  · intro item' hitem'
    rcases List.mem_append.mp hitem' with hhead | htail
    · exact ⟨item', List.mem_of_mem_take hhead, rfl, .refl _⟩
    · obtain ⟨item, hitem, hsame⟩ := hpaired.tracks item' htail
      exact ⟨item, List.mem_of_mem_drop hitem, hsame⟩
  · have hbytes : (out.flatMap fun item => encodeCiphertext item.ct) =
        (out.map ShuffleItem.ct).flatMap encodeCiphertext := (List.flatMap_map _ _ out).symm
    have hsize : ((out.map ShuffleItem.ct).flatMap encodeCiphertext).length =
        items.length * 64 := by
      rw [deckBytes_length, List.length_map, hlength]
    have hdeck : S.decodeDeck items.length
        ((out.map ShuffleItem.ct).flatMap encodeCiphertext) = .ok (out.map ShuffleItem.ct) := by
      rw [← hlength, ← List.length_map]
      exact decodeDeck_encode _
    have hwalk := hpaired.verified round (round % 2) (singleProofs ++ rd)
      (out.drop (round % 2)) (paired_kept hcards hstart hsingles.kept)
    rw [verifyRound, hbytes, List.append_assoc, List.append_assoc, takeBytes_append hsize, ok_bind]
    dsimp only
    rw [hdeck, ok_bind, ← List.map_drop, ← List.map_drop, hwalk, ok_bind]
    rw [hsingles.verified round rd, ok_bind]
    rfl

structure RoundsProved (pk : S.Point) (context : Option Bytes) (left round : Nat)
    (items last : List S.ShuffleItem) (proofs : Bytes) : Prop where
  keys : last.map ShuffleItem.key = oddEvenRounds left round (items.map ShuffleItem.key)
  tracks : Tracks pk items last
  verified : ∀ rd, verifyRounds pk context items.length left round
    (items.map ShuffleItem.ct) (proofs ++ rd) = .ok (last.map ShuffleItem.ct, rd)

theorem proveRounds_spec {left round : Nat} {items last : List S.ShuffleItem}
    {st st' : rng.State} (hcards : 2 ≤ items.length)
    (hok : proveRounds rng limit pk context left round items st = .ok ((last, proofs), st')) :
    RoundsProved pk context left round items last proofs := by
  induction left generalizing round items last proofs st st' with
  | zero =>
    cases hok
    exact ⟨rfl, .refl _ _, fun rd => rfl⟩
  | succ left ih =>
    simp only [proveRounds, ok_iff, Prod.mk.injEq] at hok
    obtain ⟨⟨⟨next, first⟩, _⟩, hround, ⟨⟨_, rest⟩, _⟩, hrest, ⟨rfl, rfl⟩, -⟩ := hok
    have hproved := proveRound_spec hcards hround
    have hlength : next.length = items.length := by
      simpa [(oddEvenRound_perm _ _).length_eq] using congrArg List.length hproved.keys
    have hlater := ih (hlength ▸ hcards) hrest
    refine ⟨?_, hproved.tracks.trans hlater.tracks, fun rd => ?_⟩
    · rw [hlater.keys, hproved.keys, oddEvenRounds]
    · rw [verifyRounds, List.append_assoc, hproved.verified, ok_bind]
      rw [← hlength]
      exact hlater.verified rd

end Walk

/-! ## The whole proof -/

section Proof

variable {rng : S.ScalarRng} {limit : Nat} {pk : S.Point} {context : Option Bytes}
  {st st' : rng.State}

theorem takeBytes_u16le (x : Nat) (rest : Bytes) :
    takeBytes 2 (u16le x ++ rest) = .ok (u16le x, rest) :=
  takeBytes_append (leBytes_length 2 x) rest

theorem leNat_u16le {x : Nat} (hx : x ≤ 65535) : leNat (u16le x) = x := leNat_leBytes (by omega)

theorem readShuffleHeader_of_parts {n rounds : Nat} {version : UInt8} {ctxPart rd : Bytes}
    (hcards : 2 ≤ n) (hn : n ≤ 65535) (hpos : 0 < rounds) (hrounds : rounds ≤ 65535)
    (hversion : checkVersion version.toNat context = .ok ())
    (hcontext : readContext context (ctxPart ++ rd) = .ok rd) :
    readShuffleHeader n (version :: (u16le n ++ u16le rounds ++ ctxPart) ++ rd) context =
      .ok (rounds, rd) := by
  have hfirst : takeBytes 1 (version :: (u16le n ++ u16le rounds ++ ctxPart) ++ rd) =
      .ok ([version], u16le n ++ (u16le rounds ++ (ctxPart ++ rd))) := by
    simp [takeBytes]
  have hleNat : leNat [version] = version.toNat := by simp [leNat]
  rw [readShuffleHeader, hfirst, ok_bind]
  dsimp only
  rw [hleNat, hversion, ok_bind, takeBytes_u16le, ok_bind]
  rw [takeBytes_u16le, ok_bind]
  rw [hcontext, ok_bind, leNat_u16le hn, leNat_u16le hrounds, rejectIf_bind (by simp),
    rejectIf_bind (by omega), rejectIf_bind (by omega)]
  rfl

theorem readShuffleHeader_write {n rounds : Nat} {header : Bytes} (hcards : 2 ≤ n)
    (hn : n ≤ 65535) (hpos : 0 < rounds) (hrounds : rounds ≤ 65535)
    (hok : shuffleHeader n rounds context = .ok header) (rd : Bytes) :
    readShuffleHeader n (header ++ rd) context = .ok (rounds, rd) := by
  cases context with
  | none =>
    cases hok
    have hparts := @readShuffleHeader_of_parts none n rounds 1 [] rd hcards hn hpos hrounds rfl rfl
    rwa [List.append_nil] at hparts
  | some ctx =>
    simp only [shuffleHeader, ok_iff] at hok
    obtain ⟨-, hne, -, hlength, rfl⟩ := hok
    have hcontext : readContext (some ctx) (u16le ctx.length ++ ctx ++ rd) = .ok rd := by
      rw [readContext, List.append_assoc, takeBytes_u16le, ok_bind]
      dsimp only
      rw [leNat_u16le (by omega), takeBytes_append rfl, ok_bind]
      rw [rejectIf_bind (by simp)]
      rfl
    have hversion : checkVersion (2 : UInt8).toNat (some ctx) = .ok () := by
      cases ctx with
      | nil => exact absurd rfl hne
      | cons b rest => rfl
    have hparts := readShuffleHeader_of_parts hcards hn hpos hrounds hversion hcontext
    rwa [← List.append_assoc] at hparts

theorem swapEntries_perm {i j : Nat} (hi : i < perm.length) (hj : j < perm.length) :
    (swapEntries perm i j).Perm perm := by
  rw [swapEntries, List.getD_eq_getElem _ _ hi, List.getD_eq_getElem _ _ hj]
  exact List.set_set_perm hi hj

theorem drawSwaps_perm {perm out : List Nat} (hi : i < perm.length)
    (hok : drawSwaps rng i perm st = .ok (out, st')) : out.Perm perm := by
  induction i generalizing perm st with
  | zero =>
    cases hok
    exact .refl _
  | succ i ih =>
    simp only [drawSwaps, ok_iff] at hok
    obtain ⟨⟨b, st₁⟩, -, hok⟩ := hok
    have hj : leNat b % (i + 2) < i + 2 := Nat.mod_lt _ (by omega)
    have hswap := swapEntries_perm hi (hj.trans_le hi)
    exact (ih (by rw [hswap.length_eq]; omega) hok).trans hswap

theorem randomPermutation_perm (hn : 0 < n) (hok : randomPermutation rng n st = .ok (perm, st')) :
    perm.Perm (List.range n) :=
  drawSwaps_perm (by rw [List.length_range]; omega) hok

/-- What a prover that returns has done: `items` carries the drawn permutation as keys,
`last` is what the rounds have made of it. -/
structure Proved (pk : S.Point) (deckIn : List S.ElGamalCiphertext) (rounds : Nat)
    (context : Option Bytes) (result : ShuffleProveResult S)
    (items last : List S.ShuffleItem) (header proofs : Bytes) : Prop where
  cards : 2 ≤ deckIn.length
  wrote : shuffleHeader deckIn.length rounds context = .ok header
  perm : result.perm.Perm (List.range deckIn.length)
  cts : items.map ShuffleItem.ct = deckIn
  keys : items.map ShuffleItem.key = result.perm
  rounds : RoundsProved pk context rounds 0 items last proofs
  deckOut : result.deckOut = last.map ShuffleItem.ct
  proofBytes : result.proofBytes = header ++ proofs

theorem shuffleProve_spec {st : rng.State}
    (hok : shuffleProve rng limit pk deckIn optRounds context st = .ok result) :
    ∃ items last header proofs,
      Proved pk deckIn (if optRounds = 0 then deckIn.length else optRounds) context result
        items last header proofs := by
  simp only [shuffleProve, ok_iff] at hok
  obtain ⟨-, hcards, header, hheader, ⟨perm, st₁⟩, hperm, ⟨⟨last, proofs⟩, st₂⟩, hproofs,
    rfl⟩ := hok
  dsimp only at hproofs
  have hperm := randomPermutation_perm (by omega) hperm
  have hlength : perm.length = deckIn.length := by rw [hperm.length_eq, List.length_range]
  have hitems : (deckIn.zipWith ShuffleItem.mk perm).length = deckIn.length := by
    rw [List.length_zipWith, hlength, min_self]
  refine ⟨_, last, header, proofs, by omega, hheader, hperm, ?_, ?_,
    proveRounds_spec (by omega) hproofs, rfl, rfl⟩
  · exact List.ext_getElem (by simp [hlength]) (by simp)
  · exact List.ext_getElem (by simp [hlength]) (by simp)

theorem shuffleProve_verifies {st : rng.State} (hn : deckIn.length ≤ 65535)
    (hrounds : optRounds ≤ 65535)
    (hok : shuffleProve rng limit pk deckIn optRounds context st = .ok result) :
    shuffleVerifyV1 pk deckIn result.proofBytes context = .ok result.deckOut := by
  obtain ⟨items, last, header, proofs, hproved⟩ := shuffleProve_spec hok
  have hcards := hproved.cards
  have hlength : items.length = deckIn.length := by rw [← hproved.cts, List.length_map]
  have hheader := readShuffleHeader_write hcards hn (by split <;> omega) (by split <;> omega)
    hproved.wrote proofs
  have hverified := hproved.rounds.verified []
  rw [List.append_nil, hlength, hproved.cts] at hverified
  rw [shuffleVerifyV1, hproved.proofBytes, hheader, ok_bind]
  dsimp only
  rw [hverified, ok_bind, hproved.deckOut]
  rfl

theorem shuffleProve_permutes {st : rng.State} (hrounds : optRounds = 0 ∨ deckIn.length ≤ optRounds)
    (hok : shuffleProve rng limit pk deckIn optRounds context st = .ok result) {i k : Nat}
    {ct : S.ElGamalCiphertext} (hk : result.perm[i]? = some k) (hct : deckIn[i]? = some ct) :
    ∃ rho, result.deckOut[k]? = some (elgamalReencrypt pk ct rho) := by
  obtain ⟨items, last, header, proofs, hproved⟩ := shuffleProve_spec hok
  have hcount : result.perm.length ≤ if optRounds = 0 then deckIn.length else optRounds := by
    rw [hproved.perm.length_eq, List.length_range]
    split <;> omega
  have hlast : last.map ShuffleItem.key = List.range deckIn.length := by
    rw [hproved.rounds.keys, hproved.keys]
    refine List.Perm.eq_of_pairwise (fun _ _ _ _ => le_antisymm)
      (oddEvenRounds_sorted hcount) (List.pairwise_lt_range.imp Nat.le_of_lt) ?_
    exact (oddEvenRounds_perm _ _ _).trans hproved.perm
  have hkn : k < deckIn.length := by simpa using hproved.perm.mem_iff.mp (List.mem_of_getElem? hk)
  obtain ⟨item', hitem', hkey'⟩ : ∃ item', last[k]? = some item' ∧ item'.key = k := by
    have hget : (last.map ShuffleItem.key)[k]? = some k := by rw [hlast, List.getElem?_range hkn]
    simpa using hget
  obtain ⟨item, hitem, hkey, rho, hc1, hc2⟩ :=
    hproved.rounds.tracks item' (List.mem_of_getElem? hitem')
  -- The key occurs once in the permutation, at position `i`.
  obtain ⟨i', hi'⟩ := List.mem_iff_getElem?.mp hitem
  have hsame : i' = i := by
    have hnodup : result.perm.Nodup := hproved.perm.nodup_iff.mpr List.nodup_range
    have hfirst : result.perm[i']? = some k := by
      rw [← hproved.keys, List.getElem?_map, hi', Option.map_some, hkey, hkey']
    exact (List.getElem?_inj (List.getElem?_eq_some_iff.mp hfirst).1 hnodup).mp
      (hfirst.trans hk.symm)
  have hctItem : item.ct = ct := by
    have hfirst : deckIn[i]? = some item.ct := by
      rw [← hproved.cts, List.getElem?_map, ← hsame, hi', Option.map_some]
    exact Option.some.inj (hfirst.symm.trans hct)
  refine ⟨rho, ?_⟩
  rw [hproved.deckOut, List.getElem?_map, hitem', Option.map_some, ← hctItem]
  exact congrArg some (congrArg₂ Ciphertext.mk hc1 hc2)

end Proof

end OnChainPoker.Crypto.Suite
