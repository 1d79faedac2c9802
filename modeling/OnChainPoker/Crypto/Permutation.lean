import OnChainPoker.Crypto.ShuffleComplete

/-!
# Shuffles permute the deck

An accepted proof whose inner statements hold is a permutation of the deck with every
card re-encrypted: each position of each round is under one checked statement. The
prover in turn reaches every permutation.
-/

namespace OnChainPoker.Crypto.Suite

open Foundation

variable {S : Suite} {cur next : List S.ElGamalCiphertext} {rd rd' : Bytes} {perm wanted : List Nat}

/-! ## Every position is checked -/

def PositionChecked (pk : S.Point) (context : Option Bytes) (round : Nat)
    (cur next : List S.ElGamalCiphertext) (j : Nat) : Prop :=
  (∃ i in0 in1 out0 out1 sp, i % 2 = round % 2 ∧ (j = i ∨ j = i + 1) ∧
    cur[i]? = some in0 ∧ cur[i + 1]? = some in1 ∧
    next[i]? = some out0 ∧ next[i + 1]? = some out1 ∧
    verifySwitch pk in0 in1 out0 out1 sp context = .ok true) ∨
  ∃ inCt outCt p, cur[j]? = some inCt ∧ next[j]? = some outCt ∧
    verifyEqDlog domainReencEqDlog S.base pk (outCt.c1 - inCt.c1) (outCt.c2 - inCt.c2) p
      context = .ok true

def RoundsChecked (pk : S.Point) (context : Option Bytes) (n : Nat) :
    (left round : Nat) → List S.ElGamalCiphertext → Bytes → Prop
  | 0, _, _, _ => True
  | left + 1, round, cur, rd =>
    ∃ next rd', verifyRound pk context n round cur rd = .ok (next, rd') ∧
      (∀ j < n, PositionChecked pk context round cur next j) ∧
      RoundsChecked pk context n left (round + 1) next rd'

section Checked

variable {pk : S.Point} {context : Option Bytes} {round : Nat}

theorem verifyPairs_checked :
    (cur next : List S.ElGamalCiphertext) → {i : Nat} → {rd rd' : Bytes} →
      cur.length = next.length →
      verifyPairs pk context round i cur next rd = .ok rd' →
      ∀ k, k % 2 = 0 → k + 1 < cur.length → ∃ in0 in1 out0 out1 sp,
        cur[k]? = some in0 ∧ cur[k + 1]? = some in1 ∧
        next[k]? = some out0 ∧ next[k + 1]? = some out1 ∧
        verifySwitch pk in0 in1 out0 out1 sp context = .ok true
  | [], _, _, _, _, _, _, _, _, hlt => absurd hlt (by simp)
  | [_], _, _, _, _, _, _, _, _, hlt => absurd hlt (by simp)
  | in0 :: in1 :: cur, out0 :: out1 :: next, i, rd, rd', hlength, hok, k, heven, hlt => by
      simp only [verifyPairs, ok_iff, Bool.not_eq_false] at hok
      obtain ⟨⟨sp, rd₁⟩, -, ok, hswitch, -, rfl, hrest⟩ := hok
      rcases k with _ | _ | k
      · exact ⟨in0, in1, out0, out1, sp, rfl, rfl, rfl, rfl, hswitch⟩
      · cases heven
      · have hlater := verifyPairs_checked cur next (by simpa using hlength) hrest k
          (by omega) (by simp only [List.length_cons] at hlt; omega)
        simpa using hlater

theorem verifySingle_checked {idx : Nat} (hcur : idx < cur.length) (hnext : idx < next.length)
    (hok : verifySingle pk context round cur next rd idx = .ok rd') :
    PositionChecked pk context round cur next idx := by
  simp only [verifySingle, List.getElem?_eq_getElem hcur,
    List.getElem?_eq_getElem hnext, ok_iff, Bool.not_eq_false] at hok
  obtain ⟨⟨p, rd₁⟩, -, -, -, ok, hverify, -, rfl, -⟩ := hok
  exact Or.inr ⟨_, _, p, List.getElem?_eq_getElem hcur, List.getElem?_eq_getElem hnext, hverify⟩

theorem verifySingles_checked {singles : List Nat}
    (hsingles : ∀ idx ∈ singles, idx < cur.length ∧ idx < next.length)
    (hok : singles.foldlM (verifySingle pk context round cur next) rd = .ok rd') :
    ∀ idx ∈ singles, PositionChecked pk context round cur next idx := by
  induction singles generalizing rd with
  | nil => simp
  | cons first rest ih =>
    simp only [List.foldlM_cons, ok_iff] at hok
    obtain ⟨middle, hfirst, hrest⟩ := hok
    intro idx hidx
    rcases List.mem_cons.mp hidx with rfl | hidx
    · obtain ⟨hcur, hnext⟩ := hsingles idx (by simp)
      exact verifySingle_checked hcur hnext hfirst
    · exact ih (fun j hj => hsingles j (by simp [hj])) hrest idx hidx

theorem verifyRound_checked {n : Nat} (hcards : 2 ≤ n) (hcur : cur.length = n)
    (hok : verifyRound pk context n round cur rd = .ok (next, rd')) :
    ∀ j < n, PositionChecked pk context round cur next j := by
  have hnext := verifyRound_length hok
  simp only [verifyRound, ok_iff, Prod.mk.injEq] at hok
  obtain ⟨_, -, deck, -, rd₂, hpairs, rd₃, hsingles, hdeck, -⟩ := hok
  rw [hdeck] at hpairs hsingles
  have hstart : round % 2 < 2 := Nat.mod_lt _ (by omega)
  have hpair : ∀ i, startsPair n (round % 2) i = true → ∀ j, j = i ∨ j = i + 1 →
      PositionChecked pk context round cur next j := by
    intro i hi j hj
    obtain ⟨hle, heven, hlt⟩ := of_decide_eq_true hi
    obtain ⟨in0, in1, out0, out1, sp, hin0, hin1, hout0, hout1, hswitch⟩ :=
      verifyPairs_checked _ _ (by simp [hcur, hnext]) hpairs (i - round % 2) heven
        (by rw [List.length_drop]; omega)
    have hi' : round % 2 + (i - round % 2) = i := by omega
    rw [List.getElem?_drop, ← Nat.add_assoc, hi'] at hin1 hout1
    rw [List.getElem?_drop, hi'] at hin0 hout0
    exact Or.inl ⟨i, in0, in1, out0, out1, sp, by omega, hj, hin0, hin1, hout0, hout1, hswitch⟩
  rw [← unpaired_eq_roundSingles hcards hstart] at hsingles
  have hchecked := verifySingles_checked (fun idx hidx => by
    rw [hcur, hnext, and_self]
    exact List.mem_range.mp (List.mem_filter.mp hidx).1) hsingles
  intro j hj
  by_cases hsingle : j ∈ unpaired n (round % 2)
  · exact hchecked j hsingle
  · simp only [unpaired, List.mem_filter, List.mem_range, hj, true_and, Bool.not_eq_true',
      Bool.not_eq_false, Bool.or_eq_true, Bool.and_eq_true, decide_eq_true_eq] at hsingle
    rcases hsingle with hleft | ⟨hpos, hright⟩
    · exact hpair j hleft j (Or.inl rfl)
    · exact hpair (j - 1) hright j (Or.inr (by omega))

theorem verifyRounds_checked {n left : Nat} {cur out : List S.ElGamalCiphertext} (hcards : 2 ≤ n)
    (hcur : cur.length = n) (hok : verifyRounds pk context n left round cur rd = .ok (out, rd')) :
    RoundsChecked pk context n left round cur rd := by
  induction left generalizing round cur rd with
  | zero => trivial
  | succ left ih =>
    simp only [verifyRounds, ok_iff] at hok
    obtain ⟨⟨next, rd₁⟩, hround, hrest⟩ := hok
    exact ⟨next, rd₁, hround, verifyRound_checked hcards hcur hround,
      ih (verifyRound_length hround) hrest⟩

end Checked

/-! ## Every permutation is drawn -/

variable (S) in
abbrev tapeRng : S.ScalarRng where
  State := List S.Scalar × List Bytes
  nextScalar := fun
    | (s :: scalars, chunks) => .ok (s, (scalars, chunks))
    | ([], _) => .error "tape: no scalar left"
  nextBytes := fun _ => fun
    | (scalars, b :: chunks) => .ok (b, (scalars, chunks))
    | (_, []) => .error "tape: no bytes left"

section Tape

theorem swapEntries_drop {i j : Nat} (hi : i < perm.length) (hj : j ≤ i) :
    (swapEntries perm i j).drop i = perm.getD j 0 :: perm.drop (i + 1) := by
  refine List.ext_getElem? fun k => ?_
  rw [List.getElem?_drop, swapEntries, List.getElem?_set, List.getElem?_set, List.length_set]
  cases k with
  | zero =>
    rw [Nat.add_zero, List.getElem?_cons_zero, if_pos rfl, if_pos hi]
    split
    · rename_i heq
      rw [if_pos (by omega), heq]
    · rfl
  | succ k =>
    rw [if_neg (by omega), if_neg (by omega), List.getElem?_cons_succ, List.getElem?_drop]
    congr 1
    omega

theorem take_perm_take {m : Nat} (hperm : perm.Perm wanted)
    (hdone : perm.drop m = wanted.drop m) : (perm.take m).Perm (wanted.take m) := by
  rw [← List.take_append_drop m perm, ← List.take_append_drop m wanted, hdone] at hperm
  exact (List.perm_append_right_iff _).mp hperm

theorem drawSwaps_tape {m : Nat} (hm : m < perm.length) (hsize : perm.length ≤ 2 ^ 32)
    (hperm : perm.Perm wanted) (hdone : perm.drop (m + 1) = wanted.drop (m + 1))
    (scalars : List S.Scalar) :
    ∃ chunks, ∀ rest, drawSwaps S.tapeRng m perm (scalars, chunks ++ rest) =
      .ok (wanted, (scalars, rest)) := by
  have hlength := hperm.length_eq
  have htakes := take_perm_take hperm hdone
  induction m generalizing perm with
  | zero =>
    obtain ⟨a, ha⟩ : ∃ a, perm.take 1 = [a] := List.length_eq_one_iff.mp (by simp; omega)
    rw [ha, List.singleton_perm] at htakes
    have hsame : perm = wanted := by
      rw [← List.take_append_drop 1 perm, ← List.take_append_drop 1 wanted, ha, htakes, hdone]
    exact ⟨[], fun rest => by rw [hsame]; rfl⟩
  | succ m ih =>
    have hwanted : m + 1 < wanted.length := by omega
    have hmem : wanted[m + 1] ∈ perm.take (m + 2) :=
      htakes.mem_iff.mpr (List.mem_take_iff_getElem.mpr ⟨m + 1, by omega, rfl⟩)
    obtain ⟨j, hj, hvalue⟩ := List.mem_take_iff_getElem.mp hmem
    have hjm : j ≤ m + 1 := by omega
    have hswap := swapEntries_perm hm (show j < perm.length by omega)
    have hdrop : (swapEntries perm (m + 1) j).drop (m + 1) = wanted.drop (m + 1) := by
      rw [swapEntries_drop hm hjm, List.getD_eq_getElem _ _ (by omega), hvalue, hdone,
        List.drop_eq_getElem_cons hwanted]
    have hlength' := hswap.length_eq
    obtain ⟨chunks, hdraw⟩ := ih (by omega) (by omega) (hswap.trans hperm) hdrop (by omega)
      (take_perm_take (hswap.trans hperm) hdrop)
    refine ⟨leBytes 4 j :: chunks, fun rest => ?_⟩
    have hdrawn : leNat (leBytes 4 j) % (m + 2) = j := by
      rw [leNat_leBytes (by omega), Nat.mod_eq_of_lt (by omega)]
    have hnext := hdraw rest
    rw [← hdrawn] at hnext
    exact hnext

variable (pk : S.Point) (context : Option Bytes)

/-- The computation returns on some tape, reading no bytes and leaving what follows. -/
def Returns {α : Type} (draw : S.tapeRng.State → Except String (α × S.tapeRng.State)) :
    Prop :=
  ∃ (scalars : List S.Scalar) (a : α), ∀ (rest : List S.Scalar) (chunks : List Bytes),
    draw (scalars ++ rest, chunks) = .ok (a, (rest, chunks))

theorem pointsChallenge_ok (t : Transcript) (points : List (String × S.Point)) :
    ∃ e, S.pointsChallenge t points = .ok e := by
  simp only [pointsChallenge, challengeScalar, scalarFromUniformBytes,
    rejectIf_bind (not_not.mpr (S.sha512_length _))]
  exact ⟨_, rfl⟩

theorem returns_proveEqDlog (domain : String) (A B X Y : S.Point) (x : S.Scalar) :
    Returns (proveEqDlog S.tapeRng domain A B X Y x context) := by
  obtain ⟨e, he⟩ := pointsChallenge_ok (contextTranscript domain context)
    [("A", A), ("B", B), ("X", X), ("Y", Y), ("t1", (0 : S.Scalar) • A), ("t2", (0 : S.Scalar) • B)]
  refine ⟨[0], ⟨(0 : S.Scalar) • A, (0 : S.Scalar) • B, 0 + e * x⟩, fun rest chunks => ?_⟩
  simp only [proveEqDlog, List.cons_append, List.nil_append, ok_bind, he]
  rfl

theorem returns_proveSwitch (in0 in1 out0 out1 : S.ElGamalCiphertext) (swapped : Bool)
    (rho0 rho1 : S.Scalar) :
    Returns (proveSwitch S.tapeRng pk in0 in1 out0 out1 swapped rho0 rho1 context) := by
  have hchallenge : ∀ proof, ∃ e, switchChallenge pk in0 in1 out0 out1 proof context = .ok e :=
    fun proof => pointsChallenge_ok _ _
  cases swapped with
  | true =>
    obtain ⟨e, he⟩ := hchallenge ⟨0, simulateEqDlog pk in0 out0 0 0,
      simulateEqDlog pk in1 out1 0 0, commitNonce pk 0, commitNonce pk 0⟩
    refine ⟨[0, 0, 0, 0, 0], ⟨0, simulateEqDlog pk in0 out0 0 0,
      simulateEqDlog pk in1 out1 0 0, (commitNonce pk 0).respond (0 + (e - 0) * rho0),
      (commitNonce pk 0).respond (0 + (e - 0) * rho1)⟩, fun rest chunks => ?_⟩
    simp only [proveSwitch, List.cons_append, List.nil_append, ok_bind, if_true, he]
    rfl
  | false =>
    obtain ⟨e, he⟩ := hchallenge ⟨0, commitNonce pk 0, commitNonce pk 0,
      simulateEqDlog pk in1 out0 0 0, simulateEqDlog pk in0 out1 0 0⟩
    refine ⟨[0, 0, 0, 0, 0], ⟨e - 0, (commitNonce pk 0).respond (0 + (e - 0) * rho0),
      (commitNonce pk 0).respond (0 + (e - 0) * rho1), simulateEqDlog pk in1 out0 0 0,
      simulateEqDlog pk in0 out1 0 0⟩, fun rest chunks => ?_⟩
    simp only [proveSwitch, List.cons_append, List.nil_append, ok_bind,
      Bool.false_eq_true, if_false, he]
    rfl

theorem returns_sampleNonzeroScalar {s : S.Scalar} (hs : s ≠ 0) (rest : List S.Scalar)
    (chunks : List Bytes) :
    sampleNonzeroScalar S.tapeRng 1 (s :: rest, chunks) = .ok (s, (rest, chunks)) :=
  if_neg hs

theorem returns_reencrypt (horder : 2 < S.order) {left right src : S.ElGamalCiphertext}
    (hsrc : src = left ∨ src = right) :
    Returns (reencryptAvoidingC1Collisions S.tapeRng 1 pk src [left.c1, right.c1] 1) := by
  obtain ⟨toLeft, hleft⟩ := S.exists_log (left.c1 - src.c1)
  obtain ⟨toRight, hright⟩ := S.exists_log (right.c1 - src.c1)
  obtain ⟨rho, -, hrho⟩ : ∃ rho ∈ (Finset.univ : Finset S.Scalar),
      rho ∉ ({toLeft, toRight} : Finset S.Scalar) := by
    refine Finset.exists_mem_notMem_of_card_lt_card ?_
    rw [Finset.card_univ, ZMod.card]
    exact Finset.card_le_two.trans_lt horder
  rw [Finset.mem_insert, Finset.mem_singleton, not_or] at hrho
  have hbase : ∀ {x y : S.Scalar}, x • S.base = y • S.base → x = y := fun heq =>
    smul_left_injective S.Scalar S.base_ne_zero heq
  have hzero : rho ≠ 0 := by
    rintro rfl
    rcases hsrc with rfl | rfl
    · exact hrho.1 (hbase (by rw [hleft, zero_smul, sub_self]))
    · exact hrho.2 (hbase (by rw [hright, zero_smul, sub_self]))
  have havoid : (elgamalReencrypt pk src rho).c1 ∉ [left.c1, right.c1] := by
    simp only [elgamalReencrypt, mulBase, List.mem_cons, List.not_mem_nil, or_false, not_or]
    refine ⟨fun heq => hrho.1 (hbase ?_), fun heq => hrho.2 (hbase ?_)⟩
    · rw [hleft, ← heq, add_sub_cancel_left]
    · rw [hright, ← heq, add_sub_cancel_left]
  refine ⟨[rho], (elgamalReencrypt pk src rho, rho), fun rest chunks => ?_⟩
  simp only [reencryptAvoidingC1Collisions, List.cons_append, List.nil_append,
    returns_sampleNonzeroScalar hzero, ok_bind, if_neg havoid]
  rfl

theorem returns_provePairs (horder : 2 < S.order) :
    (items : List S.ShuffleItem) → Returns (provePairs S.tapeRng 1 pk context items)
  | [] => ⟨[], ([], []), fun _ _ => rfl⟩
  | [item] => ⟨[], ([item], []), fun _ _ => rfl⟩
  | left :: right :: rest => by
      have hsrc : ∀ swap : Bool, ∀ {first second : S.ShuffleItem},
          (if swap then first else second).ct = second.ct ∨
            (if swap then first else second).ct = first.ct := by
        intro swap
        cases swap <;> simp
      obtain ⟨scalars₀, ⟨out0, rho0⟩, h0⟩ := returns_reencrypt pk horder
        (@hsrc (decide (left.key > right.key)) right left)
      obtain ⟨scalars₁, ⟨out1, rho1⟩, h1⟩ := returns_reencrypt pk horder
        (@hsrc (decide (left.key > right.key)) left right).symm
      obtain ⟨scalars₂, sp, h2⟩ := returns_proveSwitch pk context left.ct right.ct out0
        out1 (decide (left.key > right.key)) rho0 rho1
      obtain ⟨scalars₃, ⟨next, proofs⟩, h3⟩ := returns_provePairs horder rest
      refine ⟨scalars₀ ++ (scalars₁ ++ (scalars₂ ++ scalars₃)), (⟨out0, (if decide (left.key >
        right.key) then right else left).key⟩ :: ⟨out1, (if decide (left.key > right.key) then left
        else right).key⟩ :: next, encodeSwitchProof sp ++ proofs), fun others chunks => ?_⟩
      simp only [provePairs, List.append_assoc, h0, h1, h2, h3, ok_bind]
      rfl

theorem returns_proveSingle (items next : List S.ShuffleItem) (proofs : Bytes) (idx : Nat) :
    Returns fun st => proveSingle S.tapeRng 1 pk context items ((next, proofs), st) idx := by
  cases hitem : items[idx]? with
  | none => exact ⟨[], (next, proofs), fun _ _ => by simp only [proveSingle, hitem]; rfl⟩
  | some item =>
    obtain ⟨scalars, p, hp⟩ := returns_proveEqDlog context domainReencEqDlog S.base pk
      ((elgamalReencrypt pk item.ct 1).c1 - item.ct.c1)
      ((elgamalReencrypt pk item.ct 1).c2 - item.ct.c2) 1
    refine ⟨1 :: scalars, (next.modify idx fun entry =>
      { entry with ct := elgamalReencrypt pk item.ct 1 }, proofs ++ encodeEqDlogProof p),
      fun rest chunks => ?_⟩
    simp only [proveSingle, hitem, List.cons_append, ok_bind, hp,
      returns_sampleNonzeroScalar one_ne_zero]
    rfl

theorem returns_proveSingles (items : List S.ShuffleItem) (singles : List Nat)
    (next : List S.ShuffleItem) (proofs : Bytes) :
    Returns fun st => singles.foldlM (proveSingle S.tapeRng 1 pk context items)
      ((next, proofs), st) := by
  induction singles generalizing next proofs with
  | nil => exact ⟨[], (next, proofs), fun _ _ => rfl⟩
  | cons idx singles ih =>
    obtain ⟨scalars, ⟨middle, more⟩, hone⟩ :=
      returns_proveSingle pk context items next proofs idx
    obtain ⟨scalars', out, hrest⟩ := ih middle more
    refine ⟨scalars ++ scalars', out, fun rest chunks => ?_⟩
    simp only [List.foldlM_cons, List.append_assoc, hone, ok_bind, hrest]

theorem returns_proveRounds (horder : 2 < S.order) (left round : Nat) (items : List S.ShuffleItem) :
    Returns (proveRounds S.tapeRng 1 pk context left round items) := by
  induction left generalizing round items with
  | zero => exact ⟨[], (items, []), fun _ _ => rfl⟩
  | succ left ih =>
    obtain ⟨scalars, ⟨paired, switchProofs⟩, hpairs⟩ :=
      returns_provePairs pk context horder (items.drop (round % 2))
    obtain ⟨scalars', ⟨next, singleProofs⟩, hsingles⟩ :=
      returns_proveSingles pk context items
        (unpaired items.length (round % 2)) (items.take (round % 2) ++ paired) []
    obtain ⟨scalars'', ⟨last, proofs⟩, hrest⟩ := ih (round + 1) next
    refine ⟨scalars ++ (scalars' ++ scalars''), (last, (next.flatMap fun item => encodeCiphertext
      item.ct) ++ switchProofs ++ singleProofs ++ proofs), fun rest chunks => ?_⟩
    simp only [proveRounds, proveRound, List.append_assoc, hpairs, hsingles, ok_bind,
      pure_bind, hrest]
    rfl

theorem shuffleProve_draws (horder : 2 < S.order) {deckIn : List S.ElGamalCiphertext}
    (hcards : 2 ≤ deckIn.length) (hn : deckIn.length ≤ 65535) (optRounds : Nat)
    (hcontext : ∀ ctx ∈ context, ctx ≠ [] ∧ ctx.length ≤ 65535)
    (hwanted : wanted.Perm (List.range deckIn.length)) :
    ∃ st result, shuffleProve S.tapeRng 1 pk deckIn optRounds context st = .ok result ∧
      result.perm = wanted := by
  obtain ⟨header, hheader⟩ : ∃ header, shuffleHeader deckIn.length
      (if optRounds = 0 then deckIn.length else optRounds) context = .ok header := by
    cases context with
    | none => exact ⟨_, rfl⟩
    | some ctx =>
      obtain ⟨hne, hlength⟩ := hcontext ctx rfl
      rw [shuffleHeader, rejectIf_bind hne, rejectIf_bind (by omega)]
      exact ⟨_, rfl⟩
  obtain ⟨scalars, ⟨last, proofs⟩, hrounds⟩ := returns_proveRounds pk context horder
    (if optRounds = 0 then deckIn.length else optRounds) 0
    (deckIn.zipWith ShuffleItem.mk wanted)
  have hdone : (List.range deckIn.length).drop (deckIn.length - 1 + 1) =
      wanted.drop (deckIn.length - 1 + 1) := by
    rw [List.drop_eq_nil_of_le (by simp; omega),
      List.drop_eq_nil_of_le (by rw [hwanted.length_eq, List.length_range]; omega)]
  obtain ⟨chunks, hdraw⟩ := drawSwaps_tape (by rw [List.length_range]; omega)
    (by rw [List.length_range]; omega) hwanted.symm hdone scalars
  have hdraw := hdraw []
  have hrounds := hrounds [] []
  rw [List.append_nil] at hdraw hrounds
  refine ⟨(scalars, chunks), ⟨last.map ShuffleItem.ct, header ++ proofs, wanted⟩, ?_, rfl⟩
  rw [shuffleProve]
  dsimp only
  rw [rejectIf_bind (by omega), hheader, ok_bind, randomPermutation, hdraw, ok_bind]
  rw [hrounds]
  rfl

end Tape

/-! ## The prover -/

/-- The verifier accepts the returned proof with the same deck; with as many rounds as
cards, the card at position `i` of the deck ends re-encrypted at position `perm[i]`. -/
def Completes (pk : S.Point) (deckIn : List S.ElGamalCiphertext) (rounds : Nat)
    (context : Option Bytes) (result : ShuffleProveResult S) : Prop :=
  shuffleVerifyV1 pk deckIn result.proofBytes context = .ok result.deckOut ∧
  result.perm.Perm (List.range deckIn.length) ∧
  (deckIn.length ≤ rounds → ∀ (i k : Nat) ct, result.perm[i]? = some k → deckIn[i]? = some ct →
    ∃ rho, result.deckOut[k]? = some (elgamalReencrypt pk ct rho))

theorem shuffleProve_completes {rng : S.ScalarRng} {limit : Nat} {pk : S.Point}
    {context : Option Bytes} {deckIn : List S.ElGamalCiphertext} {rounds : Nat} {st : rng.State}
    {result : ShuffleProveResult S} (hn : deckIn.length ≤ 65535) (hrounds : rounds ≤ 65535)
    (hok : shuffleProve rng limit pk deckIn rounds context st = .ok result) :
    Completes pk deckIn rounds context result := by
  obtain ⟨items, last, header, proofs, hproved⟩ := shuffleProve_spec hok
  exact ⟨shuffleProve_verifies hn hrounds hok, hproved.perm,
    fun henough _ _ _ hk hct => shuffleProve_permutes (Or.inr henough) hok hk hct⟩

/-- A shuffle proof that is returned is accepted with the same deck, whatever the random
stream; enough rounds realise the drawn permutation; and every permutation is drawn on
some stream, in a group of more than two elements. -/
theorem shuffle_complete (pk : S.Point) (deckIn : List S.ElGamalCiphertext)
    (hcards : 2 ≤ deckIn.length) (hn : deckIn.length ≤ 65535) (rounds : Nat)
    (hrounds : 1 ≤ rounds ∧ rounds ≤ 65535) (context : Bytes)
    (hcontext : context ≠ [] ∧ context.length ≤ 65535) :
    (∀ limit seed fresh result,
      shuffleProveV1 limit pk deckIn seed fresh rounds (some context) = .ok result →
      Completes pk deckIn rounds (some context) result) ∧
    (∀ (rng : S.ScalarRng) limit st result,
      shuffleProve rng limit pk deckIn rounds (some context) st = .ok result →
      Completes pk deckIn rounds (some context) result) ∧
    (2 < S.order → ∀ wanted : List Nat, wanted.Perm (List.range deckIn.length) →
      ∃ (rng : S.ScalarRng) (limit : Nat) (st : rng.State) (result : ShuffleProveResult S),
        shuffleProve rng limit pk deckIn rounds (some context) st = .ok result ∧
        result.perm = wanted) := by
  refine ⟨fun limit seed fresh result hok => shuffleProve_completes hn hrounds.2 hok,
    fun rng limit st result hok => shuffleProve_completes hn hrounds.2 hok,
    fun horder wanted hwanted => ?_⟩
  obtain ⟨st, result, hok, hperm⟩ := shuffleProve_draws pk (some context) horder hcards hn
    rounds (fun ctx hctx => Option.some.inj hctx ▸ hcontext) hwanted
  exact ⟨S.tapeRng, 1, st, result, hok, hperm⟩

/-! ## Accepted proofs -/

/-- When `ShuffleVerifyV1` accepts a proof, each position of each round is under a
statement it has verified; when all those statements hold, the returned deck is a
permutation of the given one with every card re-encrypted. -/
theorem shuffleVerifyV1_permutes {pk : S.Point}
    {deckIn deckOut : List S.ElGamalCiphertext} {proofBytes : Bytes}
    {context : Option Bytes}
    (hok : shuffleVerifyV1 pk deckIn proofBytes context = .ok deckOut) :
    (∃ rounds rd, readShuffleHeader deckIn.length proofBytes context = .ok (rounds, rd) ∧
      RoundsChecked pk context deckIn.length rounds 0 deckIn rd) ∧
    (ShuffleTrue pk deckIn proofBytes context →
      ∃ (hlength : deckIn.length = deckOut.length)
        (order : Equiv.Perm (Fin deckIn.length)) (rho : Fin deckIn.length → S.Scalar),
        ∀ j, deckOut.get (j.cast hlength) =
          elgamalReencrypt pk (deckIn.get (order j)) (rho j)) := by
  constructor
  · simp only [shuffleVerifyV1, ok_iff] at hok
    obtain ⟨⟨rounds, rd⟩, hheader, ⟨out, rd'⟩, hrounds, -⟩ := hok
    exact ⟨rounds, rd, hheader,
      verifyRounds_checked (readShuffleHeader_size hheader) rfl hrounds⟩
  · intro htrue
    have hshuffle := shuffleVerifyV1_shuffles hok htrue
    obtain ⟨order, hre⟩ := hshuffle.exists_perm
    choose rho hc1 hc2 using hre
    exact ⟨hshuffle.length_eq.symm, order, rho, fun j =>
      congrArg₂ Ciphertext.mk (hc1 j) (hc2 j)⟩

end OnChainPoker.Crypto.Suite

namespace OnChainPoker.Crypto

open Foundation Suite

def spacedDeck : List residueSuite.ElGamalCiphertext :=
  [⟨(0 : ZMod 53), (5 : ZMod 53)⟩, ⟨(10 : ZMod 53), (7 : ZMod 53)⟩,
    ⟨(20 : ZMod 53), (9 : ZMod 53)⟩]

def spacedKey : residueSuite.Point := (15 : ZMod 53)

def spacedProof : Except String (ShuffleProveResult residueSuite) :=
  shuffleProveV1 1 spacedKey spacedDeck [7] [] 3 (some [1, 2])

theorem shuffle_complete_spaced :
    ∃ result, spacedProof = .ok result ∧
      Completes spacedKey spacedDeck 3 (some [1, 2]) result := by
  obtain ⟨result, hok⟩ := isOk_iff.mp (show spacedProof.isOk = true by decide +kernel)
  exact ⟨result, hok, (shuffle_complete spacedKey spacedDeck
    (by decide) (by decide) 3 (by decide) [1, 2] (by decide)).1 1 [7] [] result hok⟩

theorem shuffleVerifyV1_permutes_spaced :
    ∃ result : ShuffleProveResult residueSuite, spacedProof = .ok result ∧
      ∃ (hlength : spacedDeck.length = result.deckOut.length)
        (order : Equiv.Perm (Fin spacedDeck.length))
        (rho : Fin spacedDeck.length → residueSuite.Scalar), ∀ j,
        result.deckOut.get (j.cast hlength) =
          elgamalReencrypt spacedKey (spacedDeck.get (order j)) (rho j) := by
  have hchecked : (match spacedProof with
      | .error _ => false
      | .ok result => decide (ShuffleTrue spacedKey spacedDeck result.proofBytes
          (some [1, 2]))) = true := by
    decide +kernel
  split at hchecked
  · cases hchecked
  · rename_i result hok
    have hverified := shuffleProve_verifies (by decide) (by decide) hok
    exact ⟨result, hok,
      (shuffleVerifyV1_permutes hverified).2 (of_decide_eq_true hchecked)⟩

end OnChainPoker.Crypto
