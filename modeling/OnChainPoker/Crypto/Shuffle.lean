import OnChainPoker.Crypto.Proofs

/-!
# The shuffle verifier of `ocpshuffle`

A proof carries one deck snapshot per round of an odd-even switch network, a
switch proof for every adjacent pair of the round and a re-encryption proof for
every card that is in no pair.  `shuffleVerifyV1` reads the proof from the front
and returns the last snapshot.

`RoundTrue` is what the proofs of a round claim.  When all of them are true, the
returned deck is a shuffle of the given one.
-/

namespace OnChainPoker.Crypto.Suite

open Foundation

variable (S : Suite) {pk : S.Point} {n round : Nat} {cur : List S.ElGamalCiphertext}
  {context : Option Bytes} {proofBytes rd : Bytes}

/-! ## Decoding -/

def decodeCiphertext (b : Bytes) : Except String S.ElGamalCiphertext := do
  rejectIf (b.length ≠ 64) "decodeCiphertext: expected 64 bytes"
  let c1 ← S.pointFromBytesCanonical (chunk b 0)
  let c2 ← S.pointFromBytesCanonical (chunk b 32)
  pure ⟨c1, c2⟩

def decodeDeck : Nat → Bytes → Except String (List S.ElGamalCiphertext)
  | 0, _ => pure []
  | n + 1, b => do
      let ct ← S.decodeCiphertext (b.take 64)
      let rest ← decodeDeck n (b.drop 64)
      pure (ct :: rest)

structure EqDlogProof where
  t1 : S.Point
  t2 : S.Point
  z : S.Scalar

def decodeEqDlogProofFromReader (rd : Bytes) :
    Except String (S.EqDlogProof × Bytes) := do
  let (t1b, rd) ← takeBytes 32 rd
  let (t2b, rd) ← takeBytes 32 rd
  let (zb, rd) ← takeBytes 32 rd
  let t1 ← S.pointFromBytesCanonical t1b
  let t2 ← S.pointFromBytesCanonical t2b
  let z ← S.scalarFromBytesCanonical zb
  pure (⟨t1, t2, z⟩, rd)

/-- A challenge split and four relations: `out0` and `out1` against `in0` and
`in1`, then against `in1` and `in0`. -/
structure SwitchProof where
  e0 : S.Scalar
  r0 : S.EqDlogProof
  r1 : S.EqDlogProof
  r2 : S.EqDlogProof
  r3 : S.EqDlogProof

def decodeSwitchProofFromReader (rd : Bytes) :
    Except String (S.SwitchProof × Bytes) := do
  let (e0b, rd) ← takeBytes 32 rd
  let e0 ← S.scalarFromBytesCanonical e0b
  let (r0, rd) ← S.decodeEqDlogProofFromReader rd
  let (r1, rd) ← S.decodeEqDlogProofFromReader rd
  let (r2, rd) ← S.decodeEqDlogProofFromReader rd
  let (r3, rd) ← S.decodeEqDlogProofFromReader rd
  pure (⟨e0, r0, r1, r2, r3⟩, rd)

/-! ## Verification -/

def domainSwitch : String := "ocp/v1/shuffle/switch-or"

def domainReencEqDlog : String := "ocp/v1/shuffle/reenc-eqdlog"

def contextTranscript (domain : String) (context : Option Bytes) : Transcript :=
  match context with
  | none => newTranscript domain
  | some ctx => (newTranscript domain).appendMessage "ctx" ctx

variable {S} {cur deckIn deckOut : List S.ElGamalCiphertext} {rd rd' : Bytes}

def verifyEqDlog (domain : String) (A B X Y : S.Point) (proof : S.EqDlogProof)
    (context : Option Bytes) : Except String Bool := do
  let e ← S.pointsChallenge (contextTranscript domain context)
    [("A", A), ("B", B), ("X", X), ("Y", Y), ("t1", proof.t1), ("t2", proof.t2)]
  pure (decide (proof.z • A = proof.t1 + e • X) &&
    decide (proof.z • B = proof.t2 + e • Y))

def switchChallenge (pk : S.Point) (in0 in1 out0 out1 : S.ElGamalCiphertext)
    (proof : S.SwitchProof) (context : Option Bytes) : Except String S.Scalar :=
  S.pointsChallenge (contextTranscript domainSwitch context)
    [("pk", pk), ("in0.c1", in0.c1), ("in0.c2", in0.c2),
      ("in1.c1", in1.c1), ("in1.c2", in1.c2),
      ("out0.c1", out0.c1), ("out0.c2", out0.c2),
      ("out1.c1", out1.c1), ("out1.c2", out1.c2),
      ("t1.0", proof.r0.t1), ("t1.1", proof.r1.t1),
      ("t1.2", proof.r2.t1), ("t1.3", proof.r3.t1),
      ("t2.0", proof.r0.t2), ("t2.1", proof.r1.t2),
      ("t2.2", proof.r2.t2), ("t2.3", proof.r3.t2)]

def relationHolds (pk : S.Point) (inCt outCt : S.ElGamalCiphertext)
    (rel : S.EqDlogProof) (e : S.Scalar) : Bool :=
  decide (rel.z • S.base = rel.t1 + e • (outCt.c1 - inCt.c1)) &&
    decide (rel.z • pk = rel.t2 + e • (outCt.c2 - inCt.c2))

def verifySwitch (pk : S.Point) (in0 in1 out0 out1 : S.ElGamalCiphertext)
    (proof : S.SwitchProof) (context : Option Bytes) : Except String Bool := do
  if out0.c1 = in0.c1 ∨ out0.c1 = in1.c1 then pure false
  else if out1.c1 = in0.c1 ∨ out1.c1 = in1.c1 then pure false
  else
    let e ← switchChallenge pk in0 in1 out0 out1 proof context
    let e1 := e - proof.e0
    pure (relationHolds pk in0 out0 proof.r0 proof.e0 &&
      relationHolds pk in1 out1 proof.r1 proof.e0 &&
      relationHolds pk in1 out0 proof.r2 e1 &&
      relationHolds pk in0 out1 proof.r3 e1)

def verifyPairs (pk : S.Point) (context : Option Bytes) (round : Nat) :
    Nat → List S.ElGamalCiphertext → List S.ElGamalCiphertext → Bytes →
      Except String Bytes
  | i, in0 :: in1 :: cur, out0 :: out1 :: next, rd => do
      let (sp, rd) ← S.decodeSwitchProofFromReader rd
      let ok ← verifySwitch pk in0 in1 out0 out1 sp context
      rejectIf (ok = false) s!"invalid switch proof at round={round} pair=({i},{i + 1})"
      verifyPairs pk context round (i + 2) cur next rd
  | _, _, _, rd => pure rd

def roundSingles (n start : Nat) : List Nat :=
  if n % 2 = 1 then [if start = 0 then n - 1 else 0]
  else if start = 1 then [0, n - 1]
  else []

/-- The re-encryption proof of the card at position `idx`.  Both decks have `n`
cards and every single is below `n`. -/
def verifySingle (pk : S.Point) (context : Option Bytes) (round : Nat)
    (cur next : List S.ElGamalCiphertext) (rd : Bytes) (idx : Nat) :
    Except String Bytes := do
  match cur[idx]?, next[idx]? with
  | some inCt, some outCt =>
    let (p, rd) ← S.decodeEqDlogProofFromReader rd
    rejectIf (outCt.c1 = inCt.c1) s!"single not rerandomized at round={round} idx={idx}"
    let ok ← verifyEqDlog domainReencEqDlog S.base pk (outCt.c1 - inCt.c1)
      (outCt.c2 - inCt.c2) p context
    rejectIf (ok = false) s!"invalid single proof at round={round} idx={idx}"
    pure rd
  | _, _ => pure rd

def verifyRound (pk : S.Point) (context : Option Bytes) (n round : Nat)
    (cur : List S.ElGamalCiphertext) (rd : Bytes) :
    Except String (List S.ElGamalCiphertext × Bytes) := do
  let start := round % 2
  let (deckBytes, rd) ← takeBytes (n * 64) rd
  let next ← S.decodeDeck n deckBytes
  let rd ← verifyPairs pk context round start (cur.drop start) (next.drop start) rd
  let rd ← (roundSingles n start).foldlM (verifySingle pk context round cur next) rd
  pure (next, rd)

def verifyRounds (pk : S.Point) (context : Option Bytes) (n : Nat) :
    (left round : Nat) → List S.ElGamalCiphertext → Bytes →
      Except String (List S.ElGamalCiphertext × Bytes)
  | 0, _, cur, rd => pure (cur, rd)
  | left + 1, round, cur, rd => do
      let (next, rd) ← verifyRound pk context n round cur rd
      verifyRounds pk context n left (round + 1) next rd

def checkVersion (version : Nat) (context : Option Bytes) : Except String Unit :=
  match version, context with
  | 1, none => pure ()
  | 1, some _ => throw "context supplied for v1 proof; v1 must omit context"
  | 2, none => throw "context required for v2 proof"
  | 2, some [] => throw "context must be non-empty for v2"
  | 2, some (_ :: _) => pure ()
  | v, _ => throw s!"unsupported version {v}"

def readContext (context : Option Bytes) (rd : Bytes) : Except String Bytes :=
  match context with
  | none => pure rd
  | some ctx => do
      let (ctxLen, rd) ← takeBytes 2 rd
      let (ctxBytes, rd) ← takeBytes (leNat ctxLen) rd
      rejectIf (ctxBytes ≠ ctx) "context mismatch"
      pure rd

def readShuffleHeader (deckSize : Nat) (proofBytes : Bytes)
    (context : Option Bytes) : Except String (Nat × Bytes) := do
  let (version, rd) ← takeBytes 1 proofBytes
  checkVersion (leNat version) context
  let (nU16, rd) ← takeBytes 2 rd
  let (roundsU16, rd) ← takeBytes 2 rd
  let rd ← readContext context rd
  let n := leNat nU16
  rejectIf (n ≠ deckSize) s!"n mismatch: proof n={n}, deck n={deckSize}"
  rejectIf (n < 2) "deck too small"
  rejectIf (leNat roundsU16 = 0) "rounds must be > 0"
  pure (leNat roundsU16, rd)

def shuffleVerifyV1 (pk : S.Point) (deckIn : List S.ElGamalCiphertext)
    (proofBytes : Bytes) (context : Option Bytes) :
    Except String (List S.ElGamalCiphertext) := do
  let (rounds, rd) ← readShuffleHeader deckIn.length proofBytes context
  let (deckOut, rd) ← verifyRounds pk context deckIn.length rounds 0 deckIn rd
  rejectIf (rd ≠ []) "trailing bytes in proof"
  pure deckOut

def buildShuffleContext (tableID handID round : Nat) (shuffler : String) :
    Except String Bytes := do
  let shufflerBytes := stringBytes shuffler
  rejectIf (shufflerBytes.length > 0xffff) "BuildShuffleContext: shuffler too long"
  pure (u64le tableID ++ u64le handID ++ u16le round ++
    u16le shufflerBytes.length ++ shufflerBytes)

/-! ## What a proof claims -/

def PairsTrue (pk : S.Point) :
    List S.ElGamalCiphertext → List S.ElGamalCiphertext → Prop
  | in0 :: in1 :: cur, out0 :: out1 :: next =>
    Switches S.Scalar S.base pk in0 in1 out0 out1 ∧ PairsTrue pk cur next
  | _, _ => True

instance PairsTrue.decidable (pk : S.Point) :
    (cur next : List S.ElGamalCiphertext) → Decidable (PairsTrue pk cur next)
  | in0 :: in1 :: cur, out0 :: out1 :: next =>
    have := PairsTrue.decidable pk cur next
    inferInstanceAs (Decidable (Switches S.Scalar S.base pk in0 in1 out0 out1 ∧
      PairsTrue pk cur next))
  | [], _ => isTrue (by simp [PairsTrue])
  | [_], _ => isTrue (by simp [PairsTrue])
  | _ :: _ :: _, [] => isTrue trivial
  | _ :: _ :: _, [_] => isTrue trivial

def SinglesTrue (pk : S.Point) (cur next : List S.ElGamalCiphertext)
    (singles : List Nat) : Prop :=
  ∀ idx ∈ singles, ∀ entry ∈ (cur.zip next)[idx]?,
    Reencrypts S.Scalar S.base pk entry.1 entry.2

def RoundTrue (pk : S.Point) (round : Nat)
    (cur next : List S.ElGamalCiphertext) : Prop :=
  PairsTrue pk (cur.drop (round % 2)) (next.drop (round % 2)) ∧
    SinglesTrue pk cur next (roundSingles cur.length (round % 2))

def RoundsTrue (pk : S.Point) (context : Option Bytes) (n : Nat) :
    (left round : Nat) → List S.ElGamalCiphertext → Bytes → Prop
  | 0, _, _, _ => True
  | left + 1, round, cur, rd =>
    match verifyRound pk context n round cur rd with
    | .error _ => True
    | .ok (next, rd) =>
      RoundTrue pk round cur next ∧ RoundsTrue pk context n left (round + 1) next rd

instance (pk : S.Point) (cur next : List S.ElGamalCiphertext) (singles : List Nat) :
    Decidable (SinglesTrue pk cur next singles) :=
  inferInstanceAs (Decidable (∀ idx ∈ singles, ∀ entry ∈ (cur.zip next)[idx]?, _))

instance (pk : S.Point) (round : Nat) (cur next : List S.ElGamalCiphertext) :
    Decidable (RoundTrue pk round cur next) :=
  inferInstanceAs (Decidable (_ ∧ _))

instance RoundsTrue.decidable (pk : S.Point) (context : Option Bytes) (n : Nat) :
    (left round : Nat) → (cur : List S.ElGamalCiphertext) → (rd : Bytes) →
      Decidable (RoundsTrue pk context n left round cur rd)
  | 0, _, _, _ => isTrue trivial
  | left + 1, round, cur, rd =>
    match hround : verifyRound pk context n round cur rd with
    | .error _ => isTrue (by simp only [RoundsTrue, hround])
    | .ok (next, rd') =>
      have := RoundsTrue.decidable pk context n left (round + 1) next rd'
      decidable_of_iff (RoundTrue pk round cur next ∧
        RoundsTrue pk context n left (round + 1) next rd')
        (by simp only [RoundsTrue, hround])

def ShuffleTrue (pk : S.Point) (deckIn : List S.ElGamalCiphertext)
    (proofBytes : Bytes) (context : Option Bytes) : Prop :=
  match readShuffleHeader deckIn.length proofBytes context with
  | .error _ => True
  | .ok (rounds, rd) =>
    RoundsTrue pk context deckIn.length rounds 0 deckIn rd

instance (pk : S.Point) (deckIn : List S.ElGamalCiphertext) (proofBytes : Bytes)
    (context : Option Bytes) : Decidable (ShuffleTrue pk deckIn proofBytes context) :=
  match hheader : readShuffleHeader deckIn.length proofBytes context with
  | .error _ => isTrue (by simp only [ShuffleTrue, hheader])
  | .ok (rounds, rd) =>
    decidable_of_iff (RoundsTrue pk context deckIn.length rounds 0 deckIn rd)
      (by simp only [ShuffleTrue, hheader])

/-! ## True proofs shuffle the deck -/

theorem shuffles_of_pairs :
    (cur next : List S.ElGamalCiphertext) → cur.length = next.length →
      PairsTrue pk cur next →
      (cur.length % 2 = 1 → SinglesTrue pk cur next [cur.length - 1]) →
      Shuffles S.Scalar S.base pk cur next
  | [], [], _, _, _ => .nil
  | [inCt], [outCt], _, _, hlast => by
      have hre := hlast rfl 0 (by simp) (inCt, outCt) (by simp)
      exact .cons hre .nil
  | in0 :: in1 :: cur, out0 :: out1 :: next, hlength, hpairs, hlast => by
      refine .switch hpairs.1 (shuffles_of_pairs cur next (by simpa using hlength) hpairs.2 ?_)
      intro hodd idx hidx entry hentry
      rw [List.mem_singleton] at hidx
      subst hidx
      -- The last card of the tail is the last card of the deck.
      refine hlast (by simp only [List.length_cons]; omega) _ (List.mem_singleton_self _) entry ?_
      obtain ⟨k, hk⟩ : ∃ k, cur.length = k + 1 := ⟨cur.length - 1, by omega⟩
      simpa [hk] using hentry

variable {next out : List S.ElGamalCiphertext} {left : Nat}

theorem RoundTrue.shuffles (htrue : RoundTrue pk round cur next)
    (hlength : cur.length = next.length) (hcards : 2 ≤ cur.length) :
    Shuffles S.Scalar S.base pk cur next := by
  obtain ⟨hpairs, hsingles⟩ := htrue
  rcases Nat.mod_two_eq_zero_or_one round with heven | hodd
  · rw [heven] at hpairs hsingles
    refine shuffles_of_pairs cur next hlength hpairs fun hcount => ?_
    simpa [roundSingles, hcount] using hsingles
  · -- The first card stands alone, the rest is paired from position one.
    rw [hodd] at hpairs hsingles
    obtain ⟨inCt, cur, rfl⟩ := List.exists_cons_of_length_pos (by omega : 0 < cur.length)
    obtain ⟨outCt, next, rfl⟩ := List.exists_cons_of_length_pos (by omega : 0 < next.length)
    have hfirst : Reencrypts S.Scalar S.base pk inCt outCt := by
      refine hsingles 0 ?_ (inCt, outCt) (by simp)
      unfold roundSingles
      split <;> simp
    refine .cons hfirst (shuffles_of_pairs cur next (by simpa using hlength) hpairs ?_)
    intro hcount idx hidx entry hentry
    rw [List.mem_singleton] at hidx
    subst hidx
    have heven : (cur.length + 1) % 2 = 0 := by omega
    refine hsingles cur.length (by simp [roundSingles, heven]) entry ?_
    obtain ⟨k, hk⟩ : ∃ k, cur.length = k + 1 := ⟨cur.length - 1, by omega⟩
    simpa [hk] using hentry

theorem decodeDeck_length {b : Bytes} {deck : List S.ElGamalCiphertext}
    (hok : S.decodeDeck n b = .ok deck) :
    deck.length = n := by
  induction n generalizing b deck with
  | zero =>
    cases hok
    rfl
  | succ n ih =>
    simp only [decodeDeck, ok_iff] at hok
    obtain ⟨ct, -, rest, hrest, rfl⟩ := hok
    simp [ih hrest]

theorem verifyRound_length (hok : verifyRound pk context n round cur rd = .ok (next, rd')) :
    next.length = n := by
  simp only [verifyRound, ok_iff, Prod.mk.injEq] at hok
  obtain ⟨_, -, deck, hdeck, _, -, _, -, rfl, -⟩ := hok
  exact decodeDeck_length hdeck

theorem verifyRounds_length (hcur : cur.length = n)
    (hok : verifyRounds pk context n left round cur rd = .ok (out, rd')) :
    out.length = n := by
  induction left generalizing round cur rd with
  | zero =>
    cases hok
    exact hcur
  | succ left ih =>
    simp only [verifyRounds, ok_iff] at hok
    obtain ⟨⟨next, rd₁⟩, hround, hrest⟩ := hok
    exact ih (verifyRound_length hround) hrest

theorem verifyRounds_shuffles (hcards : 2 ≤ n) (hcur : cur.length = n)
    (htrue : RoundsTrue pk context n left round cur rd)
    (hok : verifyRounds pk context n left round cur rd = .ok (out, rd')) :
    Shuffles S.Scalar S.base pk cur out := by
  induction left generalizing round cur rd with
  | zero =>
    cases hok
    exact .refl _
  | succ left ih =>
    simp only [verifyRounds, ok_iff] at hok
    obtain ⟨⟨next, rd₁⟩, hround, hrest⟩ := hok
    have hnext := verifyRound_length hround
    simp only [RoundsTrue, hround] at htrue
    have hshuffle := htrue.1.shuffles (hcur.trans hnext.symm) (by omega)
    exact hshuffle.trans (ih hnext htrue.2 hrest)

theorem readShuffleHeader_size {deckSize rounds : Nat}
    (hok : readShuffleHeader deckSize proofBytes context = .ok (rounds, rd)) :
    2 ≤ deckSize := by
  simp only [readShuffleHeader, ok_iff] at hok
  obtain ⟨_, -, _, -, _, -, _, -, _, -, _, hsize, _, hmin, -⟩ := hok
  omega

section

variable (hok : shuffleVerifyV1 pk deckIn proofBytes context = .ok deckOut)
include hok

theorem shuffleVerifyV1_length : deckOut.length = deckIn.length := by
  simp only [shuffleVerifyV1, ok_iff] at hok
  obtain ⟨_, -, ⟨out, rd⟩, hrounds, _, -, rfl⟩ := hok
  exact verifyRounds_length rfl hrounds

theorem shuffleVerifyV1_shuffles (htrue : ShuffleTrue pk deckIn proofBytes context) :
    Shuffles S.Scalar S.base pk deckIn deckOut := by
  simp only [shuffleVerifyV1, ok_iff] at hok
  obtain ⟨⟨rounds, rd⟩, hheader, ⟨out, rd'⟩, hrounds, _, -, rfl⟩ := hok
  simp only [ShuffleTrue, hheader] at htrue
  exact verifyRounds_shuffles (readShuffleHeader_size hheader) rfl htrue hrounds

theorem shuffleVerifyV1_encrypts {plain : List S.Point}
    (htrue : ShuffleTrue pk deckIn proofBytes context)
    (hdeck : EncryptsDeck S.Scalar S.base pk plain deckIn) :
    EncryptsDeck S.Scalar S.base pk plain deckOut :=
  hdeck.shuffle (shuffleVerifyV1_shuffles hok htrue)

end

end OnChainPoker.Crypto.Suite
