import OnChainPoker.Crypto.Shuffle
import OnChainPoker.Foundation.OddEven

/-!
# The shuffle prover of `ocpshuffle`

The prover draws a permutation, uses it as sorting keys and runs an odd-even switch
network over the deck: every pair of a round is re-encrypted in the order of its keys,
every other card alone. The rejection loops of the source have no bound; here `limit`
bounds them, and a prover that reaches it does not return.
-/

namespace OnChainPoker.Crypto.Suite

open Foundation

variable (S : Suite)

/-! ## Random streams -/

structure ScalarRng where
  State : Type
  nextScalar : State → Except String (S.Scalar × State)
  nextBytes : Nat → State → Except String (Bytes × State)

def nextSeedScalar (seed : Bytes) (counter : Nat) : Except String (S.Scalar × Nat) := do
  let s ← S.hashToScalar "ocp/v1/shuffle/rng" [seed, u32le counter]
  pure (s, (counter + 1) % 2 ^ 32)

/-- Scalars hashed from a seed and a 32-bit counter, bytes from their encodings. -/
def deterministicRng (seed : Bytes) : S.ScalarRng where
  State := Nat
  nextScalar := S.nextSeedScalar seed
  nextBytes := fun n counter => do
    let (out, counter) ← (List.range ((n + 31) / 32)).foldlM (fun (out, counter) _ => do
      let (s, counter) ← S.nextSeedScalar seed counter
      pure (out ++ S.scalarBytes s, counter)) ([], counter)
    pure (out.take n, counter)

variable {S} (rng : S.ScalarRng) (limit : Nat)

def sampleNonzeroScalar : Nat → rng.State → Except String (S.Scalar × rng.State)
  | 0, _ => throw "sampleNonzeroScalar: no result"
  | fuel + 1, st => do
      let (s, st) ← rng.nextScalar st
      if s = 0 then sampleNonzeroScalar fuel st else pure (s, st)

def elgamalReencrypt (pk : S.Point) (ct : S.ElGamalCiphertext) (rho : S.Scalar) :
    S.ElGamalCiphertext :=
  ⟨ct.c1 + S.mulBase rho, ct.c2 + rho • pk⟩

def reencryptAvoidingC1Collisions (pk : S.Point) (src : S.ElGamalCiphertext)
    (avoidC1s : List S.Point) :
    Nat → rng.State → Except String ((S.ElGamalCiphertext × S.Scalar) × rng.State)
  | 0, _ => throw "reencryptAvoidingC1Collisions: no result"
  | fuel + 1, st => do
      let (rho, st) ← sampleNonzeroScalar rng limit st
      let ct := elgamalReencrypt pk src rho
      if ct.c1 ∈ avoidC1s then reencryptAvoidingC1Collisions pk src avoidC1s fuel st
      else pure ((ct, rho), st)

/-! ## The permutation -/

def swapEntries (perm : List Nat) (i j : Nat) : List Nat :=
  (perm.set i (perm.getD j 0)).set j (perm.getD i 0)

/-- The loop from `i = n - 1` down to `1`. -/
def drawSwaps : Nat → List Nat → rng.State → Except String (List Nat × rng.State)
  | 0, perm, st => pure (perm, st)
  | i + 1, perm, st => do
      let (b, st) ← rng.nextBytes 4 st
      drawSwaps i (swapEntries perm (i + 1) (leNat b % (i + 2))) st

def randomPermutation (n : Nat) (st : rng.State) : Except String (List Nat × rng.State) :=
  drawSwaps rng (n - 1) (List.range n) st

/-! ## Proofs -/

def proveEqDlog (domain : String) (A B X Y : S.Point) (x : S.Scalar)
    (context : Option Bytes) (st : rng.State) :
    Except String (S.EqDlogProof × rng.State) := do
  let (w, st) ← rng.nextScalar st
  let e ← S.pointsChallenge (contextTranscript domain context)
    [("A", A), ("B", B), ("X", X), ("Y", Y), ("t1", w • A), ("t2", w • B)]
  pure (⟨w • A, w • B, w + e * x⟩, st)

def simulateEqDlog (pk : S.Point) (inCt outCt : S.ElGamalCiphertext) (e z : S.Scalar) :
    S.EqDlogProof :=
  ⟨z • S.base - e • (outCt.c1 - inCt.c1), z • pk - e • (outCt.c2 - inCt.c2), z⟩

def commitNonce (pk : S.Point) (w : S.Scalar) : S.EqDlogProof := ⟨w • S.base, w • pk, 0⟩

def EqDlogProof.respond (rel : S.EqDlogProof) (z : S.Scalar) : S.EqDlogProof :=
  { rel with z := z }

/-- The branch that did not happen is simulated, the other proved. -/
def proveSwitch (pk : S.Point) (in0 in1 out0 out1 : S.ElGamalCiphertext)
    (swapped : Bool) (rho0 rho1 : S.Scalar) (context : Option Bytes) (st : rng.State) :
    Except String (S.SwitchProof × rng.State) := do
  let (eSim, st) ← rng.nextScalar st
  let (z0, st) ← rng.nextScalar st
  let (z1, st) ← rng.nextScalar st
  let (w0, st) ← rng.nextScalar st
  let (w1, st) ← rng.nextScalar st
  let real0 := commitNonce pk w0
  let real1 := commitNonce pk w1
  if swapped then
    let sim0 := simulateEqDlog pk in0 out0 eSim z0
    let sim1 := simulateEqDlog pk in1 out1 eSim z1
    let e ← switchChallenge pk in0 in1 out0 out1 ⟨0, sim0, sim1, real0, real1⟩ context
    let e1 := e - eSim
    pure (⟨eSim, sim0, sim1, real0.respond (w0 + e1 * rho0),
      real1.respond (w1 + e1 * rho1)⟩, st)
  else
    let sim0 := simulateEqDlog pk in1 out0 eSim z0
    let sim1 := simulateEqDlog pk in0 out1 eSim z1
    let e ← switchChallenge pk in0 in1 out0 out1 ⟨0, real0, real1, sim0, sim1⟩ context
    let e0 := e - eSim
    pure (⟨e0, real0.respond (w0 + e0 * rho0), real1.respond (w1 + e0 * rho1),
      sim0, sim1⟩, st)

def encodeCiphertext (ct : S.ElGamalCiphertext) : Bytes :=
  S.pointBytes ct.c1 ++ S.pointBytes ct.c2

def encodeEqDlogProof (p : S.EqDlogProof) : Bytes :=
  S.pointBytes p.t1 ++ S.pointBytes p.t2 ++ S.scalarBytes p.z

def encodeSwitchProof (p : S.SwitchProof) : Bytes :=
  S.scalarBytes p.e0 ++ encodeEqDlogProof p.r0 ++ encodeEqDlogProof p.r1 ++
    encodeEqDlogProof p.r2 ++ encodeEqDlogProof p.r3

/-! ## Rounds -/

variable (S) in
structure ShuffleItem where
  ct : S.ElGamalCiphertext
  key : Nat

def provePairs (pk : S.Point) (context : Option Bytes) :
    List S.ShuffleItem → rng.State →
      Except String ((List S.ShuffleItem × Bytes) × rng.State)
  | left :: right :: rest, st => do
      let swap := decide (left.key > right.key)
      let src0 := if swap then right else left
      let src1 := if swap then left else right
      let avoidC1s := [left.ct.c1, right.ct.c1]
      let ((out0, rho0), st) ←
        reencryptAvoidingC1Collisions rng limit pk src0.ct avoidC1s limit st
      let ((out1, rho1), st) ←
        reencryptAvoidingC1Collisions rng limit pk src1.ct avoidC1s limit st
      let (sp, st) ←
        proveSwitch rng pk left.ct right.ct out0 out1 swap rho0 rho1 context st
      let ((next, proofs), st) ← provePairs pk context rest st
      pure ((⟨out0, src0.key⟩ :: ⟨out1, src1.key⟩ :: next,
        encodeSwitchProof sp ++ proofs), st)
  | rest, st => pure ((rest, []), st)

def startsPair (n start i : Nat) : Bool :=
  decide (start ≤ i ∧ (i - start) % 2 = 0 ∧ i + 1 < n)

def unpaired (n start : Nat) : List Nat :=
  (List.range n).filter fun i =>
    !(startsPair n start i || (decide (0 < i) && startsPair n start (i - 1)))

def proveSingle (pk : S.Point) (context : Option Bytes) (items : List S.ShuffleItem)
    (acc : (List S.ShuffleItem × Bytes) × rng.State) (idx : Nat) :
    Except String ((List S.ShuffleItem × Bytes) × rng.State) :=
  match items[idx]? with
  | none => pure acc
  | some item => do
      let ((next, proofs), st) := acc
      let (rho, st) ← sampleNonzeroScalar rng limit st
      let outCt := elgamalReencrypt pk item.ct rho
      let (p, st) ← proveEqDlog rng domainReencEqDlog S.base pk (outCt.c1 - item.ct.c1)
        (outCt.c2 - item.ct.c2) rho context st
      pure ((next.modify idx fun entry => { entry with ct := outCt },
        proofs ++ encodeEqDlogProof p), st)

def proveRound (pk : S.Point) (context : Option Bytes) (round : Nat)
    (items : List S.ShuffleItem) (st : rng.State) :
    Except String ((List S.ShuffleItem × Bytes) × rng.State) := do
  let start := round % 2
  let ((paired, switchProofs), st) ←
    provePairs rng limit pk context (items.drop start) st
  let ((next, singleProofs), st) ← (unpaired items.length start).foldlM
    (proveSingle rng limit pk context items) ((items.take start ++ paired, []), st)
  let deckBytes := next.flatMap fun item => encodeCiphertext item.ct
  pure ((next, deckBytes ++ switchProofs ++ singleProofs), st)

def proveRounds (pk : S.Point) (context : Option Bytes) :
    (left round : Nat) → List S.ShuffleItem → rng.State →
      Except String ((List S.ShuffleItem × Bytes) × rng.State)
  | 0, _, items, st => pure ((items, []), st)
  | left + 1, round, items, st => do
      let ((next, proofs), st) ← proveRound rng limit pk context round items st
      let ((last, rest), st) ← proveRounds pk context left (round + 1) next st
      pure ((last, proofs ++ rest), st)

/-! ## The prover -/

def shuffleHeader (n rounds : Nat) (context : Option Bytes) : Except String Bytes :=
  match context with
  | none => pure (1 :: (u16le n ++ u16le rounds))
  | some ctx => do
      rejectIf (ctx = []) "shuffleProveV1: context must be non-empty for v2"
      rejectIf (ctx.length > 0xffff) "shuffleProveV1: context too long (>65535 bytes)"
      pure (2 :: (u16le n ++ u16le rounds ++ u16le ctx.length ++ ctx))

structure ShuffleProveResult (S : Suite) where
  deckOut : List S.ElGamalCiphertext
  proofBytes : Bytes
  /-- The drawn permutation, which the source does not return. -/
  perm : List Nat

/-- `ShuffleProveV1` once the stream is set up. -/
def shuffleProve (pk : S.Point) (deckIn : List S.ElGamalCiphertext) (optRounds : Nat)
    (context : Option Bytes) (st : rng.State) : Except String (ShuffleProveResult S) := do
  let n := deckIn.length
  rejectIf (n < 2) "shuffleProveV1: deck too small"
  let rounds := if optRounds = 0 then n else optRounds
  let header ← shuffleHeader n rounds context
  let (perm, st) ← randomPermutation rng n st
  let items := deckIn.zipWith ShuffleItem.mk perm
  let ((last, proofs), _) ← proveRounds rng limit pk context rounds 0 items st
  pure ⟨last.map ShuffleItem.ct, header ++ proofs, perm⟩

/-- With an empty seed the source reads 32 random bytes, here `fresh`. -/
def shuffleProveV1 (pk : S.Point) (deckIn : List S.ElGamalCiphertext)
    (seed fresh : Bytes) (optRounds : Nat) (context : Option Bytes) :
    Except String (ShuffleProveResult S) :=
  shuffleProve (S.deterministicRng (if seed = [] then fresh else seed)) limit pk deckIn
    optRounds context (0 : Nat)

end OnChainPoker.Crypto.Suite
