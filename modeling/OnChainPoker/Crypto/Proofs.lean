import OnChainPoker.Crypto.Suite

/-!
# Transcripts and share proofs of `ocpcrypto`

The Fiat-Shamir transcript and the verifiers built on it: Chaum-Pedersen
equality of logs, the proof that a decryption share was encrypted to a player,
the proof that a DKG share was encrypted to a recipient, and the scalar
delivered beside the latter.  Messages are never nil here, so the nil checks of
the source have no counterpart.
-/

namespace OnChainPoker.Crypto

open Foundation

def u16le (x : Nat) : Bytes := leBytes 2 x

def u32le (x : Nat) : Bytes := leBytes 4 x

def u64le (x : Nat) : Bytes := leBytes 8 x

/-! ## Hashing -/

def lenBytes (b : Bytes) : Bytes := u32le b.length ++ b

namespace Suite

variable (S : Suite)

def hashToScalar (domainSep : String) (msgs : List Bytes) : Except String S.Scalar :=
  S.scalarFromUniformBytes <| S.sha512 <|
    stringBytes "OCPv1|hash_to_scalar|" ++ lenBytes (stringBytes domainSep) ++
      msgs.flatMap lenBytes

end Suite

/-! ## Transcript -/

abbrev Transcript := Bytes

def newTranscript (domainSep : String) : Transcript :=
  stringBytes "OCPv1|transcript|" ++ lenBytes (stringBytes domainSep)

def Transcript.appendMessage (t : Transcript) (label : String) (msg : Bytes) :
    Transcript :=
  t ++ stringBytes "msg" ++ lenBytes (stringBytes label) ++ lenBytes msg

def Transcript.appendMessages (t : Transcript) (msgs : List (String × Bytes)) :
    Transcript :=
  msgs.foldl (fun t entry => Transcript.appendMessage t entry.1 entry.2) t

namespace Suite

variable (S : Suite)

def challengeScalar (t : Transcript) (label : String) :
    Except String (S.Scalar × Transcript) := do
  let digest := S.sha512 (t ++ stringBytes "challenge" ++ lenBytes (stringBytes label))
  let e ← S.scalarFromUniformBytes digest
  pure (e, t ++ stringBytes "chal" ++ lenBytes (stringBytes label) ++ lenBytes digest)

def pointsChallenge (t : Transcript) (points : List (String × S.Point)) :
    Except String S.Scalar := do
  let msgs := points.map fun entry => (entry.1, S.pointBytes entry.2)
  let (e, _) ← S.challengeScalar (t.appendMessages msgs) "e"
  pure e

/-! ## Chaum-Pedersen -/

structure ChaumPedersenProof where
  a : S.Point
  b : S.Point
  s : S.Scalar

def chaumPedersenDomain : String := "ocp/v1/chaum-pedersen-eqdl"

variable {S}

def chaumPedersenVerify (y c1 d : S.Point) (proof : S.ChaumPedersenProof) :
    Except String Bool := do
  let e ← S.pointsChallenge (newTranscript chaumPedersenDomain)
    [("y", y), ("c1", c1), ("d", d), ("a", proof.a), ("b", proof.b)]
  pure (decide (S.mulBase proof.s = proof.a + e • y) &&
    decide (proof.s • c1 = proof.b + e • d))

def chunk (b : Bytes) (start : Nat) : Bytes := (b.drop start).take 32

variable (S)

def decodeChaumPedersenProof (b : Bytes) : Except String S.ChaumPedersenProof := do
  rejectIf (b.length ≠ 96) "chaum-pedersen: expected 96 bytes"
  let a ← S.pointFromBytesCanonical (chunk b 0)
  let bl ← S.pointFromBytesCanonical (chunk b 32)
  let s ← S.scalarFromBytesCanonical (chunk b 64)
  pure ⟨a, bl, s⟩

/-! ## Encrypted decryption shares -/

/-- Three commitments and two responses; both share proofs have this layout. -/
structure ShareProof where
  a1 : S.Point
  a2 : S.Point
  a3 : S.Point
  sx : S.Scalar
  sr : S.Scalar

def encShareDomain : String := "ocp/v1/dealer/encshare"

variable {S}

def encShareVerify (y c1 pkp u v : S.Point) (proof : S.ShareProof) :
    Except String Bool := do
  let e ← S.pointsChallenge (newTranscript encShareDomain)
    [("Y", y), ("C1", c1), ("PKP", pkp), ("U", u), ("V", v),
      ("A1", proof.a1), ("A2", proof.a2), ("A3", proof.a3)]
  pure (decide (S.mulBase proof.sx = proof.a1 + e • y) &&
    decide (S.mulBase proof.sr = proof.a2 + e • u) &&
    decide (proof.sx • c1 + proof.sr • pkp = proof.a3 + e • v))

variable (S)

def decodeShareProof (lengthError : String) (b : Bytes) :
    Except String S.ShareProof := do
  rejectIf (b.length ≠ 160) lengthError
  let a1 ← S.pointFromBytesCanonical (chunk b 0)
  let a2 ← S.pointFromBytesCanonical (chunk b 32)
  let a3 ← S.pointFromBytesCanonical (chunk b 64)
  let sx ← S.scalarFromBytesCanonical (chunk b 96)
  let sr ← S.scalarFromBytesCanonical (chunk b 128)
  pure ⟨a1, a2, a3, sx, sr⟩

def decodeEncShareProof (b : Bytes) : Except String S.ShareProof :=
  S.decodeShareProof "encshare: expected 160 bytes" b

/-! ## Encrypted DKG shares -/

def dkgEncShareDomain : String := "ocp/v1/dkg/encshare"

def decodeDkgEncShareProof (b : Bytes) : Except String S.ShareProof :=
  S.decodeShareProof s!"dkgEncShare: expected 160 bytes, got {b.length}" b

/-- The loop shared by `EvalCommitments` and `dkgEvalCommitment`. -/
def evalPowers (commitments : List S.Point) (x : S.Scalar) : S.Point :=
  (commitments.foldl (fun (state : S.Point × S.Scalar) c =>
    (state.1 + state.2 • c, state.2 * x)) (0, 1)).1

def evalCommitments (commitments : List S.Point) (j : Nat) : Except String S.Point := do
  rejectIf (commitments = []) "dkgEncShare: commitments must be non-empty"
  rejectIf (j = 0) "dkgEncShare: j must be >= 1"
  pure (S.evalPowers commitments (S.scalarFromUint64 j))

def commitmentMessages (commitments : List S.Point) : List (String × Bytes) :=
  commitments.mapIdx fun k c => ("C" ++ toString k, S.pointBytes c)

variable {S}

def dkgEncShareVerify (commitments : List S.Point) (j : Nat)
    (pkR u v : S.Point) (proof : S.ShareProof) : Except String Bool := do
  match S.evalCommitments commitments j with
  | .error _ => pure false
  | .ok evalJ =>
    let t := (newTranscript dkgEncShareDomain).appendMessages
      ([("t", u32le commitments.length)] ++ S.commitmentMessages commitments ++
        [("j", u32le j)])
    let e ← S.pointsChallenge t
      [("pkR", pkR), ("U", u), ("V", v),
        ("A1", proof.a1), ("A2", proof.a2), ("A3", proof.a3)]
    pure (decide (S.mulBase proof.sx = proof.a1 + e • evalJ) &&
      decide (S.mulBase proof.sr = proof.a2 + e • u) &&
      decide (S.mulBase proof.sx + proof.sr • pkR = proof.a3 + e • v))

/-! ## The scalar beside an encrypted DKG share -/

def dkgScalarAeadKeyDomain : String := "ocp/v1/dkg/scalar-aead/v1"

variable (S)

def deriveScalarAeadKey (dh : S.Point) : Bytes :=
  S.sha256 (stringBytes dkgScalarAeadKeyDomain ++ S.pointBytes dh)

def dkgScalarAeadOpen (dh : S.Point) (ct proofBytes : Bytes) :
    Except String S.Scalar := do
  rejectIf (ct.length ≠ 48) s!"dkgScalarAead: ct must be 48 bytes, got {ct.length}"
  let pt ← (S.aesGcmOpen (S.deriveScalarAeadKey dh) (List.replicate 12 0) ct
    proofBytes).mapError fun err => "dkgScalarAead: AEAD decrypt failed: " ++ err
  rejectIf (pt.length ≠ 32) s!"dkgScalarAead: unexpected plaintext length {pt.length}"
  S.scalarFromBytesCanonical pt

end Suite

end OnChainPoker.Crypto
