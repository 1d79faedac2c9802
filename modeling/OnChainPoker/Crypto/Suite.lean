import Mathlib.Algebra.Field.ZMod
import Mathlib.FieldTheory.Finite.Basic
import Mathlib.Tactic.NormNum.Prime
import OnChainPoker.Foundation.Bytes
import OnChainPoker.Foundation.ElGamal
import OnChainPoker.Foundation.Interpolation
import OnChainPoker.Foundation.Result

/-!
# The group of `ocpcrypto`

Points and scalars as the module sees them: a group of prime order with a
generator, canonical 32-byte encodings, the hash functions, the AEAD and the
signature scheme are external code and come as a `Suite`.  What the module
itself computes from them, ElGamal encryption and the Lagrange coefficients at
zero, is defined here.
-/

namespace OnChainPoker.Crypto

open Foundation

/-- The cryptographic libraries the module calls and does not contain. -/
structure Suite where
  order : ℕ
  prime : Fact order.Prime
  Point : Type
  addCommGroup : AddCommGroup Point
  module : Module (ZMod order) Point
  decEq : DecidableEq Point
  base : Point
  base_ne_zero : base ≠ 0
  exists_log : ∀ p : Point, ∃ x : ZMod order, x • base = p
  pointBytes : Point → Bytes
  setCanonicalPoint : Bytes → Except String Point
  pointBytes_length : ∀ p, (pointBytes p).length = 32
  setCanonicalPoint_iff : ∀ {b p}, setCanonicalPoint b = .ok p ↔ pointBytes p = b
  scalarBytes : ZMod order → Bytes
  setCanonicalScalar : Bytes → Except String (ZMod order)
  scalarBytes_length : ∀ x, (scalarBytes x).length = 32
  setCanonicalScalar_iff : ∀ {b x},
    setCanonicalScalar b = .ok x ↔ scalarBytes x = b
  fromUniformBytes : Bytes → ZMod order
  invert : ZMod order → ZMod order
  mul_invert : ∀ {x}, x ≠ 0 → x * invert x = 1
  sha256 : Bytes → Bytes
  sha512 : Bytes → Bytes
  sha512_length : ∀ b, (sha512 b).length = 64
  aesGcmOpen : (key nonce ciphertext aad : Bytes) → Except String Bytes
  ed25519Verify : (pub msg sig : Bytes) → Bool

namespace Suite

variable (S : Suite)

abbrev Scalar := ZMod S.order

instance : Fact S.order.Prime := S.prime
instance : AddCommGroup S.Point := S.addCommGroup
instance : Module S.Scalar S.Point := S.module
instance : DecidableEq S.Point := S.decEq

/-! ## Points and scalars -/

def pointFromBytesCanonical (b : Bytes) : Except String S.Point := do
  rejectIf (b.length ≠ 32) "point: expected 32 bytes"
  (S.setCanonicalPoint b).mapError fun err => "point: non-canonical: " ++ err

def scalarFromBytesCanonical (b : Bytes) : Except String S.Scalar := do
  rejectIf (b.length ≠ 32) "scalar: expected 32 bytes"
  (S.setCanonicalScalar b).mapError fun err => "scalar: non-canonical: " ++ err

def scalarFromUniformBytes (b : Bytes) : Except String S.Scalar := do
  rejectIf (b.length ≠ 64) "scalar: expected 64 uniform bytes"
  pure (S.fromUniformBytes b)

def scalarFromUint64 (x : Nat) : S.Scalar := x

def mulBase (k : S.Scalar) : S.Point := k • S.base

def scalarInv (a : S.Scalar) : Except String S.Scalar := do
  rejectIf (a = 0) "scalar: inverse of zero"
  pure (S.invert a)

theorem pointFromBytesCanonical_eq_ok {b : Bytes} {p : S.Point} :
    S.pointFromBytesCanonical b = .ok p ↔ S.pointBytes p = b := by
  simp only [pointFromBytesCanonical, ok_iff, S.setCanonicalPoint_iff]
  constructor
  · rintro ⟨-, -, hbytes⟩
    exact hbytes
  · rintro rfl
    exact ⟨(), by simp [S.pointBytes_length], rfl⟩

theorem scalarFromBytesCanonical_eq_ok {b : Bytes} {x : S.Scalar} :
    S.scalarFromBytesCanonical b = .ok x ↔ S.scalarBytes x = b := by
  simp only [scalarFromBytesCanonical, ok_iff, S.setCanonicalScalar_iff]
  constructor
  · rintro ⟨-, -, hbytes⟩
    exact hbytes
  · rintro rfl
    exact ⟨(), by simp [S.scalarBytes_length], rfl⟩

@[simp] theorem pointFromBytesCanonical_pointBytes (p : S.Point) :
    S.pointFromBytesCanonical (S.pointBytes p) = .ok p :=
  S.pointFromBytesCanonical_eq_ok.mpr rfl

theorem pointBytes_injective : Function.Injective S.pointBytes := by
  intro p p' hbytes
  have hdecode := S.pointFromBytesCanonical_eq_ok.mpr hbytes
  rw [pointFromBytesCanonical_pointBytes] at hdecode
  exact (Except.ok.inj hdecode).symm

/-! ## ElGamal -/

abbrev ElGamalCiphertext := Ciphertext S.Point

variable {S}

def elGamalEncrypt (pk m : S.Point) (r : S.Scalar) :
    Except String S.ElGamalCiphertext := do
  rejectIf (r = 0) "elgamal: r must be non-zero"
  pure ⟨S.mulBase r, m + r • pk⟩

/-! ## Lagrange coefficients at zero -/

def checkIndices : (seen indices : List Nat) → Except String Unit
  | _, [] => pure ()
  | seen, idx :: rest => do
      rejectIf (idx = 0) "lagrange: index 0 not allowed"
      rejectIf (idx ∈ seen) s!"lagrange: duplicate index {idx}"
      checkIndices (idx :: seen) rest

variable (S)

def lagrangeFraction (indices : List Nat) (xiU : Nat) : S.Scalar × S.Scalar :=
  indices.foldl (fun (num, den) xjU =>
    if xjU = xiU then (num, den)
    else
      let xj := S.scalarFromUint64 xjU
      (num * -xj, den * (S.scalarFromUint64 xiU - xj))) (1, 1)

def lagrangeAtZero (indices : List Nat) : Except String (List S.Scalar) := do
  rejectIf (indices = []) "lagrange: empty indices"
  checkIndices [] indices
  indices.mapM fun xiU => do
    let (num, den) := S.lagrangeFraction indices xiU
    let denInv ← S.scalarInv den
    pure (num * denInv)

end Suite

/-! ## The residues modulo 53 as a suite -/

def residueBytes (x : ZMod 53) : Bytes := UInt8.ofNat x.val :: List.replicate 31 0

def residueOfBytes (b : Bytes) : Except String (ZMod 53) :=
  let x : ZMod 53 := ((b.headD 0).toNat : ZMod 53)
  if residueBytes x = b then .ok x else .error "not canonical"

theorem residueOfBytes_eq_ok {b : Bytes} {x : ZMod 53} :
    residueOfBytes b = .ok x ↔ residueBytes x = b := by
  have hhead : ∀ y : ZMod 53, (((residueBytes y).headD 0).toNat : ZMod 53) = y := by decide
  unfold residueOfBytes
  dsimp only
  constructor
  · intro hok
    split at hok
    · cases hok
      assumption
    · cases hok
  · rintro rfl
    rw [hhead, if_pos rfl]

theorem residue_mul_invert {x : ZMod 53} (hx : x ≠ 0) : x * x ^ 51 = 1 := by
  have : Fact (Nat.Prime 53) := ⟨by norm_num⟩
  rw [← pow_succ']
  exact ZMod.pow_card_sub_one_eq_one hx

/-- A group small enough to compute in.  Its hashes are constant and its cipher
only drops the tag: nothing here depends on their strength. -/
def residueSuite : Suite where
  order := 53
  prime := ⟨by norm_num⟩
  Point := ZMod 53
  addCommGroup := inferInstance
  module := inferInstance
  decEq := inferInstance
  base := 1
  base_ne_zero := by decide
  exists_log := fun p => ⟨p, mul_one p⟩
  pointBytes := residueBytes
  setCanonicalPoint := residueOfBytes
  pointBytes_length := fun _ => by simp [residueBytes]
  setCanonicalPoint_iff := residueOfBytes_eq_ok
  scalarBytes := residueBytes
  setCanonicalScalar := residueOfBytes
  scalarBytes_length := fun _ => by simp [residueBytes]
  setCanonicalScalar_iff := residueOfBytes_eq_ok
  fromUniformBytes := fun b => ((b.headD 0).toNat : ZMod 53)
  invert := fun x => x ^ 51
  mul_invert := residue_mul_invert
  sha256 := fun _ => List.replicate 32 0
  sha512 := fun _ => 1 :: List.replicate 63 0
  sha512_length := fun _ => by simp
  aesGcmOpen := fun _ _ ciphertext _ => .ok (ciphertext.take 32)
  ed25519Verify := fun _ _ _ => true

instance (priority := 200) residueNumeral (n : Nat) : OfNat (ZMod 53) n := ⟨n⟩

end OnChainPoker.Crypto
