import Mathlib.Algebra.Group.Nat.Defs
import Mathlib.Algebra.Ring.Int.Defs
import Mathlib.Data.List.Basic

/-!
# Byte strings

Fixed-width little-endian integers and a reader that consumes a byte string
from the front.
-/

namespace OnChainPoker.Foundation

abbrev Bytes := List UInt8

/-- The low `width` bytes of a number, least significant first. -/
def leBytes : Nat → Nat → Bytes
  | 0, _ => []
  | width + 1, x => UInt8.ofNat x :: leBytes width (x / 256)

def leNat : Bytes → Nat
  | [] => 0
  | b :: rest => b.toNat + 256 * leNat rest

/-- The two's complement encoding of a signed 64-bit value. -/
def leInt64 (x : Int) : Bytes := leBytes 8 (x % 2 ^ 64).toNat

def stringBytes (s : String) : Bytes := s.toUTF8.data.toList

def takeBytes (n : Nat) (rest : Bytes) : Except String (Bytes × Bytes) :=
  if rest.length < n then .error "reader: out of bounds"
  else .ok (rest.take n, rest.drop n)

theorem takeBytes_append {n : Nat} {first : Bytes} (hlength : first.length = n)
    (rest : Bytes) : takeBytes n (first ++ rest) = .ok (first, rest) := by
  subst hlength
  simp [takeBytes]

@[simp] theorem leBytes_length (width x : Nat) : (leBytes width x).length = width := by
  induction width generalizing x with
  | zero => rfl
  | succ width ih => rw [leBytes, List.length_cons, ih]

theorem leNat_leBytes {width x : Nat} (hx : x < 256 ^ width) : leNat (leBytes width x) = x := by
  induction width generalizing x with
  | zero =>
    rw [leBytes, leNat]
    omega
  | succ width ih =>
    rw [leBytes, leNat, ih (Nat.div_lt_of_lt_mul (by omega)), UInt8.toNat_ofNat']
    omega

theorem leNat_lt (b : Bytes) : leNat b < 256 ^ b.length := by
  induction b with
  | nil => simp [leNat]
  | cons x rest ih =>
    have hx := x.toNat_lt
    rw [leNat, List.length_cons, Nat.pow_succ]
    omega

theorem leBytes_leNat (b : Bytes) : leBytes b.length (leNat b) = b := by
  induction b with
  | nil => rfl
  | cons x rest ih =>
    have hx := x.toNat_lt
    have hdiv : (x.toNat + 256 * leNat rest) / 256 = leNat rest := by omega
    have hfirst : UInt8.ofNat (x.toNat + 256 * leNat rest) = x := by
      rw [← UInt8.toNat_inj, UInt8.toNat_ofNat']
      omega
    rw [leNat, List.length_cons, leBytes, hdiv, ih, hfirst]

theorem leBytes_inj {width x y : Nat} (hx : x < 256 ^ width) (hy : y < 256 ^ width)
    (hbytes : leBytes width x = leBytes width y) : x = y := by
  rw [← leNat_leBytes hx, hbytes, leNat_leBytes hy]

end OnChainPoker.Foundation
