import OnChainPoker.Foundation.Bytes

/-!
# Framed encodings

An encoding is framed if it can be read off the front of a byte string: whatever
follows, the bytes tell the value and where its encoding ends.  A concatenation of
framed fields is taken apart one field at a time.
-/

namespace OnChainPoker.Foundation

variable {α β : Type*} {valid : α → Prop} {encode : α → Bytes}

/-- Values that meet `valid` can be read off the front of a byte string. -/
def Framed (valid : α → Prop) (encode : α → Bytes) : Prop :=
  ∀ ⦃x y : α⦄, valid x → valid y → ∀ ⦃rest rest' : Bytes⦄,
    encode x ++ rest = encode y ++ rest' → x = y ∧ rest = rest'

theorem Framed.comp (h : Framed valid encode) {f : β → α} (hf : Function.Injective f) :
    Framed (fun b => valid (f b)) (fun b => encode (f b)) := by
  intro x y hx hy rest rest' hbytes
  obtain ⟨hvalue, hrest⟩ := h hx hy hbytes
  exact ⟨hf hvalue, hrest⟩

theorem Framed.pair (h : Framed valid encode) {valid' : β → Prop} {encode' : β → Bytes}
    (h' : Framed valid' encode') : Framed (fun p : α × β => valid p.1 ∧ valid' p.2)
      (fun p => encode p.1 ++ encode' p.2) := by
  rintro ⟨x, x'⟩ ⟨y, y'⟩ ⟨hx, hx'⟩ ⟨hy, hy'⟩ rest rest' hbytes
  simp only [List.append_assoc] at hbytes
  obtain ⟨rfl, htail⟩ := h hx hy hbytes
  obtain ⟨rfl, hrest⟩ := h' hx' hy' htail
  exact ⟨rfl, hrest⟩

theorem framed_leBytes (width : Nat) : Framed (· < 256 ^ width) (leBytes width) := by
  intro x y hx hy rest rest' hbytes
  obtain ⟨hfirst, hrest⟩ := List.append_inj hbytes (by simp)
  exact ⟨leBytes_inj hx hy hfirst, hrest⟩

theorem framed_leInt64 : Framed (fun x : Int => -2 ^ 63 ≤ x ∧ x < 2 ^ 63) leInt64 := by
  intro x y hx hy rest rest' hbytes
  have hrange (z : Int) : (z % 2 ^ 64).toNat < 256 ^ 8 := by omega
  obtain ⟨hvalue, hrest⟩ := framed_leBytes 8 (hrange x) (hrange y) hbytes
  exact ⟨by omega, hrest⟩

theorem framed_bytes (width : Nat) : Framed (fun b : Bytes => b.length < 256 ^ width)
    (fun b => leBytes width b.length ++ b) := by
  intro x y hx hy rest rest' hbytes
  simp only [List.append_assoc] at hbytes
  obtain ⟨hlength, hbytes⟩ := framed_leBytes width hx hy hbytes
  exact List.append_inj hbytes hlength

theorem Framed.flatMap (h : Framed valid encode) {l l' : List α}
    (hl : ∀ x ∈ l, valid x) (hl' : ∀ x ∈ l', valid x) (hlength : l.length = l'.length)
    {rest rest' : Bytes} (hbytes : l.flatMap encode ++ rest = l'.flatMap encode ++ rest') :
    l = l' ∧ rest = rest' := by
  induction l generalizing l' with
  | nil =>
    cases List.length_eq_zero_iff.mp hlength.symm
    exact ⟨rfl, hbytes⟩
  | cons x l ih =>
    obtain ⟨y, l', rfl⟩ := List.exists_cons_of_length_eq_add_one hlength.symm
    simp only [List.flatMap_cons, List.append_assoc] at hbytes
    obtain ⟨rfl, htail⟩ := h (hl x List.mem_cons_self) (hl' y List.mem_cons_self) hbytes
    obtain ⟨rfl, hrest⟩ := ih (fun z hz => hl z (List.mem_cons_of_mem x hz))
      (fun z hz => hl' z (List.mem_cons_of_mem x hz)) (Nat.succ.inj hlength) htail
    exact ⟨rfl, hrest⟩

theorem Framed.list (h : Framed valid encode) (width : Nat) :
    Framed (fun l : List α => l.length < 256 ^ width ∧ ∀ x ∈ l, valid x)
      (fun l => leBytes width l.length ++ l.flatMap encode) := by
  rintro l l' ⟨hl, hvalid⟩ ⟨hl', hvalid'⟩ rest rest' hbytes
  simp only [List.append_assoc] at hbytes
  obtain ⟨hlength, hbytes⟩ := framed_leBytes width hl hl' hbytes
  exact h.flatMap hvalid hvalid' hlength hbytes

theorem stringBytes_injective : Function.Injective stringBytes := by
  intro s s' hbytes
  exact String.toByteArray_inj.mp (ByteArray.ext (Array.toList_inj.mp hbytes))

end OnChainPoker.Foundation
