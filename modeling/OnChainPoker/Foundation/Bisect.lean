import Mathlib.Data.List.Sort

/-!
# Sorted lists as sets

A set kept as a strictly increasing list: membership is a comparison at the
position where the element belongs, and insertion happens at that position.
-/

namespace OnChainPoker.Foundation

variable {α : Type*} [LinearOrder α]

def bisect (l : List α) (x : α) : Nat := l.findIdx fun a => decide (x ≤ a)

theorem bisect_cons (a : α) (l : List α) (x : α) :
    bisect (a :: l) x = if x ≤ a then 0 else bisect l x + 1 := by
  by_cases hle : x ≤ a <;> simp [bisect, List.findIdx_cons, hle]

theorem getElem?_bisect_eq_some_iff {l : List α} (hsorted : l.Pairwise (· < ·))
    (x : α) : l[bisect l x]? = some x ↔ x ∈ l := by
  induction l with
  | nil => simp
  | cons a rest ih =>
    obtain ⟨hfirst, hrest⟩ := List.pairwise_cons.mp hsorted
    rw [bisect_cons]
    by_cases hle : x ≤ a
    · have habove : x ∉ rest := fun hmem => absurd (hfirst x hmem) (not_lt.mpr hle)
      simp [hle, habove, eq_comm]
    · have hne : x ≠ a := fun heq => hle heq.le
      simp [hle, ih hrest, hne]

theorem mem_insertIdx_bisect {l : List α} {x y : α} :
    y ∈ l.insertIdx (bisect l x) x ↔ y = x ∨ y ∈ l := by
  have hle : bisect l x ≤ l.length := List.findIdx_le_length
  exact List.mem_insertIdx hle

theorem pairwise_insertIdx_bisect {l : List α} (hsorted : l.Pairwise (· < ·))
    {x : α} (hfresh : x ∉ l) :
    (l.insertIdx (bisect l x) x).Pairwise (· < ·) := by
  induction l with
  | nil => simp [bisect]
  | cons a rest ih =>
    obtain ⟨hfirst, hrest⟩ := List.pairwise_cons.mp hsorted
    obtain ⟨hne, hfresh⟩ := not_or.mp (mt List.mem_cons.mpr hfresh)
    rw [bisect_cons]
    by_cases hle : x ≤ a
    · have hlt : x < a := lt_of_le_of_ne hle hne
      rw [if_pos hle, List.insertIdx_zero, List.pairwise_cons]
      refine ⟨fun b hb => ?_, hsorted⟩
      rcases List.mem_cons.mp hb with rfl | hb
      · exact hlt
      · exact hlt.trans (hfirst b hb)
    · rw [if_neg hle, List.insertIdx_succ_cons, List.pairwise_cons]
      refine ⟨fun b hb => ?_, ih hrest hfresh⟩
      rcases mem_insertIdx_bisect.mp hb with rfl | hb
      · exact not_le.mp hle
      · exact hfirst b hb

end OnChainPoker.Foundation
