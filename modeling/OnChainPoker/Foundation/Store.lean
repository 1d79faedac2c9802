import Mathlib.Algebra.Ring.Nat
import Mathlib.Data.List.AList
import Mathlib.Algebra.BigOperators.Group.List.Basic

/-!
# Finite key-value stores

A store is an association list without duplicate keys.  `Store.total` sums a
weight over all stored values; replacing one value changes the total by exactly
the difference of the two weights.
-/

namespace OnChainPoker.Foundation

universe u v

abbrev Store (K : Type u) (V : Type v) := AList fun _ : K => V

namespace Store

variable {K : Type u} {V : Type v}

def total (weight : V → Nat) (s : Store K V) : Nat :=
  (s.entries.map fun entry => weight entry.2).sum

variable [DecidableEq K]

private theorem sum_kerase (weight : V → Nat) (key : K) (entries : List ((_ : K) × V)) :
    ((entries.kerase key).map fun entry => weight entry.2).sum +
        ((entries.dlookup key).elim 0 weight) =
      (entries.map fun entry => weight entry.2).sum := by
  induction entries with
  | nil => rfl
  | cons entry rest ih =>
    obtain ⟨key', value⟩ := entry
    by_cases hkey : key = key'
    · subst hkey
      simp [List.kerase_cons_eq, List.dlookup_cons_eq, Nat.add_comm]
    · rw [List.kerase_cons_ne hkey, List.dlookup_cons_ne _ _ (by simpa)]
      simp only [List.map_cons, List.sum_cons]
      omega

theorem total_insert (weight : V → Nat) (s : Store K V) (key : K) (value : V) :
    total weight (s.insert key value) + (s.lookup key).elim 0 weight =
      total weight s + weight value := by
  have herase := sum_kerase weight key s.entries
  simp only [total, AList.lookup, AList.entries_insert, List.map_cons, List.sum_cons] at herase ⊢
  omega

theorem weight_le_total (weight : V → Nat) {s : Store K V} {key : K} {value : V}
    (hlookup : s.lookup key = some value) : weight value ≤ total weight s := by
  have herase := sum_kerase weight key s.entries
  have hentry : s.entries.dlookup key = some value := hlookup
  rw [hentry, Option.elim_some] at herase
  unfold total
  omega

end Store

theorem find?_key_of_mem {Row Key : Type*} [DecidableEq Key] {key : Row → Key}
    {rows : List Row} (hdistinct : (rows.map key).Nodup) {row : Row} (hrow : row ∈ rows) :
    rows.find? (fun r => key r = key row) = some row := by
  have hsome : (rows.find? fun r => key r = key row).isSome := by
    rw [List.find?_isSome]
    exact ⟨row, hrow, by simp⟩
  obtain ⟨found, hfound⟩ := Option.isSome_iff_exists.mp hsome
  have hkey : key found = key row := by simpa using List.find?_some hfound
  rw [hfound, List.inj_on_of_nodup_map hdistinct (List.mem_of_find?_eq_some hfound) hrow hkey]

end OnChainPoker.Foundation
