import Mathlib.Algebra.Ring.Nat
import Mathlib.Data.Finset.Max
import Mathlib.Data.Fintype.Card
import Mathlib.Data.List.FinRange

/-!
# Searching around a circle

`n` places on a circle.  A search starts behind a place and visits all places
once, that place last.  `gap start i` is how many places it passes on its way to
`i`; the search finds the place with the smallest gap among those it looks for.
Searching again and again behind the last find visits all of them in turn.
-/

namespace OnChainPoker.Foundation.Circle

variable {n : Nat}

/-- The places between `start` and `i` in the direction of the search. -/
def gap (start i : Fin n) : Nat :=
  if start.val < i.val then i.val - start.val - 1
  else i.val + n - start.val - 1

theorem gap_cases (start i : Fin n) : (start.val < i.val ∧ gap start i + start.val + 1 = i.val) ∨
      (i.val ≤ start.val ∧ gap start i + start.val + 1 = i.val + n) := by
  have hs := start.isLt
  unfold gap
  split <;> omega

theorem gap_lt (start i : Fin n) : gap start i < n := by
  have hi := i.isLt
  rcases gap_cases start i with hcase | hcase <;> omega

theorem gap_self (start : Fin n) : gap start start = n - 1 := by
  rcases gap_cases start start with hcase | hcase <;> omega

theorem gap_injective (start : Fin n) : Function.Injective (gap start) := by
  intro i j hsame
  have hi := i.isLt
  have hj := j.isLt
  ext
  rcases gap_cases start i with hcase | hcase <;>
    rcases gap_cases start j with hcase' | hcase' <;> omega

variable {start i j last : Fin n} {p : Fin n → Bool} {earlier : List (Fin n)}

theorem gap_add {middle : Fin n} (hpast : gap start middle < gap start i) :
    gap start i = gap start middle + gap middle i + 1 := by
  have hm := middle.isLt
  rcases gap_cases start middle with hfirst | hfirst <;>
    rcases gap_cases start i with hsecond | hsecond <;>
    rcases gap_cases middle i with hthird | hthird <;> omega

variable [NeZero n]

def round (start : Fin n) : List (Fin n) :=
  (List.finRange n).map fun step => start + step + 1

def next (p : Fin n → Bool) (start : Fin n) : Option (Fin n) := (round start).find? p

theorem gap_step (start step : Fin n) : gap start (start + step + 1) = step.val := by
  have hs := start.isLt
  have hstep := step.isLt
  have hval : (start + step + 1).val = (start.val + step.val + 1) % n := by simp [Fin.val_add]
  have hmod : (start + step + 1).val = start.val + step.val + 1 ∨
      (start + step + 1).val + n = start.val + step.val + 1 := by
    rw [hval]
    by_cases hlt : start.val + step.val + 1 < n
    · exact Or.inl (Nat.mod_eq_of_lt hlt)
    · right
      rw [Nat.mod_eq_sub_mod (by omega), Nat.mod_eq_of_lt (by omega)]
      omega
  rcases gap_cases start (start + step + 1) with hcase | hcase <;> omega

theorem mem_round (start i : Fin n) : i ∈ round start := by
  apply List.mem_map.mpr
  refine ⟨⟨gap start i, gap_lt start i⟩, List.mem_finRange _, ?_⟩
  apply gap_injective start
  rw [gap_step]

theorem next_isSome (start : Fin n) (hi : p i = true) : ∃ k, next p start = some k := by
  rw [← Option.isSome_iff_exists, next, List.find?_isSome]
  exact ⟨i, mem_round start i, hi⟩

theorem round_getElem (start : Fin n) {m : Nat} (hm : m < (round start).length) :
    gap start (round start)[m] = m := by
  simp only [round, List.getElem_map, List.getElem_finRange]
  rw [gap_step]
  rfl

theorem next_eq_some_iff {k : Fin n} :
    next p start = some k ↔ p k = true ∧ ∀ j, p j = true → gap start k ≤ gap start j := by
  have hlength : (round start).length = n := by simp [round]
  have hat : ∀ j, ∃ hj : gap start j < (round start).length, (round start)[gap start j] = j := by
    intro j
    have hj : gap start j < (round start).length := by
      rw [hlength]
      exact gap_lt start j
    refine ⟨hj, gap_injective start ?_⟩
    rw [round_getElem]
  rw [next, List.find?_eq_some_iff_getElem]
  constructor
  · rintro ⟨hk, m, hm, hget, hbefore⟩
    have hgap : gap start k = m := by rw [← hget, round_getElem]
    refine ⟨hk, ?_⟩
    intro j hj
    by_contra hlt
    obtain ⟨hlen, hgetj⟩ := hat j
    have hnot := hbefore (gap start j) (by omega)
    rw [hgetj, hj] at hnot
    cases hnot
  · rintro ⟨hk, hnearest⟩
    obtain ⟨hlen, hgetk⟩ := hat k
    refine ⟨hk, gap start k, hlen, hgetk, ?_⟩
    intro m hm
    rw [Bool.not_eq_true']
    by_contra hp
    rw [Bool.not_eq_false] at hp
    have hle := hnearest _ hp
    rw [round_getElem] at hle
    omega

/-! ## Going round -/

theorem mem_of_next_mem {places : Finset (Fin n)} (hsome : places.Nonempty)
    (hclosed : ∀ i ∈ places, ∃ k ∈ places, next p i = some k) (hj : p j = true) :
    j ∈ places := by
  obtain ⟨i, hi, hleast⟩ := places.exists_min_image (gap · j) hsome
  obtain ⟨k, hk, hnext⟩ := hclosed i hi
  by_contra hnot
  have hnearest := (next_eq_some_iff.mp hnext).2 j hj
  have hne : gap i k ≠ gap i j := by
    intro hsame
    apply hnot
    rwa [← gap_injective i hsame]
  have hsplit := gap_add (Nat.lt_of_le_of_ne hnearest hne)
  have hmin := hleast k hk
  omega

/-- Finds in turn, the latest at the head: each is what the search behind the one
before it finds. -/
def Successive (p : Fin n → Bool) (finds : List (Fin n)) : Prop :=
  finds.IsChain fun later earlier => next p earlier = some later

theorem Successive.next_mem (hchain : Successive p (last :: earlier)) (hi : i ∈ earlier) :
    ∃ k ∈ last :: earlier, next p i = some k := by
  induction earlier generalizing last with
  | nil => cases hi
  | cons before earlier ih =>
    obtain ⟨hnext, hrest⟩ := List.isChain_cons_cons.mp hchain
    rcases List.mem_cons.mp hi with rfl | hi
    · exact ⟨last, List.mem_cons_self, hnext⟩
    · obtain ⟨k, hk, hfound⟩ := ih hrest hi
      exact ⟨k, List.mem_cons_of_mem _ hk, hfound⟩

theorem Successive.next_last_mem (hchain : Successive p (last :: earlier))
    (htwice : ¬ (last :: earlier).Nodup) :
    ∃ k ∈ last :: earlier, next p last = some k := by
  induction earlier generalizing last with
  | nil => exact absurd (List.nodup_singleton last) htwice
  | cons before earlier ih =>
    by_cases hagain : last ∈ before :: earlier
    · exact hchain.next_mem hagain
    · obtain ⟨hnext, hrest⟩ := List.isChain_cons_cons.mp hchain
      have hrepeat : ¬ (before :: earlier).Nodup := fun hnodup =>
        htwice (List.nodup_cons.mpr ⟨hagain, hnodup⟩)
      obtain ⟨k, hk, hfound⟩ := ih hrest hrepeat
      rw [hnext] at hfound
      cases hfound
      exact absurd hk hagain

theorem Successive.count_eq_one {finds : List (Fin n)} (hchain : Successive p finds)
    (hfound : ∀ i ∈ finds, p i = true)
    (hlength : finds.length = (Finset.univ.filter (p · = true)).card) (hj : p j = true) :
    finds.count j = 1 := by
  have hsub : finds.toFinset ⊆ Finset.univ.filter (p · = true) := by
    intro i hi
    simpa using hfound i (List.mem_toFinset.mp hi)
  have hall : finds.Nodup → j ∈ finds := by
    intro hnodup
    have hcard : (Finset.univ.filter (p · = true)).card ≤ finds.toFinset.card := by
      rw [List.toFinset_card_of_nodup hnodup, hlength]
    have hmem : j ∈ Finset.univ.filter (p · = true) := by simpa using hj
    rw [← Finset.eq_of_subset_of_card_le hsub hcard] at hmem
    exact List.mem_toFinset.mp hmem
  have hnodup : finds.Nodup := by
    by_contra htwice
    cases finds with
    | nil => exact htwice List.nodup_nil
    | cons last earlier =>
      -- the finds are then closed under the search, so they are all places
      have hcover : Finset.univ.filter (p · = true) ⊆ (last :: earlier).toFinset := by
        intro i hi
        apply mem_of_next_mem ⟨last, by simp⟩ _ (Finset.mem_filter.mp hi).2
        intro place hplace
        obtain ⟨k, hk, hnext⟩ : ∃ k ∈ last :: earlier,
            next p place = some k := by
          rcases List.mem_cons.mp (List.mem_toFinset.mp hplace) with rfl | htail
          · exact hchain.next_last_mem htwice
          · exact hchain.next_mem htail
        exact ⟨k, List.mem_toFinset.mpr hk, hnext⟩
      have hle := Finset.card_le_card hcover
      rw [← hlength] at hle
      have hcard := Nat.le_antisymm (List.toFinset_card_le _) hle
      exact htwice (Multiset.toFinset_card_eq_card_iff_nodup.mp hcard)
  exact List.count_eq_one_of_mem hnodup (hall hnodup)

end OnChainPoker.Foundation.Circle
