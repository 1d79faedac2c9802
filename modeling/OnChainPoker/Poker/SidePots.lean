import Mathlib.Order.Lattice.Nat
import Mathlib.Algebra.Order.BigOperators.Group.List
import OnChainPoker.Poker.Chips

/-!
# What the side pots hold

The tiers partition the commitments: together they hold every committed chip,
and the part of them that no seat may win is what was committed beyond the
largest commitment of an eligible seat.  The eligible seats of a pot are among
those of every earlier pot.
-/

namespace OnChainPoker.Poker

open Foundation

variable {remaining : List Rem} {passes : Nat} {merged merged' pots : List SidePot}

def potSum (select : List SeatIdx → Bool) (pots : List SidePot) : Nat :=
  (pots.map fun p => if select p.eligibleSeats then p.amount else 0).sum

def amountSum (remaining : List Rem) : Nat := (remaining.map (·.amount)).sum

def eligibleMax (remaining : List Rem) : Nat :=
  (remaining.map fun r => if r.eligible then r.amount else 0).foldr max 0

def Nested (pots : List SidePot) : Prop :=
  pots.Pairwise fun earlier later =>
    later.eligibleSeats.Sublist earlier.eligibleSeats

/-! ## One tier -/

theorem foldl_min_le (rest : List Rem) (start : Nat) :
    rest.foldl (fun m r => min m r.amount) start ≤ start ∧
      ∀ r ∈ rest, rest.foldl (fun m r => min m r.amount) start ≤ r.amount := by
  induction rest generalizing start with
  | nil => simp
  | cons r rest ih =>
    obtain ⟨hstart, hrest⟩ := ih (min start r.amount)
    simp only [List.foldl_cons, List.mem_cons, forall_eq_or_imp]
    exact ⟨by omega, by omega, hrest⟩

variable {r : Rem} {p : SidePot} {tiers : List SidePot} {totalCommit : SeatIdx → Nat}
  {eligible : SeatIdx → Bool}

theorem minAmount_le (hr : r ∈ remaining) : minAmount remaining ≤ r.amount := by
  cases remaining with
  | nil => simp at hr
  | cons first rest =>
    obtain ⟨hfirst, hrest⟩ := foldl_min_le rest first.amount
    rcases List.mem_cons.mp hr with rfl | hr
    · exact hfirst
    · exact hrest r hr

theorem foldl_min_attained (rest : List Rem) (start : Nat) :
    rest.foldl (fun m r => min m r.amount) start = start ∨
      ∃ r ∈ rest, r.amount = rest.foldl (fun m r => min m r.amount) start := by
  induction rest generalizing start with
  | nil => simp
  | cons r rest ih =>
    simp only [List.foldl_cons, List.mem_cons, exists_eq_or_imp]
    rcases ih (min start r.amount) with hstart | hlater
    · rcases Nat.le_total start r.amount with hle | hle
      · rw [hstart, Nat.min_eq_left hle]
        exact Or.inl rfl
      · rw [hstart, Nat.min_eq_right hle]
        exact Or.inr (Or.inl rfl)
    · exact Or.inr (Or.inr hlater)

theorem minAmount_attained (hne : remaining ≠ []) :
    ∃ r ∈ remaining, r.amount = minAmount remaining := by
  cases remaining with
  | nil => contradiction
  | cons first rest =>
    rcases foldl_min_attained rest first.amount with hfirst | ⟨r, hr, hmin⟩
    · exact ⟨first, by simp, hfirst.symm⟩
    · exact ⟨r, by simp [hr], hmin⟩

theorem sum_sliceTier (weight : Nat → Nat) (hzero : weight 0 = 0)
    (minimum : Nat) (remaining : List Rem) :
    ((sliceTier minimum remaining).map fun r => weight r.amount).sum =
      (remaining.map fun r => weight (r.amount - minimum)).sum := by
  induction remaining with
  | nil => rfl
  | cons r rest ih =>
    simp only [sliceTier, List.map_cons, List.sum_cons] at ih ⊢
    by_cases hr : 0 < r.amount - minimum
    · simp [hr, ih]
    · have hzero' : r.amount - minimum = 0 := by omega
      simp [hzero', hzero, ih]

theorem eligibleMax_sliceTier (minimum : Nat) (remaining : List Rem) :
    eligibleMax (sliceTier minimum remaining) = eligibleMax remaining - minimum := by
  induction remaining with
  | nil => simp [eligibleMax, sliceTier]
  | cons r rest ih =>
    simp only [eligibleMax, sliceTier, List.map_cons, List.foldr_cons] at ih ⊢
    by_cases hr : 0 < r.amount - minimum
    · simp only [hr, decide_true, List.filter_cons_of_pos, List.map_cons, List.foldr_cons, ih]
      split <;> omega
    · simp only [hr, decide_false, Bool.false_eq_true, not_false_eq_true,
        List.filter_cons_of_neg, ih]
      split <;> omega

theorem length_sliceTier_lt (hne : remaining ≠ []) :
    (sliceTier (minAmount remaining) remaining).length < remaining.length := by
  obtain ⟨r, hr, hmin⟩ := minAmount_attained hne
  have hlt := List.length_filter_lt_length_iff_exists
    (p := fun r : Rem => decide (0 < r.amount))
    (l := remaining.map fun r => { r with amount := r.amount - minAmount remaining })
  rw [List.length_map] at hlt
  refine hlt.mpr ⟨{ r with amount := r.amount - minAmount remaining }, ?_, ?_⟩
  · exact List.mem_map.mpr ⟨r, hr, rfl⟩
  · simp [hmin]

theorem amountSum_split {minimum : Nat} (hmin : ∀ r ∈ remaining, minimum ≤ r.amount) :
    amountSum remaining = minimum * remaining.length + amountSum (sliceTier minimum remaining) := by
  have hslice := sum_sliceTier id rfl minimum remaining
  simp only [id] at hslice
  simp only [amountSum, hslice]
  clear hslice
  induction remaining with
  | nil => rfl
  | cons r rest ih =>
    have hr := hmin r (by simp)
    have hrest := ih fun r hr => hmin r (by simp [hr])
    simp only [List.map_cons, List.sum_cons, List.length_cons, Nat.mul_add]
    omega

theorem eligibleRems_sliceTier (minimum : Nat) (remaining : List Rem) :
    (eligibleRems (sliceTier minimum remaining)).Sublist (eligibleRems remaining) := by
  induction remaining with
  | nil => exact List.Sublist.slnil
  | cons r rest ih =>
    simp only [eligibleRems, sliceTier, List.map_cons] at ih ⊢
    by_cases hr : 0 < r.amount - minimum
    · cases he : r.eligible with
      | true => simpa [hr, he] using ih.cons_cons r.seat
      | false => simpa [hr, he] using ih
    · cases he : r.eligible with
      | true => simpa [hr, he] using ih.cons r.seat
      | false => simpa [hr, he] using ih

theorem eligibleMax_of_none (hnone : eligibleRems remaining = []) : eligibleMax remaining = 0 := by
  induction remaining with
  | nil => rfl
  | cons r rest ih =>
    cases he : r.eligible with
    | true => simp [eligibleRems, he] at hnone
    | false =>
      have hrest : eligibleRems rest = [] := by simpa [eligibleRems, he] using hnone
      simpa [eligibleMax, he] using ih hrest

theorem le_eligibleMax (hr : r ∈ remaining) (heligible : r.eligible = true) :
    r.amount ≤ eligibleMax remaining := by
  induction remaining with
  | nil => simp at hr
  | cons first rest ih =>
    simp only [eligibleMax, List.map_cons, List.foldr_cons] at ih ⊢
    rcases List.mem_cons.mp hr with rfl | hr
    · simp [heligible]
    · exact le_trans (ih hr) (Nat.le_max_right _ _)

theorem minAmount_le_eligibleMax (hsome : eligibleRems remaining ≠ []) :
    minAmount remaining ≤ eligibleMax remaining := by
  obtain ⟨seat, hseat⟩ := List.exists_mem_of_ne_nil _ hsome
  simp only [eligibleRems, List.mem_map, List.mem_filter] at hseat
  obtain ⟨r, ⟨hr, heligible⟩, _⟩ := hseat
  exact le_trans (minAmount_le hr) (le_eligibleMax hr heligible)

/-! ## All tiers -/

@[simp] theorem potSum_nil (select : List SeatIdx → Bool) : potSum select [] = 0 := rfl

theorem potSum_cons (select : List SeatIdx → Bool) (p : SidePot) (pots : List SidePot) :
    potSum select (p :: pots) =
      (if select p.eligibleSeats then p.amount else 0) + potSum select pots :=
  rfl

theorem potsByTier_cons (hne : remaining ≠ [])
    (hok : potsByTier (passes + 1) remaining = .ok pots) :
    ∃ rest, potsByTier passes (sliceTier (minAmount remaining) remaining) = .ok rest ∧
      pots = ⟨minAmount remaining * remaining.length, eligibleRems remaining⟩ :: rest := by
  cases remaining with
  | nil => contradiction
  | cons first tail =>
    simp only [potsByTier, ok_iff] at hok
    obtain ⟨potAmount, hmul, rest, hrest, hpots⟩ := hok
    have hmul := mulUint64Checked_ok hmul
    subst hmul
    exact ⟨rest, hrest, hpots.symm⟩

/-- The tiers hold every chip, and the tiers without an eligible seat hold what
exceeds the largest eligible amount. -/
theorem potsByTier_spec (hpasses : remaining.length ≤ passes)
    (hok : potsByTier passes remaining = .ok pots) :
    potSum (fun _ => true) pots = amountSum remaining ∧
      potSum List.isEmpty pots = (remaining.map fun r => r.amount - eligibleMax remaining).sum := by
  induction passes generalizing remaining pots with
  | zero =>
    have hnil : remaining = [] := List.length_eq_zero_iff.mp (by omega)
    subst hnil
    cases hok
    exact ⟨rfl, rfl⟩
  | succ passes ih =>
    by_cases hne : remaining = []
    · subst hne
      cases hok
      exact ⟨rfl, rfl⟩
    · obtain ⟨rest, hrest, rfl⟩ := potsByTier_cons hne hok
      have hlen := length_sliceTier_lt hne
      obtain ⟨hall, hempty⟩ := ih (by omega) hrest
      have hsplit : amountSum remaining = _ := amountSum_split fun r hr => minAmount_le hr
      rw [eligibleMax_sliceTier, sum_sliceTier (fun a => a - (eligibleMax remaining - minAmount
        remaining)) (by simp)] at hempty
      refine ⟨?_, ?_⟩
      · rw [potSum_cons, hall, hsplit]
        simp
      · rw [potSum_cons, hempty]
        by_cases hnone : eligibleRems remaining = []
        · rw [eligibleMax_of_none hnone]
          have hslice := sum_sliceTier id rfl (minAmount remaining) remaining
          simp only [amountSum, id] at hsplit hslice
          simp only [hnone, List.isEmpty_nil, if_true, Nat.zero_sub, Nat.sub_zero]
          omega
        · have hmin := minAmount_le_eligibleMax hnone
          simp only [List.isEmpty_iff, hnone, if_false, Nat.zero_add]
          congr 1
          apply List.map_congr_left
          intro r _
          omega

theorem potsByTier_eligible (hok : potsByTier passes remaining = .ok pots) :
    ∀ p ∈ pots, p.eligibleSeats.Sublist (eligibleRems remaining) := by
  induction passes generalizing remaining pots with
  | zero =>
    cases hok
    simp
  | succ passes ih =>
    by_cases hne : remaining = []
    · subst hne
      cases hok
      simp
    · obtain ⟨rest, hrest, rfl⟩ := potsByTier_cons hne hok
      intro p hp
      rcases List.mem_cons.mp hp with rfl | hp
      · exact List.Sublist.refl _
      · exact List.Sublist.trans (ih hrest p hp) (eligibleRems_sliceTier _ _)

theorem potsByTier_nested (hok : potsByTier passes remaining = .ok pots) : Nested pots := by
  induction passes generalizing remaining pots with
  | zero =>
    cases hok
    exact List.Pairwise.nil
  | succ passes ih =>
    by_cases hne : remaining = []
    · subst hne
      cases hok
      exact List.Pairwise.nil
    · obtain ⟨rest, hrest, rfl⟩ := potsByTier_cons hne hok
      refine List.Pairwise.cons ?_ (ih hrest)
      intro p hp
      exact List.Sublist.trans (potsByTier_eligible hrest p hp) (eligibleRems_sliceTier _ _)

/-! ## Merging -/

theorem mergeTier_spec (hok : mergeTier merged p = .ok merged') :
    (∀ select, potSum select merged' = potSum select merged + potSum select [p]) ∧
      merged'.map (·.eligibleSeats) =
        (if (merged.head?.map (·.eligibleSeats)) = some p.eligibleSeats then []
          else [p.eligibleSeats]) ++ merged.map (·.eligibleSeats) := by
  cases merged with
  | nil =>
    cases hok
    simp
  | cons last earlier =>
    simp only [mergeTier] at hok
    split at hok
    · rename_i hsame
      simp only [ok_iff] at hok
      obtain ⟨nextAmt, hadd, rfl⟩ := hok
      have hadd := addUint64Checked_ok hadd
      refine ⟨?_, by simp [hsame]⟩
      intro select
      simp only [potSum_cons, potSum_nil, hsame]
      split <;> omega
    · rename_i hdiffer
      cases hok
      refine ⟨?_, by simp [hdiffer]⟩
      intro select
      simp only [potSum_cons, potSum_nil]
      omega

section

variable (hok : tiers.foldlM mergeTier merged = .ok merged')
include hok

theorem mergeTiers_potSum (select : List SeatIdx → Bool) :
    potSum select merged' = potSum select merged + potSum select tiers := by
  induction tiers generalizing merged with
  | nil =>
    cases hok
    rfl
  | cons p rest ih =>
    rw [List.foldlM_cons, bind_ok_iff] at hok
    obtain ⟨next, hmerge, hrest⟩ := hok
    rw [ih hrest, (mergeTier_spec hmerge).1 select, potSum_cons, potSum_cons, potSum_nil]
    omega

theorem mergeTiers_nested (hnested : Nested tiers)
    (hmerged : (merged.map (·.eligibleSeats)).Pairwise List.Sublist)
    (hnext : ∀ p ∈ tiers, ∀ seats ∈ merged.map (·.eligibleSeats), p.eligibleSeats.Sublist seats) :
    (merged'.map (·.eligibleSeats)).Pairwise List.Sublist := by
  induction tiers generalizing merged with
  | nil =>
    cases hok
    exact hmerged
  | cons p rest ih =>
    rw [List.foldlM_cons, bind_ok_iff] at hok
    obtain ⟨next, hmerge, hrest⟩ := hok
    obtain ⟨hlater, hnested⟩ := List.pairwise_cons.mp hnested
    have hhead := hnext p (by simp)
    have hmap := (mergeTier_spec hmerge).2
    refine ih hrest hnested ?_ ?_
    · rw [hmap]
      split
      · exact hmerged
      · exact List.pairwise_cons.mpr ⟨hhead, hmerged⟩
    · intro q hq seats hseats
      rw [hmap] at hseats
      split at hseats
      · exact hnext q (by simp [hq]) seats hseats
      · rcases List.mem_cons.mp hseats with rfl | hseats
        · exact hlater q hq
        · exact hnext q (by simp [hq]) seats hseats

theorem mergeTiers_eligible (hp : p ∈ merged') : (∃ q ∈ merged, q.eligibleSeats = p.eligibleSeats) ∨
      ∃ q ∈ tiers, q.eligibleSeats = p.eligibleSeats := by
  induction tiers generalizing merged with
  | nil =>
    cases hok
    exact Or.inl ⟨p, hp, rfl⟩
  | cons tier rest ih =>
    rw [List.foldlM_cons, bind_ok_iff] at hok
    obtain ⟨next, hmerge, hrest⟩ := hok
    rcases ih hrest with ⟨q, hq, hsame⟩ | ⟨q, hq, hsame⟩
    · have hmem : q.eligibleSeats ∈ next.map (·.eligibleSeats) := List.mem_map.mpr ⟨q, hq, rfl⟩
      rw [(mergeTier_spec hmerge).2, List.mem_append] at hmem
      rcases hmem with hnew | hold
      · refine Or.inr ⟨tier, by simp, ?_⟩
        split at hnew
        · simp at hnew
        · rw [← hsame]
          exact (List.mem_singleton.mp hnew).symm
      · obtain ⟨q', hq', hsame'⟩ := List.mem_map.mp hold
        exact Or.inl ⟨q', hq', hsame'.trans hsame⟩
    · exact Or.inr ⟨q, by simp [hq], hsame⟩

end

/-! ## The pots of a hand -/

def liveMax (totalCommit : SeatIdx → Nat) (eligible : SeatIdx → Bool) : Nat :=
  Finset.univ.sup fun i => if eligible i then totalCommit i else 0

/-- The chips that no seat can win: what exceeds the largest live commitment. -/
def strandedChips (totalCommit : SeatIdx → Nat) (eligible : SeatIdx → Bool) : Nat :=
  ∑ i, (totalCommit i - liveMax totalCommit eligible)

theorem eligibleMax_le_iff {bound : Nat} :
    eligibleMax remaining ≤ bound ↔ ∀ r ∈ remaining, r.eligible = true → r.amount ≤ bound := by
  induction remaining with
  | nil => simp [eligibleMax]
  | cons r rest ih =>
    simp only [eligibleMax, List.map_cons, List.foldr_cons] at ih ⊢
    rw [Nat.max_le, ih]
    cases he : r.eligible <;> simp [he]

theorem eligibleMax_remainingCommits (totalCommit : SeatIdx → Nat) (eligible : SeatIdx → Bool) :
    eligibleMax (remainingCommits totalCommit eligible) = liveMax totalCommit eligible := by
  apply eq_of_forall_ge_iff
  intro bound
  rw [eligibleMax_le_iff, liveMax, Finset.sup_le_iff]
  constructor
  · intro h i _
    by_cases hi : eligible i = true ∧ totalCommit i ≠ 0
    · rw [if_pos hi.1]
      exact h ⟨i, totalCommit i, eligible i⟩ (by simp [remainingCommits, hi.2]) hi.1
    · split <;> simp_all
  · intro h r hr heligible
    simp only [remainingCommits, List.mem_map, List.mem_filter] at hr
    obtain ⟨i, _, rfl⟩ := hr
    have hi := h i (Finset.mem_univ i)
    rwa [if_pos heligible] at hi

theorem sum_remainingCommits (weight : Nat → Nat) (hzero : weight 0 = 0)
    (totalCommit : SeatIdx → Nat) (eligible : SeatIdx → Bool) :
    ((remainingCommits totalCommit eligible).map fun r => weight r.amount).sum =
      ∑ i, weight (totalCommit i) := by
  rw [Fin.sum_univ_def, remainingCommits, List.map_map]
  generalize List.finRange 9 = seats
  induction seats with
  | nil => rfl
  | cons i rest ih =>
    by_cases hi : totalCommit i = 0
    · simpa [hi, hzero] using ih
    · simpa [hi] using ih

theorem computeSidePots_spec (hok : computeSidePots totalCommit eligible = .ok pots) :
    potSum (fun _ => true) pots = ∑ i, totalCommit i ∧
      potSum List.isEmpty pots = strandedChips totalCommit eligible ∧
      Nested pots := by
  simp only [computeSidePots, ok_iff] at hok
  obtain ⟨tiers, htiers, merged, hmerged, rfl⟩ := hok
  have hreverse : ∀ select, potSum select merged.reverse = potSum select tiers := by
    intro select
    have hsum := mergeTiers_potSum hmerged select
    rw [potSum_nil, Nat.zero_add] at hsum
    rw [← hsum]
    simp [potSum, List.sum_reverse]
  obtain ⟨hall, hempty⟩ := potsByTier_spec (Nat.le_refl _) htiers
  refine ⟨?_, ?_, ?_⟩
  · rw [hreverse, hall, amountSum]
    exact sum_remainingCommits id rfl totalCommit eligible
  · rw [hreverse, hempty, eligibleMax_remainingCommits]
    exact sum_remainingCommits
      (fun a => a - liveMax totalCommit eligible) (by simp) totalCommit eligible
  · have hpairwise := mergeTiers_nested hmerged (potsByTier_nested htiers) (by simp) (by simp)
    rw [Nested, List.pairwise_reverse]
    exact List.pairwise_map.mp hpairwise

theorem computeSidePots_eligible (hok : computeSidePots totalCommit eligible = .ok pots) :
    ∀ p ∈ pots, p.eligibleSeats.Sublist (eligibleRems (remainingCommits totalCommit eligible)) := by
  simp only [computeSidePots, ok_iff] at hok
  obtain ⟨tiers, htiers, merged, hmerged, rfl⟩ := hok
  intro p hp
  rcases mergeTiers_eligible hmerged (List.mem_reverse.mp hp) with
    ⟨q, hq, _⟩ | ⟨q, hq, hsame⟩
  · simp at hq
  · rw [← hsame]
    exact potsByTier_eligible htiers q hq

theorem strandedChips_eq_zero_iff {live : SeatIdx} (hlive : eligible live = true) :
    strandedChips totalCommit eligible = 0 ↔
      ∃ i, eligible i = true ∧ ∀ j, totalCommit j ≤ totalCommit i := by
  have hle : ∀ i, eligible i = true → totalCommit i ≤ liveMax totalCommit eligible := by
    intro i hi
    have hsup := Finset.le_sup
      (f := fun i => if eligible i then totalCommit i else 0)
      (Finset.mem_univ i)
    simpa [liveMax, hi] using hsup
  simp only [strandedChips, Finset.sum_eq_zero_iff, Finset.mem_univ,
    forall_true_left, Nat.sub_eq_zero_iff_le]
  constructor
  · intro h
    obtain ⟨i, _, hi⟩ := Finset.exists_mem_eq_sup Finset.univ
      ⟨live, Finset.mem_univ live⟩
      (fun i => if eligible i then totalCommit i else 0)
    by_cases heligible : eligible i = true
    · refine ⟨i, heligible, ?_⟩
      intro j
      have hj := h j
      rw [liveMax, hi, if_pos heligible] at hj
      exact hj
    · refine ⟨live, hlive, ?_⟩
      intro j
      have hj := h j
      rw [liveMax, hi, if_neg heligible] at hj
      omega
  · rintro ⟨i, hi, hmax⟩ j
    exact le_trans (hmax j) (hle i hi)

end OnChainPoker.Poker
