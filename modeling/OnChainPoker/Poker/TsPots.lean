import OnChainPoker.Poker.Payout

/-!
# The side pots of the TypeScript package

`computeSidePots` of `packages/poker-engine`, with bigints that never overflow.  On
commitments that the chain can hold it returns the pots of the chain.
-/

namespace OnChainPoker.Poker

open Foundation

namespace Ts

def remainingCommits (totalCommit : SeatIdx → Nat) (eligibleForWin : SeatIdx → Bool) :
    List Rem :=
  (List.finRange 9).foldl (fun remaining i =>
    if totalCommit i > 0 then remaining ++ [⟨i, totalCommit i, eligibleForWin i⟩]
    else remaining) []

def minAmount : List Rem → Nat
  | [] => 0
  | r :: rest => rest.foldl (fun min r => if r.amount < min then r.amount else min) r.amount

/-- The entries are removed from the last one on. -/
def spliceEmpty (remaining : List Rem) : List Rem :=
  remaining.foldr (fun r kept => if r.amount = 0 then kept else r :: kept) []

/-- Every pass removes a seat, so there are at most as many as seats. -/
def potsByTier : Nat → List Rem → List SidePot
  | 0, _ => []
  | _ + 1, [] => []
  | passes + 1, remaining =>
    let min := minAmount remaining
    ⟨min * remaining.length, (remaining.filter (·.eligible)).map (·.seat)⟩ ::
      potsByTier passes
        (spliceEmpty (remaining.map fun r => { r with amount := r.amount - min }))

/-- The pots are held newest first. -/
def mergeTier (merged : List SidePot) (p : SidePot) : List SidePot :=
  match merged with
  | [] => [p]
  | last :: earlier =>
    if last.eligibleSeats = p.eligibleSeats then
      { last with amount := last.amount + p.amount } :: earlier
    else p :: last :: earlier

def computeSidePots (totalCommit : SeatIdx → Nat) (eligibleForWin : SeatIdx → Bool) :
    List SidePot :=
  let remaining := remainingCommits totalCommit eligibleForWin
  ((potsByTier remaining.length remaining).foldl mergeTier []).reverse

theorem remainingCommits_eq (totalCommit : SeatIdx → Nat) (eligible : SeatIdx → Bool) :
    remainingCommits totalCommit eligible = Poker.remainingCommits totalCommit eligible := by
  have hpush (seats : List SeatIdx) (start : List Rem) :
      seats.foldl (fun remaining i => if totalCommit i > 0 then
          remaining ++ [⟨i, totalCommit i, eligible i⟩] else remaining) start =
        start ++ (seats.filter fun i => totalCommit i ≠ 0).map
          fun i => ⟨i, totalCommit i, eligible i⟩ := by
    induction seats generalizing start with
    | nil => simp
    | cons i seats ih =>
      rw [List.foldl_cons, ih]
      by_cases hi : totalCommit i = 0
      · simp [hi]
      · simp [hi, Nat.pos_of_ne_zero hi]
  exact hpush _ []

theorem minAmount_eq (remaining : List Rem) : minAmount remaining = Poker.minAmount remaining := by
  have hmin : (fun (m : Nat) (r : Rem) => if r.amount < m then r.amount else m) =
      fun m r => min m r.amount := by
    funext m r
    rw [min_def]
    split <;> split <;> omega
  cases remaining with
  | nil => rfl
  | cons r rest => rw [minAmount, hmin, Poker.minAmount]

theorem spliceEmpty_eq (remaining : List Rem) :
    spliceEmpty remaining = remaining.filter fun r => 0 < r.amount := by
  induction remaining with
  | nil => rfl
  | cons r rest ih =>
    rw [spliceEmpty, List.foldr_cons, ← spliceEmpty, ih]
    by_cases hr : r.amount = 0
    · simp [hr]
    · simp [hr, Nat.pos_of_ne_zero hr]

variable {passes : Nat} {remaining : List Rem} {tiers merged merged' pots : List SidePot}

theorem potsByTier_eq (hok : Poker.potsByTier passes remaining = .ok pots) :
    potsByTier passes remaining = pots := by
  induction passes generalizing remaining pots with
  | zero =>
    cases hok
    rfl
  | succ passes ih =>
    cases remaining with
    | nil =>
      cases hok
      rfl
    | cons r rest =>
      obtain ⟨later, hlater, rfl⟩ := potsByTier_cons (List.cons_ne_nil r rest) hok
      rw [potsByTier, minAmount_eq, spliceEmpty_eq, ← sliceTier, ih hlater, eligibleRems]
      simp

theorem mergeTiers_eq (hok : tiers.foldlM Poker.mergeTier merged = .ok merged') :
    tiers.foldl mergeTier merged = merged' := by
  induction tiers generalizing merged with
  | nil =>
    cases hok
    rfl
  | cons p rest ih =>
    rw [List.foldlM_cons, bind_ok_iff] at hok
    obtain ⟨next, hmerge, hrest⟩ := hok
    rw [List.foldl_cons, ← ih hrest]
    congr 1
    cases merged with
    | nil =>
      cases hmerge
      rfl
    | cons last earlier =>
      simp only [Poker.mergeTier, mergeTier] at hmerge ⊢
      split at hmerge
      · simp only [ok_iff] at hmerge
        obtain ⟨nextAmt, hadd, rfl⟩ := hmerge
        rw [if_pos ‹_›, addUint64Checked_ok hadd]
      · cases hmerge
        rw [if_neg ‹_›]

theorem computeSidePots_eq {totalCommit : SeatIdx → Nat} {eligible : SeatIdx → Bool}
    (hok : Poker.computeSidePots totalCommit eligible = .ok pots) :
    computeSidePots totalCommit eligible = pots := by
  simp only [Poker.computeSidePots, ok_iff] at hok
  obtain ⟨tiers, htiers, merged, hmerged, rfl⟩ := hok
  rw [computeSidePots, remainingCommits_eq, potsByTier_eq htiers, mergeTiers_eq hmerged]

end Ts

section Pots

variable {totalCommit : SeatIdx → Nat} {eligible : SeatIdx → Bool} {pots : List SidePot}

theorem eligibleSeats_ascending (hok : computeSidePots totalCommit eligible = .ok pots) :
    ∀ p ∈ pots, p.eligibleSeats.Pairwise (· < ·) := by
  intro p hp
  refine List.Pairwise.sublist (computeSidePots_eligible hok p hp) ?_
  rw [eligibleRems, remainingCommits, List.filter_map, List.map_map]
  exact List.Pairwise.map _ (fun _ _ h => h) (((List.pairwise_lt_finRange 9).filter _).filter _)

theorem eligibleSeats_shrink (hok : computeSidePots totalCommit eligible = .ok pots) :
    pots.Pairwise fun p q => q.eligibleSeats.toFinset ⊂ p.eligibleSeats.toFinset := by
  have hnested := (computeSidePots_spec hok).2.2
  have hdiffer := List.pairwise_map.mp (computeSidePots_nodup hok)
  refine (hnested.and hdiffer).imp_of_mem fun {p q} hp hq ⟨hsub, hne⟩ => ?_
  refine Finset.ssubset_iff_subset_ne.mpr ⟨fun i hi => ?_, fun hsame => hne ?_⟩
  · exact List.mem_toFinset.mpr (hsub.subset (List.mem_toFinset.mp hi))
  · have hp := (eligibleSeats_ascending hok p hp).nodup
    have hq := (eligibleSeats_ascending hok q hq).nodup
    refine (hsub.eq_of_length ?_).symm
    rw [← List.toFinset_card_of_nodup hq, hsame, List.toFinset_card_of_nodup hp]

end Pots

/-- Both programs return the same pots.  They hold what was committed, each is open to some
of the seats of the one before, and a live seat can win from every seat what it has covered
of its commitment. -/
theorem side_pots_canonical (totalCommit : SeatIdx → Nat) (eligible : SeatIdx → Bool)
    (hsum : ∑ i, totalCommit i < 2 ^ 64) :
    ∃ pots, computeSidePots totalCommit eligible = .ok pots ∧
      Ts.computeSidePots totalCommit eligible = pots ∧
      (pots.map (·.amount)).sum = ∑ i, totalCommit i ∧
      (∀ p ∈ pots, p.eligibleSeats.Pairwise (· < ·)) ∧
      (pots.Pairwise fun p q => q.eligibleSeats.toFinset ⊂ p.eligibleSeats.toFinset) ∧
      ∀ i, eligible i = true →
        (pots.map fun p => if i ∈ p.eligibleSeats then p.amount else 0).sum =
          ∑ j, min (totalCommit i) (totalCommit j) := by
  obtain ⟨pots, hok⟩ := computeSidePots_succeeds eligible
    (show ∑ i, totalCommit i ≤ maxUint64 by unfold maxUint64; omega)
  have htotal := (computeSidePots_spec hok).1
  refine ⟨pots, hok, Ts.computeSidePots_eq hok, ?_, eligibleSeats_ascending hok,
    eligibleSeats_shrink hok, fun i hi => ?_⟩
  · simpa [potSum] using htotal
  · have hshare := potSum_mem hok i
    rw [if_pos hi] at hshare
    simpa [potSum] using hshare

theorem side_pots_canonical_sidePotHand :
    ∃ pots, computeSidePots sidePotHand.totalCommit (inHandNotFolded sidePotHand) = .ok pots ∧
      Ts.computeSidePots sidePotHand.totalCommit (inHandNotFolded sidePotHand) = pots := by
  obtain ⟨pots, hgo, hts, -⟩ := side_pots_canonical sidePotHand.totalCommit
    (inHandNotFolded sidePotHand) (by decide +kernel)
  exact ⟨pots, hgo, hts⟩

end OnChainPoker.Poker
