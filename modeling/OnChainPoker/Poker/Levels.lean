import Mathlib.Algebra.BigOperators.Intervals
import OnChainPoker.Holdem.BestHand
import OnChainPoker.Poker.RevealProgress

/-!
# Chip by chip

Every chip level is a pot of its own: one chip of each seat that committed so much,
for the seats among them that have not folded. The side pots of `computeSidePots`
are the runs of levels with the same contenders, and what a seat is paid is its
share of the runs it contends for.
-/

namespace OnChainPoker.Poker

open Foundation Holdem

variable {level : Nat} {pots : List SidePot} {pot : SidePot}

/-! ## Levels -/

def levelPot (totalCommit : SeatIdx → Nat) (level : Nat) : Nat :=
  (Finset.univ.filter fun i => level ≤ totalCommit i).card

def levelContenders (totalCommit : SeatIdx → Nat) (live : SeatIdx → Bool)
    (level : Nat) : List SeatIdx :=
  (List.finRange 9).filter fun i => live i && decide (level ≤ totalCommit i)

def maxCommit (totalCommit : SeatIdx → Nat) : Nat := Finset.univ.sup totalCommit

def levelRuns (totalCommit : SeatIdx → Nat) (live : SeatIdx → Bool) :
    Finset (List SeatIdx) :=
  (Finset.Icc 1 (maxCommit totalCommit)).image (levelContenders totalCommit live)

/-- The chips of the levels whose contenders satisfy `select`. -/
def levelSum (totalCommit : SeatIdx → Nat) (live : SeatIdx → Bool)
    (select : List SeatIdx → Bool) : Nat :=
  ∑ level ∈ Finset.Icc 1 (maxCommit totalCommit),
    if select (levelContenders totalCommit live level) then levelPot totalCommit level
    else 0

/-! ## Tiers are runs of levels -/

def reaching (remaining : List Rem) (level : Nat) : List Rem :=
  remaining.filter fun r => level ≤ r.amount

def remSum (remaining : List Rem) (select : List SeatIdx → Bool) (levels : Nat) : Nat :=
  ∑ l ∈ Finset.range levels,
    if select (eligibleRems (reaching remaining (l + 1))) then
      (reaching remaining (l + 1)).length
    else 0

section Tiers

variable {remaining : List Rem}

theorem reaching_of_le (hle : ∀ r ∈ remaining, level ≤ r.amount) :
    reaching remaining level = remaining :=
  List.filter_eq_self.mpr fun r hr => decide_eq_true (hle r hr)

theorem reaching_sliceTier (minimum : Nat) (level : Nat) :
    reaching (sliceTier minimum remaining) (level + 1) =
      (reaching remaining (minimum + (level + 1))).map
        fun r => { r with amount := r.amount - minimum } := by
  rw [reaching, sliceTier, List.filter_filter, List.filter_map, reaching]
  refine congrArg (List.map _) (List.filter_congr fun r _ => ?_)
  rw [Function.comp_apply, ← Bool.decide_and, decide_eq_decide]
  dsimp only
  omega

theorem eligibleRems_map (f : Rem → Nat) (rows : List Rem) :
    eligibleRems (rows.map fun r => { r with amount := f r }) = eligibleRems rows := by
  simp only [eligibleRems, List.filter_map, List.map_map]
  rfl

theorem remSum_slice (select : List SeatIdx → Bool) (levels : Nat) :
    remSum remaining select (minAmount remaining + levels) =
      (if select (eligibleRems remaining) then minAmount remaining * remaining.length
        else 0) +
      remSum (sliceTier (minAmount remaining) remaining) select levels := by
  rw [remSum, Finset.sum_range_add]
  congr 1
  · have hlow : ∀ l ∈ Finset.range (minAmount remaining),
        (if select (eligibleRems (reaching remaining (l + 1))) then
          (reaching remaining (l + 1)).length else 0) =
        if select (eligibleRems remaining) then remaining.length else 0 := by
      intro l hl
      rw [Finset.mem_range] at hl
      rw [reaching_of_le fun r hr => le_trans hl (minAmount_le hr)]
    rw [Finset.sum_congr rfl hlow, Finset.sum_const, Finset.card_range, smul_eq_mul]
    split <;> simp
  · refine Finset.sum_congr rfl fun l _ => ?_
    rw [reaching_sliceTier, eligibleRems_map, List.length_map, Nat.add_assoc]

theorem potsByTier_levels {passes levels : Nat} (hpasses : remaining.length ≤ passes)
    (hlevels : ∀ r ∈ remaining, r.amount ≤ levels)
    (hok : potsByTier passes remaining = .ok pots) (select : List SeatIdx → Bool) :
    potSum select pots = remSum remaining select levels := by
  induction passes generalizing remaining levels pots with
  | zero =>
    have hnil : remaining = [] := List.length_eq_zero_iff.mp (by omega)
    subst hnil
    cases hok
    simp [remSum, reaching, potSum]
  | succ passes ih =>
    by_cases hne : remaining = []
    · subst hne
      cases hok
      simp [remSum, reaching, potSum]
    · obtain ⟨rest, hrest, rfl⟩ := potsByTier_cons hne hok
      have hlen := length_sliceTier_lt hne
      obtain ⟨first, hfirst, -⟩ := minAmount_attained hne
      have hmin := (minAmount_le hfirst).trans (hlevels first hfirst)
      obtain ⟨more, rfl⟩ := Nat.exists_eq_add_of_le hmin
      have hslice : ∀ r ∈ sliceTier (minAmount remaining) remaining, r.amount ≤ more := by
        intro r hr
        obtain ⟨r₀, hr₀, rfl⟩ := List.mem_map.mp (List.mem_filter.mp hr).1
        have hle := hlevels r₀ hr₀
        dsimp only
        omega
      rw [potSum_cons, ih (by omega) hslice hrest, remSum_slice]

end Tiers

section Pots

variable {totalCommit : SeatIdx → Nat} {live : SeatIdx → Bool}

theorem le_maxCommit (i : SeatIdx) : totalCommit i ≤ maxCommit totalCommit :=
  Finset.le_sup (Finset.mem_univ i)

theorem reaching_remainingCommits (hpos : 0 < level) :
    reaching (remainingCommits totalCommit live) level =
      ((List.finRange 9).filter fun i => level ≤ totalCommit i).map
        fun i => ⟨i, totalCommit i, live i⟩ := by
  rw [reaching, remainingCommits, List.filter_map, List.filter_filter]
  refine congrArg (List.map _) (List.filter_congr fun i _ => ?_)
  rw [Function.comp_apply, ← Bool.decide_and, decide_eq_decide]
  dsimp only
  omega

theorem levelContenders_eq (hpos : 0 < level) :
    eligibleRems (reaching (remainingCommits totalCommit live) level) =
      levelContenders totalCommit live level := by
  rw [reaching_remainingCommits hpos, eligibleRems, List.filter_map, List.map_map,
    List.filter_filter, levelContenders]
  exact List.map_id _

theorem levelPot_eq (hpos : 0 < level) :
    (reaching (remainingCommits totalCommit live) level).length = levelPot totalCommit level := by
  rw [reaching_remainingCommits hpos, List.length_map, levelPot,
    ← List.toFinset_card_of_nodup ((List.nodup_finRange 9).filter _)]
  congr 1
  ext i
  simp

theorem computeSidePots_levels (hok : computeSidePots totalCommit live = .ok pots)
    (select : List SeatIdx → Bool) :
    potSum select pots = levelSum totalCommit live select := by
  simp only [computeSidePots, ok_iff] at hok
  obtain ⟨tiers, htiers, merged, hmerged, rfl⟩ := hok
  have hreverse : potSum select merged.reverse = potSum select tiers := by
    have hsum := mergeTiers_potSum hmerged select
    rw [potSum_nil, Nat.zero_add] at hsum
    rw [← hsum]
    simp [potSum, List.sum_reverse]
  have hamounts : ∀ r ∈ remainingCommits totalCommit live, r.amount ≤ maxCommit totalCommit := by
    intro r hr
    obtain ⟨i, -, rfl⟩ := List.mem_map.mp hr
    exact le_maxCommit i
  rw [hreverse, potsByTier_levels le_rfl hamounts htiers, remSum, levelSum,
    Finset.range_eq_Ico, Finset.sum_Ico_add' (fun l =>
      if select (eligibleRems (reaching (remainingCommits totalCommit live) l)) then
        (reaching (remainingCommits totalCommit live) l).length else 0)]
  refine Finset.sum_congr rfl fun level hlevel => ?_
  have hpos : 0 < level := (Finset.mem_Icc.mp hlevel).1
  rw [levelContenders_eq hpos, levelPot_eq hpos]

theorem potSum_mem (hok : computeSidePots totalCommit live = .ok pots) (i : SeatIdx) :
    potSum (i ∈ ·) pots =
      if live i then ∑ j, min (totalCommit i) (totalCommit j) else 0 := by
  rw [computeSidePots_levels hok, levelSum]
  cases hlive : live i with
  | false => simp [levelContenders, hlive]
  | true =>
    have hlevel : ∀ level ∈ Finset.Icc 1 (maxCommit totalCommit),
        (if decide (i ∈ levelContenders totalCommit live level) then
          levelPot totalCommit level else 0) =
        ∑ j, if level ≤ min (totalCommit i) (totalCommit j) then 1 else 0 := by
      intro level _
      by_cases hi : level ≤ totalCommit i <;>
        simp [levelContenders, levelPot, hlive, hi]
    rw [Finset.sum_congr rfl hlevel, Finset.sum_comm, if_pos rfl]
    refine Finset.sum_congr rfl fun j _ => ?_
    have hfilter : (Finset.Icc 1 (maxCommit totalCommit)).filter
        (· ≤ min (totalCommit i) (totalCommit j)) =
        Finset.Icc 1 (min (totalCommit i) (totalCommit j)) := by
      have hmax : totalCommit i ≤ maxCommit totalCommit := le_maxCommit i
      ext level
      simp only [Finset.mem_filter, Finset.mem_Icc]
      omega
    rw [← Finset.card_filter, hfilter, Nat.card_Icc, Nat.add_sub_cancel]

/-! ## The runs are apart -/

theorem nodup_of_shrinking {lists : List (List SeatIdx)}
    (hshrink : lists.Pairwise fun newer older => newer.Sublist older)
    (hchain : lists.IsChain (· ≠ ·)) : lists.Nodup := by
  induction lists with
  | nil => exact List.nodup_nil
  | cons a rest ih =>
    obtain ⟨hfirst, hrest⟩ := List.pairwise_cons.mp hshrink
    cases rest with
    | nil => simp
    | cons b rest =>
      obtain ⟨hne, hchain⟩ := List.isChain_cons_cons.mp hchain
      refine List.nodup_cons.mpr ⟨fun hmem => ?_, ih hrest hchain⟩
      rcases List.mem_cons.mp hmem with hab | hlater
      · exact hne hab
      · have hba := (List.pairwise_cons.mp hrest).1 a hlater
        exact hne ((hfirst b (by simp)).antisymm hba)

theorem mergeTiers_chain {tiers merged merged' : List SidePot}
    (hok : tiers.foldlM mergeTier merged = .ok merged')
    (hchain : (merged.map (·.eligibleSeats)).IsChain (· ≠ ·)) :
    (merged'.map (·.eligibleSeats)).IsChain (· ≠ ·) := by
  induction tiers generalizing merged with
  | nil =>
    cases hok
    exact hchain
  | cons p rest ih =>
    rw [List.foldlM_cons, bind_ok_iff] at hok
    obtain ⟨next, hmerge, hrest⟩ := hok
    refine ih hrest ?_
    rw [(mergeTier_spec hmerge).2]
    split
    · exact hchain
    · rename_i hdiffer
      rw [List.singleton_append, List.isChain_cons]
      refine ⟨fun last hlast => ?_, hchain⟩
      rw [List.head?_map] at hlast
      intro hsame
      exact hdiffer (by rw [hlast, hsame])

theorem computeSidePots_nodup (hok : computeSidePots totalCommit live = .ok pots) :
    (pots.map (·.eligibleSeats)).Nodup := by
  simp only [computeSidePots, ok_iff] at hok
  obtain ⟨tiers, htiers, merged, hmerged, rfl⟩ := hok
  rw [List.map_reverse, List.nodup_reverse]
  exact nodup_of_shrinking
    (mergeTiers_nested hmerged (potsByTier_nested htiers) (by simp) (by simp))
    (mergeTiers_chain hmerged (by simp))

theorem amount_eq_levelSum (hok : computeSidePots totalCommit live = .ok pots) (hpot : pot ∈ pots) :
    pot.amount = levelSum totalCommit live (· = pot.eligibleSeats) := by
  rw [← computeSidePots_levels hok]
  have hnodup := computeSidePots_nodup hok
  clear hok
  induction pots with
  | nil => cases hpot
  | cons first rest ih =>
    rw [List.map_cons, List.nodup_cons] at hnodup
    rw [potSum_cons]
    rcases List.mem_cons.mp hpot with rfl | hrest
    · have hothers : potSum (· = pot.eligibleSeats) rest = 0 := by
        rw [potSum, List.sum_eq_zero_iff]
        intro n hn
        obtain ⟨q, hq, rfl⟩ := List.mem_map.mp hn
        have hne : q.eligibleSeats ≠ pot.eligibleSeats := fun h =>
          hnodup.1 (h ▸ List.mem_map_of_mem hq)
        simp [hne]
      simp [hothers]
    · have hne : first.eligibleSeats ≠ pot.eligibleSeats := fun h =>
        hnodup.1 (h ▸ List.mem_map_of_mem hrest)
      simp [hne, ih hrest hnodup.2]

theorem levelPot_pos (hlevel : level ∈ Finset.Icc 1 (maxCommit totalCommit)) :
    0 < levelPot totalCommit level := by
  obtain ⟨i, -, hi⟩ := Finset.exists_mem_eq_sup Finset.univ Finset.univ_nonempty totalCommit
  refine Finset.card_pos.mpr ⟨i, Finset.mem_filter.mpr ⟨Finset.mem_univ i, ?_⟩⟩
  rw [← hi]
  exact (Finset.mem_Icc.mp hlevel).2

theorem sum_pots (hok : computeSidePots totalCommit live = .ok pots)
    (pay : List SeatIdx → Nat → Nat) (hpay : ∀ seats, pay seats 0 = 0) :
    (pots.map fun p => pay p.eligibleSeats p.amount).sum =
      ∑ seats ∈ levelRuns totalCommit live, pay seats (levelSum totalCommit live (· = seats)) := by
  have hnodup := computeSidePots_nodup hok
  have hmap : (pots.map fun p => pay p.eligibleSeats p.amount) =
      (pots.map (·.eligibleSeats)).map
        fun seats => pay seats (levelSum totalCommit live (· = seats)) := by
    rw [List.map_map]
    refine List.map_congr_left fun p hp => ?_
    rw [amount_eq_levelSum hok hp]
    rfl
  rw [hmap, ← List.sum_toFinset _ hnodup]
  refine (Finset.sum_subset ?_ ?_).symm
  · intro seats hseats
    obtain ⟨level, hlevel, rfl⟩ := Finset.mem_image.mp hseats
    have hpos : 0 < potSum (· = levelContenders totalCommit live level) pots := by
      rw [computeSidePots_levels hok, levelSum]
      refine Finset.sum_pos' (fun _ _ => Nat.zero_le _) ⟨level, hlevel, ?_⟩
      simpa using levelPot_pos hlevel
    rw [List.mem_toFinset, List.mem_map]
    by_contra hnone
    push Not at hnone
    refine hpos.ne' (List.sum_eq_zero_iff.mpr fun n hn => ?_)
    obtain ⟨p, hp, rfl⟩ := List.mem_map.mp hn
    simp [hnone p hp]
  · intro seats _ hnot
    have hzero : levelSum totalCommit live (· = seats) = 0 := by
      refine Finset.sum_eq_zero fun level hlevel => ?_
      rw [if_neg]
      intro hsame
      exact hnot (Finset.mem_image.mpr ⟨level, hlevel, of_decide_eq_true hsame⟩)
    rw [hzero, hpay]

end Pots

/-! ## Shares -/

def potShare (winners : List SeatIdx) (amount : Nat) (i : SeatIdx) : Nat :=
  if i ∈ winners then
    amount / winners.length + (if winners.head? = some i then amount % winners.length else 0)
  else 0

theorem potShare_zero (winners : List SeatIdx) (i : SeatIdx) : potShare winners 0 i = 0 := by
  simp [potShare]

theorem potShare_le {winners seats : List SeatIdx} (hsub : winners ⊆ seats) (amount : Nat)
    (i : SeatIdx) : potShare winners amount i ≤ if i ∈ seats then amount else 0 := by
  unfold potShare
  split
  · rename_i hi
    rw [if_pos (hsub hi)]
    have hpos := List.length_pos_of_mem hi
    have hdivision := Nat.div_add_mod amount winners.length
    have hshare := Nat.le_mul_of_pos_left (amount / winners.length) hpos
    split <;> omega
  · exact Nat.zero_le _

section Stacks

variable {seats seats' : Seats}

variable {field : String} {recipients : List SeatIdx} {share : Nat}

theorem credit_stack {seat : SeatIdx} {amount : Nat}
    (hok : credit seats seat amount field = .ok seats') (i : SeatIdx) :
    (seats' i).stack = (seats i).stack + if i = seat then amount else 0 := by
  rw [credit_ok hok]
  by_cases hi : i = seat
  · subst hi
    simp
  · simp [hi]

theorem shares_stack (hnodup : recipients.Nodup)
    (hok : recipients.foldlM (fun seats i => credit seats i share field) seats = .ok seats')
    (i : SeatIdx) :
    (seats' i).stack = (seats i).stack + if i ∈ recipients then share else 0 := by
  induction recipients generalizing seats with
  | nil =>
    cases hok
    simp
  | cons first rest ih =>
    rw [List.nodup_cons] at hnodup
    rw [List.foldlM_cons, bind_ok_iff] at hok
    obtain ⟨middle, hfirst, hrest⟩ := hok
    rw [ih hnodup.2 hrest, credit_stack hfirst]
    by_cases hi : i = first
    · subst hi
      simp [hnodup.1]
    · simp [hi]

theorem shares_stack_le
    (hok : recipients.foldlM (fun seats i => credit seats i share field) seats = .ok seats')
    (i : SeatIdx) : (seats i).stack ≤ (seats' i).stack := by
  refine foldlM_invariant (fun s : Seats => (seats i).stack ≤ (s i).stack) ?_ le_rfl hok
  intro seat _ s s' hle hstep
  rw [credit_stack hstep]
  omega

theorem refundPot_stack_le (hok : refundPot seats pot = .ok seats') (i : SeatIdx) :
    (seats i).stack ≤ (seats' i).stack := by
  unfold refundPot at hok
  split at hok
  · cases hok
    exact le_rfl
  · simp only [ok_iff] at hok
    obtain ⟨middle, hfirst, hothers⟩ := hok
    have hle := shares_stack_le hothers i
    rw [credit_stack hfirst] at hle
    omega

theorem refundPot_stack (hnodup : pot.eligibleSeats.Nodup)
    (hok : refundPot seats pot = .ok seats') (i : SeatIdx) :
    (seats' i).stack = (seats i).stack + potShare pot.eligibleSeats pot.amount i := by
  unfold refundPot at hok
  split at hok
  · rename_i hnil
    cases hok
    simp [potShare, hnil]
  · rename_i first others heligible
    simp only [ok_iff] at hok
    obtain ⟨middle, hfirst, hothers⟩ := hok
    rw [heligible, List.nodup_cons] at hnodup
    rw [shares_stack hnodup.2 hothers, credit_stack hfirst, heligible, potShare]
    by_cases hi : i = first
    · subst hi
      simp [hnodup.1]
    · simp [hi, Ne.symm hi]

theorem awardPot_stack {winners : List SeatIdx} (hnodup : winners.Nodup)
    (hne : pot.eligibleSeats = [] → winners = [])
    (hok : awardPot seats pot winners = .ok seats') (i : SeatIdx) :
    (seats' i).stack = (seats i).stack + potShare winners pot.amount i := by
  unfold awardPot at hok
  split at hok
  · cases hok
    simp [potShare]
  · rename_i first others
    split at hok
    · rename_i hskip
      cases hok
      rcases hskip with hzero | hnone
      · rw [hzero, potShare_zero, Nat.add_zero]
      · cases hne hnone
    · simp only [ok_iff] at hok
      obtain ⟨afterShare, hshare, afterRem, hrem, hothers⟩ := hok
      rw [List.nodup_cons] at hnodup
      rw [shares_stack hnodup.2 hothers, credit_stack hrem, credit_stack hshare, potShare]
      by_cases hi : i = first
      · subst hi
        simp [hnodup.1]
        omega
      · simp [hi, Ne.symm hi]

end Stacks

/-! ## Deciding the pots -/

section Deciding

variable {seats : Seats} {board5 : List Card}

theorem holeBySeat_seats (eligible : List SeatIdx) :
    ((holeBySeat seats eligible).map Entry.seat).Sublist eligible := by
  rw [holeBySeat, List.map_map]
  exact (List.map_id _).symm ▸ List.filter_sublist

theorem decidePot_won (hlen : board5.length = 5) (hnodup : pot.eligibleSeats.Nodup)
    {ws : List SeatIdx} (hok : decidePot seats board5 pot = .ok (.won ws)) :
    ws.Nodup ∧ ws ⊆ pot.eligibleSeats := by
  have hseats : ((holeBySeat seats pot.eligibleSeats).map Entry.seat).Sublist
      pot.eligibleSeats := holeBySeat_seats pot.eligibleSeats
  unfold decidePot at hok
  split at hok
  · cases hok
  split at hok
  · rename_i hone
    cases hok
    rw [hone]
    exact ⟨by simp, by simp⟩
  · rename_i hone _
    cases hok
    rw [hone] at hseats
    refine ⟨by simp, fun i hi => hseats.subset ?_⟩
    simpa using hi
  · cases hok
  · rename_i hnone _
    have hentries : holeBySeat seats pot.eligibleSeats ≠ [] := by assumption
    split at hok
    · rename_i found hwinners
      cases hok
      have hcards : ∀ e ∈ holeBySeat seats pot.eligibleSeats, DistinctCards (e.cards7 board5) := by
        by_contra hbad
        push Not at hbad
        obtain ⟨text, herror⟩ := winners_conflict hlen hbad
        rw [herror] at hwinners
        cases hwinners
      rw [winners_eq_bestSeats hlen hcards hentries (hnodup.sublist hseats)] at hwinners
      cases hwinners
      refine ⟨Finset.sort_nodup _ _, fun i hi => ?_⟩
      rw [bestSeats, Finset.mem_sort, Finset.mem_filter] at hi
      obtain ⟨-, e, he, rfl, -⟩ := hi
      exact hseats.subset (List.mem_map_of_mem he)
    · cases hok
    · cases hok

def awardShare (i : SeatIdx) : List SidePot → List (List SeatIdx) → Nat
  | pot :: pots, ws :: potWinners =>
    potShare ws pot.amount i + awardShare i pots potWinners
  | _, _ => 0

def AmongContenders (pots : List SidePot) (potWinners : List (List SeatIdx)) : Prop :=
  List.Forall₂ (fun pot ws => ws.Nodup ∧ ws ⊆ pot.eligibleSeats) pots potWinners

variable {potWinners : List (List SeatIdx)} {seats' : Seats}

theorem awardPots_stack (hamong : AmongContenders pots potWinners)
    (hok : awardPots seats pots potWinners = .ok seats') (i : SeatIdx) :
    (seats' i).stack = (seats i).stack + awardShare i pots potWinners := by
  induction hamong generalizing seats with
  | nil =>
    cases hok
    rfl
  | @cons pot ws pots potWinners hfirst hrest ih =>
    simp only [awardPots, ok_iff] at hok
    obtain ⟨middle, hpot, hrest⟩ := hok
    have hnil : pot.eligibleSeats = [] → ws = [] := fun h =>
      List.subset_nil.mp (h ▸ hfirst.2)
    rw [ih hrest, awardPot_stack hfirst.1 hnil hpot, awardShare]
    omega

theorem assignPots_stack {h : Hand} (hlen : board5.length = 5)
    (hnodup : ∀ pot ∈ pots, pot.eligibleSeats.Nodup)
    (hok : assignPots h board5 seats pots = .ok (seats', some potWinners)) (i : SeatIdx) :
    AmongContenders pots potWinners ∧
      (seats' i).stack + awardShare i pots potWinners ≤ (seats i).stack + potSum (i ∈ ·) pots := by
  induction pots generalizing seats potWinners with
  | nil =>
    obtain ⟨rfl, rfl⟩ := hok
    exact ⟨.nil, by simp [awardShare, potSum]⟩
  | cons pot rest ih =>
    have hpot := hnodup pot (by simp)
    have hrest : ∀ q ∈ rest, q.eligibleSeats.Nodup := fun q hq => hnodup q (by simp [hq])
    simp only [assignPots, ok_iff] at hok
    obtain ⟨decision, hdecide, hok⟩ := hok
    cases decision with
    | skip =>
      simp only [ok_iff, Prod.mk.injEq, Option.map_eq_some_iff] at hok
      obtain ⟨⟨last, tail⟩, hlast, rfl, ws, rfl, rfl⟩ := hok
      obtain ⟨hamong, hle⟩ := ih hrest hlast
      refine ⟨.cons ⟨by simp, by simp⟩ hamong, ?_⟩
      dsimp only at hle
      simp only [awardShare, potSum_cons, potShare, List.not_mem_nil, if_false]
      omega
    | won ws =>
      simp only [ok_iff, Prod.mk.injEq, Option.map_eq_some_iff] at hok
      obtain ⟨⟨last, tail⟩, hlast, rfl, ws', rfl, rfl⟩ := hok
      obtain ⟨hamong, hle⟩ := ih hrest hlast
      have hwon := decidePot_won hlen hpot hdecide
      refine ⟨.cons hwon hamong, ?_⟩
      have hshare := potShare_le hwon.2 pot.amount i
      dsimp only at hle
      simp only [awardShare, potSum_cons, decide_eq_true_eq]
      omega
    | refund =>
      simp only [ok_iff, Prod.mk.injEq, Option.map_eq_some_iff] at hok
      obtain ⟨middle, hrefund, ⟨last, tail⟩, hlast, rfl, ws', rfl, rfl⟩ := hok
      obtain ⟨hamong, hle⟩ := ih hrest hlast
      refine ⟨.cons ⟨by simp, by simp⟩ hamong, ?_⟩
      have hshare := potShare_le (List.Subset.refl pot.eligibleSeats) pot.amount i
      rw [refundPot_stack hpot hrefund] at hle
      simp only [awardShare, potSum_cons, decide_eq_true_eq, potShare,
        List.not_mem_nil, if_false] at hle hshare ⊢
      omega
    | evalError text =>
      simp only [ok_iff, Prod.mk.injEq] at hok
      obtain ⟨last, -, -, hnone⟩ := hok
      cases hnone

end Deciding

/-! ## The bound on a settlement -/

section Settling

variable {seats seats' : Seats} {h : Hand}

theorem eligible_nodup (hok : computeSidePots h.totalCommit (inHandNotFolded h) = .ok pots) :
    ∀ pot ∈ pots, pot.eligibleSeats.Nodup := by
  intro pot hpot
  refine List.Nodup.sublist (computeSidePots_eligible hok pot hpot) ?_
  rw [eligibleRems_remainingCommits]
  exact (List.nodup_finRange 9).filter _

theorem le_of_assignPots_none {board5 : List Card}
    (hok : assignPots h board5 seats pots = .ok (seats', none)) (i : SeatIdx) :
    (seats i).stack + h.totalCommit i ≤ (seats' i).stack := by
  induction pots generalizing seats with
  | nil =>
    simp only [assignPots, pure_ok_iff, Prod.mk.injEq] at hok
    cases hok.2
  | cons pot rest ih =>
    simp only [assignPots, ok_iff] at hok
    obtain ⟨decision, hdecide, hok⟩ := hok
    cases decision with
    | skip | won ws =>
      simp only [ok_iff, Prod.mk.injEq, Option.map_eq_none_iff] at hok
      obtain ⟨⟨last, tail⟩, hlast, rfl, rfl⟩ := hok
      exact ih hlast
    | refund =>
      simp only [ok_iff, Prod.mk.injEq, Option.map_eq_none_iff] at hok
      obtain ⟨middle, hrefund, ⟨last, tail⟩, hlast, rfl, rfl⟩ := hok
      have hle := ih hlast
      have hmore := refundPot_stack_le hrefund i
      omega
    | evalError text =>
      simp only [ok_iff, Prod.mk.injEq] at hok
      obtain ⟨last, hrefund, rfl, -⟩ := hok
      rw [refundCommits_ok hrefund]

theorem assignPots_none_stack {board5 : List Card} (hnested : Nested pots)
    (hok : assignPots h board5 seats pots = .ok (seats', none)) (i : SeatIdx) :
    (seats' i).stack = (seats i).stack + h.totalCommit i := by
  rcases assignPots_spec hnested hok with ⟨_, _, hsome, _⟩ | ⟨-, hcredits, -⟩
  · cases hsome
  · have hsum := hcredits.paid
    simp only [stackSum, commitSum, ← Finset.sum_add_distrib] at hsum
    have hall := (Finset.sum_eq_sum_iff_of_le fun i _ => le_of_assignPots_none hok i).mp hsum.symm
    exact (hall i (Finset.mem_univ i)).symm

theorem settleKnownShowdown_stack_le (hok : settleKnownShowdown seats h = .ok seats')
    (i : SeatIdx) :
    (seats' i).stack ≤ (seats i).stack + ∑ j, min (h.totalCommit i) (h.totalCommit j) := by
  unfold settleKnownShowdown at hok
  split at hok
  · cases hok
    exact Nat.le_add_right _ _
  · rename_i hboard
    have hlen : (showdownBoard h).length = 5 := by
      simp only [showdownBoard, List.length_map, List.length_take]
      omega
    simp only [ok_iff] at hok
    obtain ⟨pots, hpots, ⟨middle, outcome⟩, hassign, hok⟩ := hok
    have hbound : potSum (i ∈ ·) pots ≤ ∑ j, min (h.totalCommit i) (h.totalCommit j) := by
      rw [potSum_mem hpots]
      split <;> simp
    cases outcome with
    | none =>
      cases hok
      have hown := Finset.single_le_sum
        (f := fun j => min (h.totalCommit i) (h.totalCommit j))
        (fun _ _ => Nat.zero_le _) (Finset.mem_univ i)
      have hstack : (clearHoles middle i).stack = (middle i).stack := rfl
      rw [hstack, assignPots_none_stack (computeSidePots_spec hpots).2.2 hassign]
      omega
    | some potWinners =>
      simp only [ok_iff] at hok
      obtain ⟨last, haward, rfl⟩ := hok
      obtain ⟨hamong, hle⟩ := assignPots_stack hlen (eligible_nodup hpots) hassign i
      have hstack : (clearHoles last i).stack = (last i).stack := rfl
      rw [hstack, awardPots_stack hamong haward]
      omega

end Settling

end OnChainPoker.Poker
