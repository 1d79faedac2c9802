import OnChainPoker.Holdem.Winners
import OnChainPoker.Poker.SidePots

/-!
# What a showdown pays

A pot is skipped, won, or paid back; an evaluation error refunds the whole
hand.  Since the eligible seats of the pots are nested, no pot has been paid
back by the time an evaluation error occurs, so no chip is ever paid twice.
Apart from that error, the settlement pays every chip except the stranded ones.
-/

namespace OnChainPoker.Poker

open Foundation Holdem

variable {seats seats' : Seats} {pot : SidePot} {pots : List SidePot} {h : Hand}
  {outcome : Option (List (List SeatIdx))}

/-! ## Paying one pot -/

theorem shares_credits {recipients : List SeatIdx} {share : Nat} {field : String}
    (hok : recipients.foldlM (fun seats i => credit seats i share field) seats = .ok seats') :
    Credits seats seats' (share * recipients.length) := by
  induction recipients generalizing seats with
  | nil =>
    cases hok
    exact .refl _
  | cons i rest ih =>
    rw [List.foldlM_cons, bind_ok_iff] at hok
    obtain ⟨middle, hfirst, hrest⟩ := hok
    have hboth := (credit_credits hfirst).trans (ih hrest)
    rwa [List.length_cons, Nat.mul_succ, Nat.add_comm]

theorem refundPot_credits (hne : pot.eligibleSeats ≠ []) (hok : refundPot seats pot = .ok seats') :
    Credits seats seats' pot.amount := by
  unfold refundPot at hok
  split at hok
  · contradiction
  · rename_i first others heligible
    simp only [ok_iff] at hok
    obtain ⟨middle, hfirst, hothers⟩ := hok
    have hboth := (credit_credits hfirst).trans (shares_credits hothers)
    have hdivision := Nat.div_add_mod pot.amount pot.eligibleSeats.length
    rw [heligible] at hboth hdivision
    rw [List.length_cons, Nat.succ_mul] at hdivision
    convert hboth using 1
    rw [List.length_cons, Nat.mul_comm _ others.length]
    omega

theorem awardPot_credits {winners : List SeatIdx} (hok : awardPot seats pot winners = .ok seats') :
    Credits seats seats' (if winners = [] ∨ pot.eligibleSeats = [] then 0 else pot.amount) := by
  unfold awardPot at hok
  split at hok
  · cases hok
    simpa using Credits.refl _
  · rename_i first others
    split at hok
    · rename_i hskip
      cases hok
      convert Credits.refl seats using 1
      rcases hskip with hzero | hnone
      · simp [hzero]
      · simp [hnone]
    · rename_i hpay
      simp only [ok_iff] at hok
      obtain ⟨afterShare, hshare, afterRem, hrem, hothers⟩ := hok
      have hall := ((credit_credits hshare).trans (credit_credits hrem)).trans
        (shares_credits hothers)
      have hdivision := Nat.div_add_mod pot.amount (first :: others).length
      rw [List.length_cons, Nat.succ_mul] at hdivision
      convert hall using 1
      rw [if_neg (by simpa using fun h => hpay (Or.inr h)),
        List.length_cons, Nat.mul_comm _ others.length]
      omega

/-! ## Deciding one pot -/

theorem holeBySeat_sublist (seats : Seats) {inner outer : List SeatIdx} (h : inner.Sublist outer) :
    (holeBySeat seats inner).Sublist (holeBySeat seats outer) :=
  (h.filter _).map _

theorem holeBySeat_congr (h : ∀ i, (seats' i).hole = (seats i).hole) (eligible : List SeatIdx) :
    holeBySeat seats' eligible = holeBySeat seats eligible := by
  simp only [holeBySeat, h]

def PotOutcome.Sound (seats : Seats) (board5 : List Card) (pot : SidePot) :
    PotOutcome → Prop
  | .skip => pot.amount = 0 ∨ pot.eligibleSeats = []
  | .won winners => pot.eligibleSeats ≠ [] ∧ winners ≠ []
  | .refund => pot.eligibleSeats ≠ [] ∧
      holeBySeat seats pot.eligibleSeats = []
  | .evalError _ => 2 ≤ (holeBySeat seats pot.eligibleSeats).length ∧
      ∃ text, winners board5 (holeBySeat seats pot.eligibleSeats) = .error (.err text)

variable {board5 : List Card}

theorem decidePot_sound {outcome : PotOutcome} (hok : decidePot seats board5 pot = .ok outcome) :
    outcome.Sound seats board5 pot := by
  unfold decidePot at hok
  split at hok
  · rename_i hskip
    cases hok
    exact hskip
  · rename_i hpot
    have hne : pot.eligibleSeats ≠ [] := fun h => hpot (Or.inr h)
    split at hok
    · cases hok
      exact ⟨hne, by simp⟩
    · cases hok
      exact ⟨hne, by simp⟩
    · cases hok
      exact ⟨hne, by assumption⟩
    · rename_i hone hnone
      have htwo : 2 ≤ (holeBySeat seats pot.eligibleSeats).length := by
        match hentries : holeBySeat seats pot.eligibleSeats with
        | [] => exact absurd hentries hnone
        | [entry] => exact absurd hentries (hone entry)
        | _ :: _ :: _ => simp
      split at hok
      · rename_i hwinners
        cases hok
        exact ⟨hne, winners_ne_nil hwinners⟩
      · rename_i text hwinners
        cases hok
        exact ⟨htwo, text, hwinners⟩
      · cases hok

theorem decidePot_congr (h : ∀ i, (seats' i).hole = (seats i).hole) (board5 : List Card)
    (pot : SidePot) :
    decidePot seats' board5 pot = decidePot seats board5 pot := by
  simp only [decidePot, holeBySeat_congr h]

/-! ## All pots -/

def awardSum : List SidePot → List (List SeatIdx) → Nat
  | pot :: pots, ws :: potWinners =>
    (if ws = [] ∨ pot.eligibleSeats = [] then 0 else pot.amount) +
      awardSum pots potWinners
  | _, _ => 0

theorem awardPots_credits {potWinners : List (List SeatIdx)}
    (hok : awardPots seats pots potWinners = .ok seats') :
    Credits seats seats' (awardSum pots potWinners) := by
  induction pots generalizing seats potWinners with
  | nil =>
    simp only [awardPots, pure_ok_iff] at hok
    subst hok
    simpa [awardSum] using Credits.refl _
  | cons pot pots ih =>
    cases potWinners with
    | nil =>
      simp only [awardPots, pure_ok_iff] at hok
      subst hok
      simpa [awardSum] using Credits.refl _
    | cons ws potWinners =>
      simp only [awardPots, ok_iff] at hok
      obtain ⟨middle, hpot, hrest⟩ := hok
      exact (awardPot_credits hpot).trans (ih hrest)

def NoReveals (seats : Seats) (pots : List SidePot) : Prop :=
  ∀ pot ∈ pots, holeBySeat seats pot.eligibleSeats = []

theorem assignPots_cons {rest : List SidePot}
    (hok : assignPots h board5 seats (pot :: rest) = .ok (seats', outcome)) :
    (∃ text, decidePot seats board5 pot = .ok (.evalError text) ∧
      refundCommits seats h = .ok seats' ∧ outcome = none) ∨
    (∃ middle paid ws tail,
      Credits seats middle paid ∧
      paid + (if ws = [] ∨ pot.eligibleSeats = [] then 0 else pot.amount) =
        (if pot.eligibleSeats = [] then 0 else pot.amount) ∧
      (paid ≠ 0 → holeBySeat seats pot.eligibleSeats = []) ∧
      assignPots h board5 middle rest = .ok (seats', tail) ∧
      outcome = tail.map (ws :: ·)) := by
  simp only [assignPots, ok_iff] at hok
  obtain ⟨decision, hdecide, hok⟩ := hok
  have hsound := decidePot_sound hdecide
  cases decision with
  | skip =>
    simp only [ok_iff, Prod.mk.injEq] at hok
    obtain ⟨⟨last, tail⟩, hrest, rfl, rfl⟩ := hok
    refine Or.inr ⟨seats, 0, [], tail, .refl _, ?_, by simp, hrest, rfl⟩
    rcases hsound with hzero | hnone
    · simp [hzero]
    · simp [hnone]
  | won ws =>
    simp only [ok_iff, Prod.mk.injEq] at hok
    obtain ⟨⟨last, tail⟩, hrest, rfl, rfl⟩ := hok
    refine Or.inr ⟨seats, 0, ws, tail, .refl _, ?_, by simp, hrest, rfl⟩
    simp [hsound.1, hsound.2]
  | refund =>
    simp only [ok_iff, Prod.mk.injEq] at hok
    obtain ⟨middle, hpay, ⟨last, tail⟩, hrest, rfl, rfl⟩ := hok
    refine Or.inr ⟨middle, pot.amount, [], tail,
      refundPot_credits hsound.1 hpay, ?_, fun _ => hsound.2, hrest, rfl⟩
    simp [hsound.1]
  | evalError text =>
    simp only [ok_iff, Prod.mk.injEq] at hok
    obtain ⟨last, hrefund, rfl, rfl⟩ := hok
    exact Or.inl ⟨text, hdecide, hrefund, rfl⟩

theorem assignPots_of_noReveals (hno : NoReveals seats pots)
    (hok : assignPots h board5 seats pots = .ok (seats', outcome)) :
    outcome ≠ none := by
  induction pots generalizing seats outcome with
  | nil =>
    simp only [assignPots, pure_ok_iff, Prod.mk.injEq] at hok
    simp [← hok.2]
  | cons pot rest ih =>
    rcases assignPots_cons hok with
      ⟨text, hdecide, _⟩ | ⟨middle, paid, ws, tail, hpaid, _, _, hrest, rfl⟩
    · have htwo := (decidePot_sound hdecide).1
      rw [hno pot (by simp)] at htwo
      simp at htwo
    · have htail := ih (fun p hp => by
        rw [holeBySeat_congr hpaid.hole]
        exact hno p (by simp [hp])) hrest
      simpa using htail

/-- Either the winners are found, and what was paid back together with what is
awarded is every pot that has an eligible seat; or a pot cannot be evaluated,
and exactly the commitments have been refunded. -/
theorem assignPots_spec (hnested : Nested pots)
    (hok : assignPots h board5 seats pots = .ok (seats', outcome)) :
    (∃ potWinners paid, outcome = some potWinners ∧ Credits seats seats' paid ∧
      paid + awardSum pots potWinners + potSum List.isEmpty pots = potSum (fun _ => true) pots) ∨
    (outcome = none ∧ Credits seats seats' (commitSum h) ∧ ∃ pot ∈ pots, ∃ text,
        decidePot seats board5 pot = .ok (.evalError text)) := by
  induction pots generalizing seats outcome with
  | nil =>
    obtain ⟨rfl, rfl⟩ := hok
    exact Or.inl ⟨[], 0, rfl, .refl _, rfl⟩
  | cons pot rest ih =>
    obtain ⟨hlater, hnested⟩ := List.pairwise_cons.mp hnested
    rcases assignPots_cons hok with
      ⟨text, hdecide, hrefund, rfl⟩ |
      ⟨middle, paid, ws, tail, hpaid, hamount, hhidden, hrest, rfl⟩
    · exact Or.inr ⟨rfl, refundCommits_credits hrefund, pot, by simp, text, hdecide⟩
    · rcases ih hnested hrest with
        ⟨potWinners, paid', rfl, hpaid', hsum⟩ |
        ⟨rfl, hrefund, p, hp, text, hdecide⟩
      · refine Or.inl ⟨ws :: potWinners, paid + paid', rfl, hpaid.trans hpaid', ?_⟩
        simp only [awardSum, potSum_cons, List.isEmpty_iff, if_true]
        split at hamount <;> split at hamount <;> simp_all <;> omega
      · -- A pot paid back before the error would have no revealed hand,
        -- and neither would any later pot.
        have hzero : paid = 0 := by
          by_contra hne
          have hno : NoReveals middle rest := by
            intro q hq
            rw [holeBySeat_congr hpaid.hole]
            have hsub := holeBySeat_sublist seats (hlater q hq)
            rw [hhidden hne] at hsub
            exact List.sublist_nil.mp hsub
          exact assignPots_of_noReveals hno hrest rfl
        subst hzero
        refine Or.inr ⟨rfl, ?_, p, by simp [hp], text, ?_⟩
        · simpa using hpaid.trans hrefund
        · rwa [decidePot_congr hpaid.hole] at hdecide

/-! ## The settlement -/

def contenders (h : Hand) : List SeatIdx :=
  (List.finRange 9).filter fun i =>
    decide (h.totalCommit i ≠ 0) && inHandNotFolded h i

def showdownBoard (h : Hand) : List Card := (h.board.take 5).map toCard

/-- Two or more contenders have shown their cards, and the seven cards of one
of them are not valid and different. -/
def CardsConflict (seats : Seats) (h : Hand) : Prop :=
  2 ≤ (holeBySeat seats (contenders h)).length ∧
    ∃ e ∈ holeBySeat seats (contenders h), ¬ DistinctCards (e.cards7 (showdownBoard h))

theorem eligibleRems_remainingCommits (h : Hand) :
    eligibleRems (remainingCommits h.totalCommit (inHandNotFolded h)) = contenders h := by
  simp only [eligibleRems, remainingCommits, contenders, List.filter_map,
    List.map_map, List.filter_filter]
  have hid : ((fun r : Rem => r.seat) ∘ fun i =>
      (⟨i, h.totalCommit i, inHandNotFolded h i⟩ : Rem)) = id := rfl
  rw [hid, List.map_id]
  apply List.filter_congr
  intro i _
  simp [Bool.and_comm]

theorem mergeTiers_last {tiers merged merged' : List SidePot} {p : SidePot}
    (hok : tiers.foldlM mergeTier merged = .ok merged') (hlast : merged.getLast? = some p) :
    ∃ q, merged'.getLast? = some q ∧ q.eligibleSeats = p.eligibleSeats ∧ p.amount ≤ q.amount := by
  induction tiers generalizing merged p with
  | nil =>
    cases hok
    exact ⟨p, hlast, rfl, Nat.le_refl _⟩
  | cons tier rest ih =>
    rw [List.foldlM_cons, bind_ok_iff] at hok
    obtain ⟨next, hmerge, hrest⟩ := hok
    have hnext : ∃ q, next.getLast? = some q ∧
        q.eligibleSeats = p.eligibleSeats ∧ p.amount ≤ q.amount := by
      cases merged with
      | nil => simp at hlast
      | cons newest earlier =>
        simp only [mergeTier] at hmerge
        split at hmerge
        · simp only [ok_iff] at hmerge
          obtain ⟨nextAmt, hadd, rfl⟩ := hmerge
          have hadd := addUint64Checked_ok hadd
          cases earlier with
          | nil =>
            simp only [List.getLast?_singleton, Option.some.injEq] at hlast
            subst hlast
            exact ⟨_, rfl, rfl, by simp [hadd]⟩
          | cons second others => exact ⟨p, hlast, rfl, Nat.le_refl _⟩
        · cases hmerge
          exact ⟨p, hlast, rfl, Nat.le_refl _⟩
    obtain ⟨q, hq, hseats, hle⟩ := hnext
    obtain ⟨q', hq', hseats', hle'⟩ := ih hrest hq
    exact ⟨q', hq', hseats'.trans hseats, Nat.le_trans hle hle'⟩

theorem computeSidePots_first (hok : computeSidePots h.totalCommit (inHandNotFolded h) = .ok pots)
    (hne : contenders h ≠ []) :
    ∃ first rest, pots = first :: rest ∧ first.eligibleSeats = contenders h ∧ first.amount ≠ 0 := by
  simp only [computeSidePots, ok_iff] at hok
  obtain ⟨tiers, htiers, merged, hmerged, rfl⟩ := hok
  have hremaining : remainingCommits h.totalCommit (inHandNotFolded h) ≠ [] := by
    intro hnil
    apply hne
    rw [← eligibleRems_remainingCommits, hnil]
    rfl
  have hpos := List.length_pos_of_ne_nil hremaining
  obtain ⟨passes, hpasses⟩ := Nat.exists_eq_succ_of_ne_zero hpos.ne'
  rw [hpasses] at htiers
  obtain ⟨restTiers, _, rfl⟩ := potsByTier_cons hremaining htiers
  rw [List.foldlM_cons, bind_ok_iff] at hmerged
  obtain ⟨start, hstart, hmerged⟩ := hmerged
  simp only [mergeTier, pure_ok_iff] at hstart
  subst hstart
  obtain ⟨first, hfirst, hseats, hle⟩ := mergeTiers_last hmerged List.getLast?_singleton
  obtain ⟨r, hr, hmin⟩ := minAmount_attained hremaining
  have hamount : r.amount ≠ 0 := by
    simp only [remainingCommits, List.mem_map, List.mem_filter] at hr
    obtain ⟨i, ⟨_, hi⟩, rfl⟩ := hr
    simpa using hi
  rw [← List.head?_reverse] at hfirst
  obtain ⟨rest, hrest⟩ := List.head?_eq_some_iff.mp hfirst
  refine ⟨first, rest, hrest, ?_, ?_⟩
  · rw [hseats, eligibleRems_remainingCommits]
  · have hprod : 0 < minAmount (remainingCommits h.totalCommit (inHandNotFolded h)) *
        (remainingCommits h.totalCommit (inHandNotFolded h)).length :=
      Nat.mul_pos (by omega) hpos
    dsimp only at hle
    omega

section

variable (hboard : 5 ≤ h.board.length)
  (hpots : computeSidePots h.totalCommit (inHandNotFolded h) = .ok pots)
include hboard hpots

theorem conflict_of_evalError (hpot : pot ∈ pots) {text : String}
    (hdecide : decidePot seats (showdownBoard h) pot = .ok (.evalError text)) :
    CardsConflict seats h := by
  obtain ⟨htwo, _, herror⟩ := decidePot_sound hdecide
  have hlen : (showdownBoard h).length = 5 := by simp [showdownBoard, hboard]
  have hsub : (holeBySeat seats pot.eligibleSeats).Sublist (holeBySeat seats (contenders h)) := by
    apply holeBySeat_sublist
    rw [← eligibleRems_remainingCommits]
    exact computeSidePots_eligible hpots pot hpot
  refine ⟨le_trans htwo hsub.length_le, ?_⟩
  by_contra hall
  have hdistinct : ∀ e ∈ holeBySeat seats pot.eligibleSeats,
      DistinctCards (e.cards7 (showdownBoard h)) := by
    intro e he
    by_contra hbad
    exact hall ⟨e, hsub.subset he, hbad⟩
  obtain ⟨_, hwinners⟩ := winners_ok hlen (List.ne_nil_of_length_pos (by omega)) hdistinct
  rw [hwinners] at herror
  cases herror

theorem assignPots_of_conflict (hconflict : CardsConflict seats h)
    (hok : assignPots h (showdownBoard h) seats pots = .ok (seats', outcome)) :
    outcome = none := by
  obtain ⟨htwo, hbad⟩ := hconflict
  have hlen : (showdownBoard h).length = 5 := by simp [showdownBoard, hboard]
  have hne : contenders h ≠ [] := by
    intro hnil
    simp [hnil, holeBySeat] at htwo
  obtain ⟨first, rest, rfl, hseats, hamount⟩ := computeSidePots_first hpots hne
  obtain ⟨text, hwinners⟩ := winners_conflict hlen hbad
  have hdecide : decidePot seats (showdownBoard h) first = .ok (.evalError text) := by
    unfold decidePot
    rw [if_neg (by simp [hamount, hseats, hne]), hseats]
    split
    · rename_i seat hsingle
      have hle : (holeBySeat seats (contenders h)).length ≤ (contenders h).length := by
        simpa [holeBySeat] using List.length_filter_le _ (contenders h)
      rw [hsingle, List.length_singleton] at hle
      rw [hsingle] at htwo
      omega
    · rename_i hone _
      rw [hone] at htwo
      simp at htwo
    · rename_i hnone _
      rw [hnone] at htwo
      simp at htwo
    · rw [hwinners]
      rfl
  simp only [assignPots, hdecide, ok_bind, ok_iff, Prod.mk.injEq] at hok
  obtain ⟨_, _, _, hnone⟩ := hok
  exact hnone.symm

end

/-- What a settlement pays.  A conflict of cards refunds every commitment;
otherwise the stranded chips are missing from the stacks. -/
theorem settleKnownShowdown_spec (hok : settleKnownShowdown seats h = .ok seats')
    (hboard : 5 ≤ h.board.length) :
    SameOwners seats seats' ∧
      ((CardsConflict seats h ∧ stackSum seats' = stackSum seats + commitSum h) ∨
        (¬ CardsConflict seats h ∧
          stackSum seats' + strandedChips h.totalCommit (inHandNotFolded h) =
            stackSum seats + commitSum h)) := by
  unfold settleKnownShowdown at hok
  rw [if_neg (by omega)] at hok
  simp only [ok_iff] at hok
  obtain ⟨pots, hpots, ⟨paidSeats, outcome⟩, hassign, hok⟩ := hok
  obtain ⟨hall, hempty, hnested⟩ := computeSidePots_spec hpots
  rcases assignPots_spec hnested hassign with
    ⟨potWinners, paid, rfl, hpaid, hsum⟩ |
    ⟨rfl, hrefund, pot, hpot, text, hdecide⟩
  · simp only [ok_iff] at hok
    obtain ⟨awarded, haward, rfl⟩ := hok
    have hcredits := hpaid.trans (awardPots_credits haward)
    refine ⟨hcredits.owners.trans (sameOwners_clearHoles _), Or.inr ⟨?_, ?_⟩⟩
    · intro hconflict
      have hnone := assignPots_of_conflict hboard hpots hconflict hassign
      cases hnone
    · have hstacks := hcredits.paid
      rw [stackSum_clearHoles, commitSum]
      omega
  · simp only [pure_ok_iff] at hok
    subst hok
    refine ⟨hrefund.owners.trans (sameOwners_clearHoles _), Or.inl ⟨?_, ?_⟩⟩
    · exact conflict_of_evalError hboard hpots hpot hdecide
    · rw [stackSum_clearHoles]
      exact hrefund.paid

theorem settleKnownShowdown_le (hok : settleKnownShowdown seats h = .ok seats') :
    SameOwners seats seats' ∧ stackSum seats' ≤ stackSum seats + commitSum h := by
  by_cases hboard : 5 ≤ h.board.length
  · obtain ⟨howners, hsum⟩ := settleKnownShowdown_spec hok hboard
    exact ⟨howners, by omega⟩
  · unfold settleKnownShowdown at hok
    rw [if_pos (by omega), pure_ok_iff] at hok
    subst hok
    exact ⟨.refl _, Nat.le_add_right _ _⟩

end OnChainPoker.Poker
