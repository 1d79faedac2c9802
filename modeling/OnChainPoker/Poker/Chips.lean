import Mathlib.Algebra.BigOperators.Fin
import OnChainPoker.Foundation.Loop
import OnChainPoker.Poker.Reveal

/-!
# Where the chips are

Every chip of a table is on a stack, in a bond, or committed to the active
hand.  An action of the betting loop moves chips between the stack and the
commitment of one seat, so it preserves `stack + totalCommit` seat by seat; the
operations that end a hand move the commitments back onto stacks.
-/

namespace OnChainPoker.Poker

open Foundation

variable {seats seats' : Seats} {h h' : Hand} {seat : SeatIdx} {amount : Nat}
  {first second third : Seats} {field : String}

def stackSum (seats : Seats) : Nat := ∑ i, (seats i).stack

def bondSum (seats : Seats) : Nat := ∑ i, (seats i).bond

def commitSum (h : Hand) : Nat := ∑ i, h.totalCommit i

structure SameOwners (seats seats' : Seats) : Prop where
  player : ∀ i, (seats' i).player = (seats i).player
  bond : ∀ i, (seats' i).bond = (seats i).bond
  pk : ∀ i, (seats' i).pk = (seats i).pk

theorem SameOwners.refl (seats : Seats) : SameOwners seats seats :=
  ⟨fun _ => rfl, fun _ => rfl, fun _ => rfl⟩

theorem SameOwners.trans (h : SameOwners first second) (h' : SameOwners second third) :
    SameOwners first third :=
  ⟨fun i => (h'.player i).trans (h.player i),
    fun i => (h'.bond i).trans (h.bond i), fun i => (h'.pk i).trans (h.pk i)⟩

theorem SameOwners.bondSum_eq (h : SameOwners seats seats') : bondSum seats' = bondSum seats :=
  Finset.sum_congr rfl fun i _ => h.bond i

variable {i : SeatIdx} {minBet desired : Nat} {params : TableParams} {action : Action}

theorem sameOwners_update {s : Seat} (hplayer : s.player = (seats i).player)
    (hbond : s.bond = (seats i).bond) (hpk : s.pk = (seats i).pk) :
    SameOwners seats (Function.update seats i s) := by
  have hkept : ∀ {α : Type} (field : Seat → α), field s = field (seats i) →
      ∀ j, field (Function.update seats i s j) = field (seats j) := by
    intro α field hfield j
    by_cases hj : j = i
    · subst hj
      simpa using hfield
    · simp [hj]
  exact ⟨hkept _ hplayer, hkept _ hbond, hkept _ hpk⟩

theorem sameStacks_slash (seats : Seats) (i : SeatIdx) (amount : Nat) (j : SeatIdx) :
    (Function.update seats i { seats i with bond := (seats i).bond - amount } j).player =
      (seats j).player ∧
    (Function.update seats i { seats i with bond := (seats i).bond - amount } j).stack =
      (seats j).stack := by
  by_cases hj : j = i
  · subst hj
    simp
  · simp [hj]

theorem sameOwners_clearHoles (seats : Seats) : SameOwners seats (clearHoles seats) :=
  ⟨fun _ => rfl, fun _ => rfl, fun _ => rfl⟩

@[simp] theorem stackSum_clearHoles (seats : Seats) :
    stackSum (clearHoles seats) = stackSum seats := rfl

/-! ## Moves between stack and commitment -/

structure KeepsChips (seats : Seats) (h : Hand) (seats' : Seats) (h' : Hand) :
    Prop where
  owners : SameOwners seats seats'
  chips : ∀ i, (seats' i).stack + h'.totalCommit i = (seats i).stack + h.totalCommit i

theorem KeepsChips.trans {h h' h'' : Hand} (hfirst : KeepsChips first h second h')
    (hsecond : KeepsChips second h' third h'') :
    KeepsChips first h third h'' :=
  ⟨hfirst.owners.trans hsecond.owners, fun i => (hsecond.chips i).trans (hfirst.chips i)⟩

theorem keepsChips_of_totalCommit (seats : Seats)
    (hcommit : h'.totalCommit = h.totalCommit) : KeepsChips seats h seats h' :=
  ⟨.refl seats, fun i => by rw [hcommit]⟩

theorem KeepsChips.sum (hkeeps : KeepsChips seats h seats' h') :
    stackSum seats' + commitSum h' = stackSum seats + commitSum h := by
  simp only [stackSum, commitSum, ← Finset.sum_add_distrib]
  exact Finset.sum_congr rfl fun i _ => hkeeps.chips i

theorem keepsChips_update {stack commit : Nat}
    (hcommit : h'.totalCommit = Function.update h.totalCommit i commit)
    (hmove : stack + commit = (seats i).stack + h.totalCommit i) :
    KeepsChips seats h (Function.update seats i { seats i with stack := stack }) h' := by
  refine ⟨sameOwners_update rfl rfl rfl, ?_⟩
  intro j
  rw [hcommit]
  by_cases hj : j = i
  · subst hj
    simpa using hmove
  · simp [hj]

theorem commitChips_ok (hok : commitChips seats h seat amount = .ok (seats', h')) :
    seats' = Function.update seats seat { seats seat with stack := (seats seat).stack - amount } ∧
      h' = { h with
        streetCommit := Function.update h.streetCommit seat (h.streetCommit seat + amount)
        totalCommit := Function.update h.totalCommit seat (h.totalCommit seat + amount)
        allIn := if (seats seat).stack - amount = 0 then
          Function.update h.allIn seat true else h.allIn } := by
  simp only [commitChips, ok_iff, Prod.mk.injEq] at hok
  obtain ⟨street, hstreet, total, htotal, hseats, hhand⟩ := hok
  have hstreet := addUint64Checked_ok hstreet
  have htotal := addUint64Checked_ok htotal
  subst hstreet htotal
  exact ⟨hseats.symm, hhand.symm⟩

theorem commitChips_hole (hok : commitChips seats h seat amount = .ok (seats', h')) (i : SeatIdx) :
    (seats' i).hole = (seats i).hole := by
  obtain ⟨rfl, _⟩ := commitChips_ok hok
  by_cases hi : i = seat
  · subst hi
    simp
  · simp [hi]

theorem commitChips_keeps (hamount : amount ≤ (seats seat).stack)
    (hok : commitChips seats h seat amount = .ok (seats', h')) :
    KeepsChips seats h seats' h' := by
  obtain ⟨hseats, hhand⟩ := commitChips_ok hok
  subst hseats
  exact keepsChips_update (by rw [hhand]) (by omega)

theorem postBlindCommit_ok (hok : postBlindCommit seats h seat amount = .ok (seats', h')) :
    h.inHand seat = true ∧
      commitChips seats h seat (min amount (seats seat).stack) = .ok (seats', h') := by
  simp only [postBlindCommit, ok_iff, Bool.not_eq_false] at hok
  obtain ⟨_, hin, _, _, hcommit⟩ := hok
  exact ⟨hin, hcommit⟩

theorem postBlindCommit_keeps (hok : postBlindCommit seats h seat amount = .ok (seats', h')) :
    KeepsChips seats h seats' h' :=
  commitChips_keeps (Nat.min_le_right _ _) (postBlindCommit_ok hok).2

theorem raiseBetTo_ok {isAllIn : Bool} (hok : raiseBetTo minBet h seat desired isAllIn = .ok h') :
    ∃ intervalId minRaiseSize,
      h' = markActed { h with
        intervalId := intervalId
        minRaiseSize := minRaiseSize
        betTo := desired } seat := by
  simp only [raiseBetTo] at hok
  split at hok
  · simp only [ok_iff] at hok
    obtain ⟨_, _, hhand⟩ := hok
    exact ⟨_, _, hhand.symm⟩
  · split at hok
    · simp only [ok_iff] at hok
      obtain ⟨_, _, hhand⟩ := hok
      exact ⟨_, _, hhand.symm⟩
    · exact ⟨_, _, (pure_ok_iff.mp hok).symm⟩

theorem applyBetTo_ok (hok : applyBetTo minBet seats h seat desired = .ok (seats', h')) :
    ∃ intervalId minRaiseSize, h.streetCommit seat < desired ∧ h.betTo < desired ∧
      desired - h.streetCommit seat ≤ (seats seat).stack ∧
      commitChips seats (markActed { h with
          intervalId := intervalId
          minRaiseSize := minRaiseSize
          betTo := desired } seat) seat (desired - h.streetCommit seat) =
        .ok (seats', h') := by
  simp only [applyBetTo, ok_iff, not_le] at hok
  obtain ⟨_, hmore, maxCommit, hmax, _, hle, _, hraises, _, _, raised, hraise, hcommit⟩ := hok
  have hmax := addUint64Checked_ok hmax
  obtain ⟨interval, size, rfl⟩ := raiseBetTo_ok hraise
  exact ⟨interval, size, hmore, hraises, by omega, hcommit⟩

theorem applyCall_keeps (hok : applyCall seats h seat = .ok (seats', h')) :
    KeepsChips seats h seats' h' := by
  simp only [applyCall, ok_iff, Prod.mk.injEq] at hok
  obtain ⟨_, _, ⟨paidSeats, paid⟩, hcommit, hseats, hhand⟩ := hok
  subst hseats hhand
  have hkeeps := commitChips_keeps (Nat.min_le_right _ _) hcommit
  exact ⟨hkeeps.owners, hkeeps.chips⟩

inductive Performed (params : TableParams) (seats : Seats) (h : Hand) (seat : SeatIdx)
    (amount : Nat) : Action → Seats → Hand → Prop
  | fold : Performed params seats h seat amount .fold seats (applyFold h seat)
  | check : toCall h seat = 0 →
      Performed params seats h seat amount .check seats (markActed h seat)
  | call {seats' : Seats} {paid : Hand} : toCall h seat ≠ 0 →
      commitChips seats h seat (min (toCall h seat) (seats seat).stack) =
        .ok (seats', paid) →
      Performed params seats h seat amount .call seats' (markActed paid seat)
  | bet {seats' : Seats} {h' : Hand} :
      applyBetTo params.bigBlind seats h seat amount = .ok (seats', h') →
      Performed params seats h seat amount .bet seats' h'
  | raise {seats' : Seats} {h' : Hand} :
      applyBetTo params.bigBlind seats h seat amount = .ok (seats', h') →
      Performed params seats h seat amount .raise seats' h'

theorem performAction_cases
    (hok : performAction params seats h seat action amount = .ok (seats', h')) :
    Performed params seats h seat amount action seats' h' := by
  cases action with
  | fold =>
    cases hok
    exact .fold
  | check =>
    simp only [performAction, applyCheck, ok_iff, not_not, Prod.mk.injEq] at hok
    obtain ⟨_, ⟨_, hneed, rfl⟩, rfl, rfl⟩ := hok
    exact .check hneed
  | call =>
    simp only [performAction, applyCall, ok_iff, Prod.mk.injEq] at hok
    obtain ⟨_, hneed, ⟨_, paid⟩, hcommit, rfl, rfl⟩ := hok
    exact .call hneed hcommit
  | bet =>
    simp only [performAction, ok_iff] at hok
    obtain ⟨_, _, _, _, hbet⟩ := hok
    exact .bet hbet
  | raise =>
    simp only [performAction, ok_iff] at hok
    obtain ⟨_, _, _, _, hbet⟩ := hok
    exact .raise hbet
  | other text => cases hok

theorem performAction_keeps
    (hok : performAction params seats h seat action amount = .ok (seats', h')) :
    KeepsChips seats h seats' h' := by
  cases performAction_cases hok with
  | fold | check _ => exact keepsChips_of_totalCommit _ rfl
  | call => exact applyCall_keeps hok
  | bet hbet | raise hbet =>
    obtain ⟨_, _, _, _, hle, hcommit⟩ := applyBetTo_ok hbet
    have hkeeps := commitChips_keeps hle hcommit
    exact ⟨hkeeps.owners, hkeeps.chips⟩

theorem streetCommit_le_max (h : Hand) (i : SeatIdx) : h.streetCommit i ≤ maxCommitThisStreet h :=
  (le_foldl_max h.streetCommit 0).2 i (List.mem_finRange i)

theorem secondMax_le (h : Hand) :
    secondMaxCommitThisStreet h (maxCommitThisStreet h) ≤ maxCommitThisStreet h := by
  apply foldl_invariant (· ≤ maxCommitThisStreet h)
  · intro i _ second hsecond
    have hle := streetCommit_le_max h i
    split
    · exact hsecond
    · exact Nat.max_le.mpr ⟨hsecond, hle⟩
  · exact Nat.zero_le _

inductive Returned (seats : Seats) (h : Hand) : Seats → Hand → Prop
  | same : Returned seats h seats h
  | refund (maxSeat : SeatIdx) {excess : Nat} (hpos : 0 < excess)
      (honly : ((List.finRange 9).filter fun i =>
        h.streetCommit i = maxCommitThisStreet h) = [maxSeat])
      (htotal : excess ≤ h.totalCommit maxSeat) :
      Returned seats h
        (Function.update seats maxSeat
          { seats maxSeat with stack := (seats maxSeat).stack + excess })
        { h with
          streetCommit := Function.update h.streetCommit maxSeat
            (h.streetCommit maxSeat - excess)
          totalCommit := Function.update h.totalCommit maxSeat
            (h.totalCommit maxSeat - excess)
          allIn := Function.update h.allIn maxSeat false }

theorem returnUncalledStreetExcess_cases
    (hok : returnUncalledStreetExcess seats h = .ok (seats', h')) :
    Returned seats h seats' h' := by
  have hsecond := secondMax_le h
  simp only [returnUncalledStreetExcess] at hok
  split at hok
  · cases hok
    exact .same
  · rename_i hexcess
    split at hok
    · rename_i maxSeat honly
      simp only [ok_iff, Prod.mk.injEq, not_lt] at hok
      obtain ⟨nextStack, hadd, _, _, _, htotal, rfl, rfl⟩ := hok
      obtain rfl := addUint64Checked_ok hadd
      rw [if_pos (by omega)]
      exact .refund maxSeat (by omega) honly htotal
    · cases hok
      exact .same

theorem returnUncalledStreetExcess_keeps
    (hok : returnUncalledStreetExcess seats h = .ok (seats', h')) :
    KeepsChips seats h seats' h' := by
  cases returnUncalledStreetExcess_cases hok with
  | same => exact keepsChips_of_totalCommit _ rfl
  | refund maxSeat _ _ htotal => exact keepsChips_update rfl (by omega)

/-! ## The end of a hand -/

theorem credit_ok (hok : credit seats seat amount field = .ok seats') :
    seats' = Function.update seats seat
      { seats seat with stack := (seats seat).stack + amount } := by
  simp only [credit, ok_iff] at hok
  obtain ⟨nextStack, hadd, hseats⟩ := hok
  rw [← hseats, addUint64Checked_ok hadd]

theorem stackSum_update (seats : Seats) (i : SeatIdx) (stack : Nat) :
    stackSum (Function.update seats i { seats i with stack := stack }) +
        (seats i).stack = stackSum seats + stack :=
  sum_update_exchange Seat.stack seats i { seats i with stack := stack }

/-- Payments of `amount` in total onto stacks; nothing else changes. -/
structure Credits (seats seats' : Seats) (amount : Nat) : Prop where
  owners : SameOwners seats seats'
  hole : ∀ i, (seats' i).hole = (seats i).hole
  paid : stackSum seats' = stackSum seats + amount

theorem Credits.refl (seats : Seats) : Credits seats seats 0 := ⟨.refl seats, fun _ => rfl, rfl⟩

theorem Credits.trans {a b : Nat} (h : Credits first second a)
    (h' : Credits second third b) : Credits first third (a + b) := by
  refine ⟨h.owners.trans h'.owners, ?_, ?_⟩
  · intro i
    rw [h'.hole, h.hole]
  · rw [h'.paid, h.paid]
    omega

theorem credit_credits (hok : credit seats seat amount field = .ok seats') :
    Credits seats seats' amount := by
  have hsum := stackSum_update seats seat ((seats seat).stack + amount)
  rw [← credit_ok hok] at hsum
  refine ⟨?_, ?_, by omega⟩
  · rw [credit_ok hok]
    exact sameOwners_update rfl rfl rfl
  · intro i
    rw [credit_ok hok]
    by_cases hi : i = seat
    · subst hi
      simp
    · simp [hi]

theorem refundCommits_ok (hok : refundCommits seats h = .ok seats') (i : SeatIdx) :
    seats' i = { seats i with stack := (seats i).stack + h.totalCommit i } := by
  have hcells := foldlM_update
    (fun i s => { s with stack := s.stack + h.totalCommit i })
    (fun _ _ _ hstep => credit_ok hstep) (List.nodup_finRange 9) hok i
  simpa using hcells

theorem refundCommits_credits (hok : refundCommits seats h = .ok seats') :
    Credits seats seats' (commitSum h) := by
  have hcells := refundCommits_ok hok
  refine ⟨⟨fun i => by rw [hcells], fun i => by rw [hcells],
    fun i => by rw [hcells]⟩, fun i => by rw [hcells], ?_⟩
  simp only [stackSum, commitSum, ← Finset.sum_add_distrib]
  exact Finset.sum_congr rfl fun i _ => by rw [hcells]

theorem sum_checked_ok {α : Type} {weight : α → Nat} {cells : List α} {start total : Nat}
    (hok : cells.foldlM (fun pot i => addUint64Checked pot (weight i) field) start = .ok total) :
    total = start + (cells.map weight).sum := by
  induction cells generalizing start with
  | nil =>
    cases hok
    simp
  | cons i rest ih =>
    rw [List.foldlM_cons, bind_ok_iff] at hok
    obtain ⟨next, hadd, hrest⟩ := hok
    have hadd := addUint64Checked_ok hadd
    have htotal := ih hrest
    simp only [List.map_cons, List.sum_cons]
    omega

theorem potTotal_ok {pot : Nat} (hok : potTotal h = .ok pot) : pot = commitSum h := by
  rw [sum_checked_ok hok, Nat.zero_add, commitSum, Fin.sum_univ_def]

theorem completeByFolds_spec (hok : completeByFolds seats h = .ok seats') :
    SameOwners seats seats' ∧ stackSum seats' ≤ stackSum seats + commitSum h := by
  unfold completeByFolds at hok
  split at hok
  · cases hok
    exact ⟨.refl _, Nat.le_add_right _ _⟩
  · rename_i winner _
    simp only [ok_iff] at hok
    obtain ⟨⟨refunded, h'⟩, hexcess, pot, hpot, nextStack, hadd, rfl⟩ := hok
    have hkeeps := returnUncalledStreetExcess_keeps hexcess
    have hsum := hkeeps.sum
    have hpot := potTotal_ok hpot
    have hadd := addUint64Checked_ok hadd
    have hwin := stackSum_update refunded winner nextStack
    have howners : SameOwners refunded (Function.update refunded winner
        { refunded winner with stack := nextStack }) :=
      sameOwners_update rfl rfl rfl
    refine ⟨hkeeps.owners.trans (howners.trans (sameOwners_clearHoles _)), ?_⟩
    rw [stackSum_clearHoles]
    dsimp only at hpot hadd hwin ⊢
    omega

end OnChainPoker.Poker
