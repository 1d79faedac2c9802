import Mathlib.Algebra.Order.BigOperators.Group.Finset
import OnChainPoker.Poker.HandSteps

/-!
# Escrow solvency

The value of a table is what its seats and its active hand hold.  No step of a
table creates value: a step raises it by at most what was paid into escrow and
lowers it by at least what was paid out.  Hence the module account always covers
all stored tables.
-/

namespace OnChainPoker.Poker

open Foundation

variable {env : Env} {seats : Seats} {h : Hand} {t t' : Table} {deposit tid withdrawal : Nat}
  {s : State env}

def handValue (hand : Option Hand) : Nat := hand.elim 0 commitSum

def tableValue (t : Table) : Nat :=
  stackSum t.seats + bondSum t.seats + handValue t.hand

def escrowed (s : State env) : Nat := s.tables.total tableValue

/-! ## Hand steps -/

variable {params : TableParams} {seats' : Seats} {hand' : Option Hand} {s' : State env}
  {m : Msg env}

theorem applyAction_value {action : Action} {amount : Nat} {now : Int}
    (hok : applyAction params seats h action amount now = .ok (seats', hand')) :
    SameOwners seats seats' ∧ stackSum seats' + handValue hand' ≤ stackSum seats + commitSum h := by
  obtain ⟨actor, middleSeats, middle, hand, _, _, _, _, hperform, hadvance,
    hdeadlines⟩ := applyAction_ok hok
  have hkeeps := performAction_keeps hperform
  have hsum := hkeeps.sum
  have hvalue : handValue hand' = handValue hand := by
    rcases setDeadlinesIfActive_ok hdeadlines with
      ⟨rfl, rfl⟩ | ⟨h', _, _, _, rfl, rfl⟩ <;> rfl
  rw [hvalue]
  rcases maybeAdvance_ok hadvance with
    ⟨_, hcomplete, rfl⟩ | ⟨_, _, rfl, rfl⟩ | ⟨_, _, h', hexcess, rfl⟩
  · obtain ⟨howners, hle⟩ := completeByFolds_spec hcomplete
    refine ⟨hkeeps.owners.trans howners, ?_⟩
    simp only [handValue, Option.elim]
    omega
  · exact ⟨hkeeps.owners, le_of_eq hsum⟩
  · have hreturn := returnUncalledStreetExcess_keeps hexcess
    refine ⟨hkeeps.owners.trans hreturn.owners, ?_⟩
    exact le_of_eq (hreturn.sum.trans hsum)

theorem applyDealerRevealToPoker_value {pos cardID : Nat}
    (hok : applyDealerRevealToPoker params seats h pos cardID = .ok (seats', hand')) :
    SameOwners seats seats' ∧ stackSum seats' + handValue hand' ≤ stackSum seats + commitSum h := by
  rcases applyDealerRevealToPoker_ok hok with
    ⟨_, _, h', _, hreveal, rfl, rfl⟩ | ⟨_, hreveal⟩
  · obtain ⟨_, _, rfl⟩ := applyBoardReveal_ok hreveal
    refine ⟨.refl _, le_of_eq ?_⟩
    simp only [handValue, Option.elim, commitSum]
    split
    · rw [enterStreet_totalCommit]
    · rfl
  · obtain ⟨seat, holeIdx, _, _, hend⟩ := applyHoleReveal_ok hreveal
    obtain ⟨howners, hstacks⟩ := revealHole_credits seats seat holeIdx cardID
    have hsame : stackSum (revealHole seats seat holeIdx cardID) =
        stackSum seats := Finset.sum_congr rfl fun i _ => hstacks i
    rcases hend with ⟨_, _, rfl, rfl⟩ | ⟨hsettle, rfl⟩
    · refine ⟨howners, ?_⟩
      rw [hsame]
      exact Nat.le_refl _
    · obtain ⟨howners', hle⟩ := settleKnownShowdown_le hsettle
      refine ⟨howners.trans howners', ?_⟩
      simp only [handValue, Option.elim]
      omega

theorem HandStep.value_le (hstep : HandStep params seats h seats' hand') :
    SameOwners seats seats' ∧ stackSum seats' + handValue hand' ≤ stackSum seats + commitSum h := by
  cases hstep with
  | action action amount block hok => exact applyAction_value hok
  | deadline block hok =>
    obtain ⟨_, rfl⟩ := setActionDeadlineIfBetting_ok hok
    exact ⟨.refl _, Nat.le_refl _⟩
  | reveal pos cardID block hreveal hdeadlines =>
    obtain ⟨howners, hle⟩ := applyDealerRevealToPoker_value hreveal
    refine ⟨howners, ?_⟩
    rcases setDeadlinesIfActive_ok hdeadlines with
      ⟨rfl, rfl⟩ | ⟨h', _, _, _, rfl, rfl⟩
    · exact hle
    · exact hle
  | advance block _ _ hdeadlines =>
    obtain ⟨_, _, _, rfl⟩ := setDeadlines_ok hdeadlines
    exact ⟨.refl _, Nat.le_refl _⟩

/-! ## Table steps -/

theorem bondSum_update (seats : Seats) (i : SeatIdx) (seat : Seat) :
    bondSum (Function.update seats i seat) + (seats i).bond = bondSum seats + seat.bond :=
  sum_update_exchange Seat.bond seats i seat

theorem stackSum_replace (seats : Seats) (i : SeatIdx) (seat : Seat) :
    stackSum (Function.update seats i seat) + (seats i).stack = stackSum seats + seat.stack :=
  sum_update_exchange Seat.stack seats i seat

theorem normalizeTable_value_le (t : Table) : tableValue (normalizeTable t) ≤ tableValue t := by
  have hstack : stackSum (normalizeTable t).seats ≤ stackSum t.seats := by
    apply Finset.sum_le_sum
    intro i _
    simp only [normalizeTable, normalizeSeat]
    split <;> simp
  have hbond : bondSum (normalizeTable t).seats ≤ bondSum t.seats := by
    apply Finset.sum_le_sum
    intro i _
    simp only [normalizeTable, normalizeSeat]
    split <;> simp
  have hhand : (normalizeTable t).hand = t.hand := rfl
  simp only [tableValue, hhand]
  omega

theorem InnerStep.value_le (hstep : InnerStep t t' deposit withdrawal) :
    tableValue t' + withdrawal ≤ tableValue t + deposit := by
  cases hstep with
  | play hhand hplay =>
    obtain ⟨howners, hle⟩ := hplay.value_le
    have hbond := howners.bondSum_eq
    simp only [tableValue, hhand, handValue, Option.elim] at hle ⊢
    omega
  | abort hhand hrefund =>
    have hcredits := refundCommits_credits hrefund
    have hbond := (hcredits.owners.trans (sameOwners_clearHoles _)).bondSum_eq
    have hstacks := hcredits.paid
    simp only [tableValue, hhand, handValue, Option.elim, hbond, stackSum_clearHoles]
    omega
  | rebuy i amount _ _ _ =>
    have hstack := stackSum_replace t.seats i
      { t.seats i with stack := (t.seats i).stack + deposit }
    have hbond := bondSum_update t.seats i { t.seats i with stack := (t.seats i).stack + deposit }
    simp only [tableValue] at hstack hbond ⊢
    omega
  | slash i amount hamount =>
    have hstack := stackSum_replace t.seats i
      { t.seats i with bond := (t.seats i).bond - withdrawal }
    have hbond := bondSum_update t.seats i { t.seats i with bond := (t.seats i).bond - withdrawal }
    simp only [tableValue] at hstack hbond ⊢
    omega
  | eject i _ _ =>
    have hstack := stackSum_replace t.seats i emptySeat
    have hbond := bondSum_update t.seats i emptySeat
    simp only [tableValue, emptySeat] at hstack hbond ⊢
    omega
  | normalize => exact normalizeTable_value_le t

theorem TableRun.value_le (hrun : TableRun t t' deposit withdrawal) :
    tableValue t' + withdrawal ≤ tableValue t + deposit := by
  induction hrun with
  | refl => exact Nat.le_refl _
  | step _ hstep ih =>
    have hlast := hstep.value_le
    omega

theorem startHandOn_value (hok : startHandOn t = .ok t') (hnone : t.hand = none) :
    tableValue t' = tableValue t := by
  obtain ⟨_, _, seats, _, _, _, _, total, howners, hchips, -, rfl⟩ := startHandOn_fresh hok
  have hsum : stackSum seats + ∑ i, total i = stackSum t.seats := by
    simp only [stackSum, ← Finset.sum_add_distrib]
    exact Finset.sum_congr rfl fun i _ => hchips i
  simp only [tableValue, hnone, handValue, Option.elim, howners.bondSum_eq, commitSum]
  omega

/-! ## The module -/

def IdsValid (s : State env) : Prop :=
  ∀ tid t, s.tables.lookup tid = some t → t.id = tid ∧ tid < s.nextTableId

def Solvent (s : State env) : Prop :=
  IdsValid s ∧ escrowed s ≤ env.bank.moduleBalance s.balances

theorem getTable_id (hids : IdsValid s) (hget : s.getTable tid = some t) :
    t.id = tid ∧ tid < s.nextTableId ∧
      ∃ stored, s.tables.lookup tid = some stored ∧ t = normalizeTable stored := by
  simp only [State.getTable, Option.map_eq_some_iff] at hget
  obtain ⟨stored, hlookup, rfl⟩ := hget
  obtain ⟨hid, hlt⟩ := hids tid stored hlookup
  exact ⟨hid, hlt, stored, hlookup, rfl⟩

theorem getTable_next (hids : IdsValid s) : s.getTable s.nextTableId = none := by
  cases hget : s.getTable s.nextTableId with
  | none => rfl
  | some t => exact absurd (getTable_id hids hget).2.1 (Nat.lt_irrefl _)

theorem getTable_vacant (hget : s.getTable tid = some t) (i : SeatIdx)
    (hplayer : (t.seats i).player = "") : (t.seats i).stack = 0 := by
  simp only [State.getTable, Option.map_eq_some_iff] at hget
  obtain ⟨stored, _, rfl⟩ := hget
  simp only [normalizeTable, normalizeSeat_player] at hplayer
  simp [normalizeTable, normalizeSeat, hplayer]

section

variable (hreplaces : Replaces s s' t') (hids : IdsValid s)
  (hget : s.getTable tid = some t) (hid : t'.id = t.id)
include hreplaces hids hget hid

theorem Replaces.idsValid : IdsValid s' := by
  obtain ⟨htid, hlt, _⟩ := getTable_id hids hget
  intro key value hlookup
  rw [hreplaces.tables] at hlookup
  rw [hreplaces.nextTableId]
  by_cases hkey : key = t'.id
  · subst hkey
    rw [AList.lookup_insert] at hlookup
    cases hlookup
    exact ⟨rfl, by omega⟩
  · rw [AList.lookup_insert_ne hkey] at hlookup
    exact hids key value hlookup

theorem Replaces.escrowed_le : escrowed s' + tableValue t ≤ escrowed s + tableValue t' := by
  obtain ⟨htid, _, stored, hlookup, rfl⟩ := getTable_id hids hget
  have htotal := Store.total_insert tableValue s.tables t'.id (normalizeTable t')
  rw [hid, htid, hlookup] at htotal
  have hold := normalizeTable_value_le stored
  have hnew := normalizeTable_value_le t'
  simp only [escrowed, hreplaces.tables, hid, htid, Option.elim] at htotal ⊢
  omega

end

theorem TableEffect.id_eq (heffect : TableEffect t m t' deposit withdrawal) : t'.id = t.id := by
  cases heffect with
  | sit | leave => rfl
  | startHand block req _ hstart => exact startHandOn_id hstart
  | dealerInitHand | dealerFinalizeDeck => rfl
  | inner _ hrun => exact hrun.id_eq

theorem TableEffect.value_le (heffect : TableEffect t m t' deposit withdrawal) :
    tableValue t' + withdrawal ≤ tableValue t + deposit := by
  cases heffect with
  | sit req i seat _ _ _ _ _ _ _ =>
    have hstack := stackSum_replace t.seats i seat
    have hbond := bondSum_update t.seats i seat
    simp only [tableValue]
    omega
  | leave req i _ _ _ =>
    have hstack := stackSum_replace t.seats i emptySeat
    have hbond := bondSum_update t.seats i emptySeat
    simp only [tableValue, emptySeat] at hstack hbond ⊢
    omega
  | startHand block req hnone hstart =>
    have hsame := startHandOn_value hstart hnone
    omega
  | dealerInitHand _ _ _ _ hhand _ _ _ _ | dealerFinalizeDeck _ _ hhand _ _ _ =>
    simp only [tableValue, handValue, hhand, Option.elim, commitSum]
    exact Nat.le_refl _
  | inner _ hrun => exact hrun.value_le

theorem Effect.solvent (heffect : Effect s s' m) (hsolvent : Solvent s) : Solvent s' := by
  obtain ⟨hids, hcovered⟩ := hsolvent
  cases heffect with
  | createTable req _ _ hbank hnext htables =>
    refine ⟨?_, ?_⟩
    · intro key value hlookup
      rw [htables] at hlookup
      by_cases hkey : key = s.nextTableId
      · subst hkey
        rw [AList.lookup_insert] at hlookup
        cases hlookup
        exact ⟨rfl, by omega⟩
      · rw [AList.lookup_insert_ne hkey] at hlookup
        obtain ⟨hid, hlt⟩ := hids key value hlookup
        exact ⟨hid, by omega⟩
    · have htotal := Store.total_insert tableValue s.tables s.nextTableId
        (normalizeTable (newTable s.nextTableId req))
      have hzero := normalizeTable_value_le (newTable s.nextTableId req)
      have hfresh : tableValue (newTable s.nextTableId req) = 0 := by
        simp [tableValue, newTable, stackSum, bondSum, emptySeat, handValue]
      rw [← htables] at htotal
      simp only [escrowed, hbank] at hcovered ⊢
      omega
  | onTable _ hget htable hreplaces hbank =>
    have hvalue := hreplaces.escrowed_le hids hget htable.id_eq
    have hle := htable.value_le
    exact ⟨hreplaces.idsValid hids hget htable.id_eq, by omega⟩
  | otherTransaction balances _ hmore htables hnext =>
    refine ⟨?_, ?_⟩
    · intro key value hlookup
      rw [htables] at hlookup
      rw [hnext]
      exact hids key value hlookup
    · simp only [escrowed, htables] at hcovered ⊢
      omega

theorem solvent_genesis (balances : env.bank.Balances) : Solvent (State.genesis env balances) := by
  refine ⟨?_, Nat.zero_le _⟩
  intro tid t hlookup
  simp [State.genesis] at hlookup

def Reachable (s : State env) : Prop :=
  Foundation.Reachable handle (fun s => ∃ balances, s = State.genesis env balances) s

theorem reachable_solvent (hreach : Reachable s) : Solvent s := by
  apply hreach.invariant
  · rintro _ ⟨balances, rfl⟩
    exact solvent_genesis balances
  · exact fun _ _ _ _ hsolvent hok => (handle_effect hok).solvent hsolvent

/-- Whatever messages arrive, the module account holds at least the stacks,
bonds and commitments of all stored tables. -/
theorem escrow_solvent (env : Env) (balances : env.bank.Balances)
    (messages : List (Msg env)) :
    escrowed (run handle (State.genesis env balances) messages) ≤
      env.bank.moduleBalance
        (run handle (State.genesis env balances) messages).balances :=
  (run_invariant (solvent_genesis balances)
    (fun _ _ _ hsolvent hok => (handle_effect hok).solvent hsolvent)
    messages).2

/-! ## Refunds -/

/-- The escrow account holds no more than a `uint64` counts.  The supply of
`uchips` is fixed at 4,294,967,295,000,000 when the chain starts. -/
def SupplyFits (s : State env) : Prop := env.bank.moduleBalance s.balances ≤ maxUint64

theorem tableValue_le_balance (hsolvent : Solvent s) (hget : s.getTable tid = some t) :
    tableValue t ≤ env.bank.moduleBalance s.balances := by
  obtain ⟨_, _, stored, hlookup, rfl⟩ := getTable_id hsolvent.1 hget
  calc tableValue (normalizeTable stored)
      ≤ tableValue stored := normalizeTable_value_le stored
    _ ≤ escrowed s := Store.weight_le_total tableValue hlookup
    _ ≤ env.bank.moduleBalance s.balances := hsolvent.2

theorem tableValue_le_supply (hsolvent : Solvent s) (hsupply : SupplyFits s)
    (hget : s.getTable tid = some t) : tableValue t ≤ maxUint64 :=
  (tableValue_le_balance hsolvent hget).trans hsupply

theorem refundCommits_succeeds (hfits : stackSum seats + commitSum h ≤ maxUint64) :
    ∃ seats', refundCommits seats h = .ok seats' := by
  have hcell : ∀ i, (seats i).stack + h.totalCommit i ≤ maxUint64 := by
    intro i
    have hstack : (seats i).stack ≤ stackSum seats :=
      Finset.single_le_sum (f := fun i => (seats i).stack)
        (fun _ _ => Nat.zero_le _) (Finset.mem_univ i)
    have hcommit : h.totalCommit i ≤ commitSum h :=
      Finset.single_le_sum (f := h.totalCommit) (fun _ _ => Nat.zero_le _) (Finset.mem_univ i)
    omega
  -- Seats that are still to be refunded have their old stacks.
  have hloop : ∀ (cells : List SeatIdx), cells.Nodup → ∀ seats₀ : Seats,
      (∀ i ∈ cells, (seats₀ i).stack + h.totalCommit i ≤ maxUint64) →
      ∃ seats', cells.foldlM (fun seats i =>
        credit seats i (h.totalCommit i) "seat stack refund") seats₀ = .ok seats' := by
    intro cells
    induction cells with
    | nil => exact fun _ seats₀ _ => ⟨seats₀, rfl⟩
    | cons i rest ih =>
      intro hnodup seats₀ hroom
      obtain ⟨hout, hnodup⟩ := List.nodup_cons.mp hnodup
      have hi := addUint64Checked_of_le "seat stack refund" (hroom i List.mem_cons_self)
      simp only [List.foldlM_cons, credit, hi, ok_bind, pure_bind]
      refine ih hnodup _ fun j hj => ?_
      have hne : j ≠ i := by
        rintro rfl
        exact hout hj
      rw [Function.update_of_ne hne]
      exact hroom j (List.mem_cons_of_mem i hj)
  exact hloop _ (List.nodup_finRange 9) seats fun i _ => hcell i

theorem abortHandRefundAllCommits_succeeds (hsolvent : Solvent s) (hsupply : SupplyFits s)
    (hget : s.getTable tid = some t) (hhand : t.hand = some h) :
    ∃ s', abortHandRefundAllCommits s tid h.handId = .ok s' := by
  have hvalue := tableValue_le_supply hsolvent hsupply hget
  simp only [tableValue, handValue, hhand, Option.elim_some] at hvalue
  have hfits : stackSum t.seats + commitSum h ≤ maxUint64 := by omega
  obtain ⟨seats', hrefund⟩ := refundCommits_succeeds hfits
  have hload : s.loadHand tid h.handId = .ok (t, h) := by
    simp [State.loadHand, State.loadTable, hget, hhand, require_eq_ok]
  simp only [abortHandRefundAllCommits, hload, ok_bind, hrefund]
  exact ⟨_, rfl⟩

end OnChainPoker.Poker
