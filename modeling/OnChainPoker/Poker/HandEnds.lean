import OnChainPoker.Poker.HandEffects

/-!
# How a hand ends

A hand ends in an action, after which the seats without a bond are ejected and
the height is noted, or in a call of the dealer, after which neither happens.
`handle_outcome` says this of every accepted message.
-/

namespace OnChainPoker.Poker

open Foundation

variable {env : Env} {t : Table} {i : SeatIdx} {block : Block}

/-! ## Bonds -/

def Bonded (seats : Seats) (i : SeatIdx) : Prop :=
  (seats i).player = "" ∨ (seats i).bond ≠ 0

def BondsPaid (t : Table) : Prop := t.params.playerBond ≠ 0 → ∀ i, Bonded t.seats i

theorem BondsPaid.normalize (hpaid : BondsPaid t) : BondsPaid (normalizeTable t) := by
  intro hasks i
  rcases hpaid hasks i with hvacant | hbond
  · left
    simp [normalizeTable, normalizeSeat, hvacant]
  · by_cases hvacant : (t.seats i).player = ""
    · left
      simp [normalizeTable, normalizeSeat, hvacant]
    · right
      simpa [normalizeTable, normalizeSeat, hvacant] using hbond

theorem BondsPaid.update (hpaid : BondsPaid t) {seat : Seat}
    (hseat : t.params.playerBond ≠ 0 → seat.player = "" ∨ seat.bond ≠ 0) :
    BondsPaid { t with seats := Function.update t.seats i seat } := by
  intro hasks j
  by_cases hj : j = i
  · subst hj
    simpa [Bonded] using hseat hasks
  · simpa [Bonded, hj] using hpaid hasks j

theorem BondsPaid.sameOwners (hpaid : BondsPaid t) {seats : Seats}
    (howners : SameOwners t.seats seats) (hand : Option Hand) :
    BondsPaid { t with seats := seats, hand := hand } := by
  intro hasks i
  rw [Bonded, howners.player i, howners.bond i]
  exact hpaid hasks i

theorem ejectSeat_bonded {bs bs' : env.bank.Balances × Seats} (hok : ejectSeat bs i = .ok bs') :
    Bonded bs'.2 i ∧ ∀ j, Bonded bs.2 j → Bonded bs'.2 j := by
  obtain ⟨balances, seats⟩ := bs
  simp only [ejectSeat] at hok
  split at hok
  · rename_i hkeep
    cases hok
    exact ⟨hkeep, fun _ hj => hj⟩
  · simp only [ok_iff] at hok
    obtain ⟨_, _, paid, _, rfl⟩ := hok
    constructor
    · left
      simp [emptySeat]
    · intro j hj
      by_cases hsame : j = i
      · left
        simp [hsame, emptySeat]
      · simpa [Bonded, hsame] using hj

theorem ejectSeats_bonded {bs bs' : env.bank.Balances × Seats} {cells : List SeatIdx}
    (hok : cells.foldlM ejectSeat bs = .ok bs') :
    (∀ i ∈ cells, Bonded bs'.2 i) ∧ ∀ j, Bonded bs.2 j → Bonded bs'.2 j := by
  induction cells generalizing bs with
  | nil =>
    cases hok
    exact ⟨by simp, fun _ hj => hj⟩
  | cons i rest ih =>
    rw [List.foldlM_cons, bind_ok_iff] at hok
    obtain ⟨middle, hfirst, hrest⟩ := hok
    obtain ⟨hbonded, hkept⟩ := ejectSeat_bonded hfirst
    obtain ⟨hall, hkept'⟩ := ih hrest
    constructor
    · intro j hj
      rcases List.mem_cons.mp hj with rfl | hj
      · exact hkept' j hbonded
      · exact hall j hj
    · exact fun j hj => hkept' j (hkept j hj)

theorem ejectBondlessSeats_paid {balances balances' : env.bank.Balances} {seats' : Seats}
    (hnone : t.hand = none) (hok : ejectBondlessSeats balances t = .ok (balances', seats')) :
    BondsPaid { t with seats := seats' } := by
  intro hasks i
  have hasks : t.params.playerBond ≠ 0 := hasks
  simp only [ejectBondlessSeats, hnone, Option.isSome_none, Bool.false_eq_true,
    hasks, or_self, if_false] at hok
  exact (ejectSeats_bonded hok).1 i (List.mem_finRange i)

/-! ## Outcomes -/

def Msg.action : Msg env → Option (Block × Nat)
  | .act block req => some (block, req.tableId)
  | .tick block req => some (block, req.tableId)
  | _ => none

def Msg.settles : Msg env → Bool
  | .abortHandRefundAllCommits _ _ => true
  | .applyDealerReveal _ _ _ _ _ => true
  | _ => false

inductive Outcome (s s' : State env) (m : Msg env) (tid : Nat) (t t' : Table) : Prop
  | goesOn : t'.hand ≠ none → s'.lastHandEndedHeight = s.lastHandEndedHeight →
      Outcome s s' m tid t t'
  | foldedOut (block : Block) : m.action = some (block, tid) →
      t.hand ≠ none → t'.hand = none → BondsPaid t' →
      s'.lastHandEndedHeight = s.lastHandEndedHeight.insert tid block.height →
      Outcome s s' m tid t t'
  | settled : m.settles = true → t.hand ≠ none → t'.hand = none →
      (BondsPaid t → BondsPaid t') →
      s'.lastHandEndedHeight = s.lastHandEndedHeight → Outcome s s' m tid t t'
  | idle : t.hand = none → t'.hand = none → (BondsPaid t → BondsPaid t') →
      s'.lastHandEndedHeight = s.lastHandEndedHeight → Outcome s s' m tid t t'

def LeavesTable (s s' : State env) (m : Msg env) (tid : Nat) (t : Table) : Prop :=
  ∃ t', s'.getTable tid = some t' ∧ t'.params = t.params ∧ Outcome s s' m tid t t'

section Outcomes

variable {s s' : State env} {m : Msg env} {tid : Nat} {t t' : Table}

theorem Outcome.of_hand (hlast : s'.lastHandEndedHeight = s.lastHandEndedHeight)
    (hhand : t'.hand = t.hand) (hpaid : BondsPaid t → BondsPaid t') :
    Outcome s s' m tid t t' := by
  by_cases hnone : t.hand = none
  · exact .idle hnone (hhand.trans hnone) hpaid hlast
  · exact .goesOn (by rwa [hhand]) hlast

theorem leavesTable_setTable {stored : Table} (balances : env.bank.Balances)
    (hid : stored.id = tid) (hparams : stored.params = t.params)
    (houtcome : Outcome s ({ s with balances := balances }.setTable stored) m tid t
      (normalizeTable stored)) :
    LeavesTable s ({ s with balances := balances }.setTable stored) m tid t := by
  subst hid
  exact ⟨normalizeTable stored, State.getTable_setTable _ stored, hparams, houtcome⟩

theorem leavesTable_seat {seat : Seat} (balances : env.bank.Balances) (hid : t.id = tid)
    (hseat : t.params.playerBond ≠ 0 → BondsPaid t → seat.player = "" ∨ seat.bond ≠ 0) :
    LeavesTable s ({ s with balances := balances }.setTable
      { t with seats := Function.update t.seats i seat }) m tid t := by
  apply leavesTable_setTable balances
  · exact hid
  · rfl
  apply Outcome.of_hand
  · rfl
  · rfl
  · exact fun hpaid => (hpaid.update fun hasks => hseat hasks hpaid).normalize

theorem goesOn_setTable {h' : Hand} (hid : t.id = tid) :
    LeavesTable s (s.setTable { t with hand := some h' }) m tid t := by
  apply leavesTable_setTable s.balances
  · exact hid
  · rfl
  · exact .goesOn (by simp [normalizeTable]) rfl

theorem storeAfterAction_outcome {paid : State env} {stored : Table}
    (hok : storeAfterAction block paid stored = .ok s')
    (hlast : paid.lastHandEndedHeight = s.lastHandEndedHeight) (hid : stored.id = tid)
    (hparams : stored.params = t.params) (hm : m.action = some (block, tid))
    (hhand : t.hand ≠ none) : LeavesTable s s' m tid t := by
  rcases storeAfterAction_ok hok with
    ⟨hopen, rfl⟩ | ⟨hover, balances, seats, heject, hreplaces, hnoted⟩
  · refine ⟨normalizeTable (normalizeTable stored), ?_, hparams, .goesOn hopen hlast⟩
    have hreplaces : Replaces paid (paid.setTable (normalizeTable stored))
        (normalizeTable stored) := ⟨rfl, rfl⟩
    exact (hreplaces.getTable tid).trans (if_pos hid.symm)
  · refine ⟨_, (hreplaces.getTable tid).trans (if_pos hid.symm), hparams,
      .foldedOut block hm hhand hover ?_ ?_⟩
    · exact (ejectBondlessSeats_paid (t := normalizeTable stored) hover heject).normalize
    · rw [hnoted, hlast, hid]

theorem Handled.outcome (hid : t.id = tid) (hm : m.tableId = some tid)
    (hhandled : Handled s t m s') : LeavesTable s s' m tid t := by
  cases hhandled with
  | sit req i balances => exact leavesTable_seat balances hid fun hasks _ => Or.inr hasks
  | leave req i balances => exact leavesTable_seat balances hid fun _ _ => Or.inl rfl
  | rebuy req i balances => exact leavesTable_seat balances hid fun hasks hpaid => hpaid hasks i
  | startHand block req _ hstart =>
    obtain ⟨_, _, _, _, _, _, _, _, _, rfl⟩ := startHandOn_ok hstart
    apply leavesTable_setTable s.balances
    · exact hid
    · rfl
    · exact .goesOn (by simp [normalizeTable]) rfl
  | act block req hhand _ _ hstore | tick block req hhand _ _ _ _ _ hstore =>
    cases hm
    exact storeAfterAction_outcome hstore rfl hid rfl rfl (by simp [hhand])
  | deadline | advance | dealerInitHand | dealerFinalizeDeck => exact goesOn_setTable hid
  | @abort h seats _ hhand hrefund =>
    apply leavesTable_setTable s.balances
    · exact hid
    · rfl
    refine .settled rfl (by simp [hhand]) rfl ?_ rfl
    intro hpaid
    have howners : SameOwners t.seats (clearHoles seats) := by
      constructor <;> intro i <;> simp [clearHoles, refundCommits_ok hrefund i]
    exact (hpaid.sameOwners howners none).normalize
  | @reveal h seats hand hand' block _ pos cardID hhand hreveal _ =>
    apply leavesTable_setTable s.balances
    · exact hid
    · rfl
    cases hand' with
    | some h' => exact .goesOn (by simp [normalizeTable]) rfl
    | none =>
      refine .settled rfl (by simp [hhand]) rfl ?_ rfl
      intro hpaid
      have howners := (applyDealerRevealToPoker_value hreveal).1
      exact (hpaid.sameOwners howners none).normalize

theorem handle_outcome (hids : IdsValid s) (hok : handle s m = .ok s')
    (hm : m.tableId = some tid) (hget : s.getTable tid = some t) :
    LeavesTable s s' m tid t := by
  obtain ⟨t₁, hget', hhandled⟩ := handle_handled hok hm
  cases hget.symm.trans hget'
  exact hhandled.outcome (getTable_id hids hget).1 hm

theorem Outcome.last_other (houtcome : Outcome s s' m tid t t') {other : Nat}
    (hother : other ≠ tid) :
    s'.getLastHandEndedHeight other = s.getLastHandEndedHeight other := by
  cases houtcome with
  | foldedOut block _ _ _ _ hlast =>
    rw [State.getLastHandEndedHeight, hlast, AList.lookup_insert_ne hother]
    rfl
  | goesOn _ hlast | settled _ _ _ _ hlast | idle _ _ _ hlast =>
    rw [State.getLastHandEndedHeight, hlast]; rfl

end Outcomes

inductive TableChange (s s' : State env) (m : Msg env) (tid : Nat) : Prop
  | same : s'.getTable tid = s.getTable tid →
      s'.getLastHandEndedHeight tid = s.getLastHandEndedHeight tid →
      TableChange s s' m tid
  | created (t' : Table) : s.getTable tid = none → s'.getTable tid = some t' →
      t'.hand = none → BondsPaid t' →
      s'.getLastHandEndedHeight tid = s.getLastHandEndedHeight tid →
      TableChange s s' m tid
  | changed {t t' : Table} : s.getTable tid = some t → s'.getTable tid = some t' →
      t'.params = t.params → Outcome s s' m tid t t' → TableChange s s' m tid

theorem newTable_bondsPaid (id : Nat) (req : MsgCreateTable) : BondsPaid (newTable id req) :=
  fun _ _ => Or.inl rfl

theorem handle_change {s s' : State env} {m : Msg env} (hids : IdsValid s)
    (hok : handle s m = .ok s') (tid : Nat) : TableChange s s' m tid := by
  cases handle_effect hok with
  | createTable req hmsg _ _ _ htables =>
    subst hmsg
    have hlast : s'.getLastHandEndedHeight tid = s.getLastHandEndedHeight tid := by
      simp only [handle, createTable, ok_iff] at hok
      obtain ⟨_, _, _, _, rfl⟩ := hok
      rfl
    by_cases hkey : tid = s.nextTableId
    · subst hkey
      apply TableChange.created (normalizeTable (newTable _ req)) (getTable_next hids)
      · rw [State.getTable, htables, AList.lookup_insert, Option.map_some, normalizeTable_idem]
      · rfl
      · exact (newTable_bondsPaid _ req).normalize
      · exact hlast
    · apply TableChange.same _ hlast
      rw [State.getTable, htables, AList.lookup_insert_ne hkey]
      rfl
  | otherTransaction balances hmsg _ htables _ =>
    subst hmsg
    apply TableChange.same (getTable_of_tables_eq htables tid)
    simp only [handle, ok_iff] at hok
    obtain ⟨_, _, rfl⟩ := hok
    rfl
  | @onTable key t t' _ _ hmsg hget htable hreplaces _ =>
    have hid : t'.id = key := htable.id_eq.trans (getTable_id hids hget).1
    obtain ⟨t'', hget', hparams, houtcome⟩ := handle_outcome hids hok hmsg hget
    by_cases hkey : tid = key
    · subst hkey
      exact .changed hget hget' hparams houtcome
    · apply TableChange.same _ (houtcome.last_other hkey)
      rw [hreplaces.getTable, hid, if_neg hkey]

end OnChainPoker.Poker
