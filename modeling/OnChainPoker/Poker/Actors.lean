import OnChainPoker.Poker.Turns

/-!
# The player on action can act

The messages that move a betting round on: a fold of the player on action, and a
timeout once the deadline has passed.  Both are accepted as long as the bank pays
what the module account holds.
-/

namespace OnChainPoker.Poker

open Foundation

variable {env : Env} {seats : Seats} {s : State env} {balances : env.bank.Balances}

/-- The bank pays out of the module account what the account holds. -/
structure BankKeeper.Pays {Addr : Type} (bank : BankKeeper Addr) : Prop where
  toAccount : ∀ balances addr amount, amount ≤ bank.moduleBalance balances →
    ∃ balances', bank.sendCoinsFromModuleToAccount balances addr amount = .ok balances'
  toFeeCollector : ∀ balances amount, amount ≤ bank.moduleBalance balances →
    ∃ balances', bank.sendCoinsFromModuleToFeeCollector balances amount = .ok balances'

/-! ## Addresses of the players -/

def AddressesKnown (env : Env) (seats : Seats) : Prop :=
  ∀ i, (seats i).player ≠ "" → (env.accAddressFromBech32 (seats i).player).isSome = true

theorem AddressesKnown.vacates {seats seats' : Seats}
    (hknown : AddressesKnown env seats) (hvacates : Vacates seats seats') :
    AddressesKnown env seats' := by
  intro i hi
  have hsame := (hvacates i).resolve_right hi
  rw [hsame] at hi ⊢
  exact hknown i hi

theorem sit_address {s s' : State env} {req : MsgSit} (hok : sit s req = .ok s') :
    (env.accAddressFromBech32 req.player).isSome = true := by
  simp only [sit, playerAddress, ok_iff] at hok
  obtain ⟨addr, ⟨_, _, haddr⟩, _⟩ := hok
  rw [haddr]
  rfl

def TablesKnown (s : State env) : Prop :=
  ∀ tid t, s.getTable tid = some t → AddressesKnown env t.seats

theorem handle_known {s s' : State env} {m : Msg env} (hids : IdsValid s)
    (hknown : TablesKnown s) (hok : handle s m = .ok s') : TablesKnown s' := by
  intro tid t' ht'
  cases (handle_effect hok).tableAt hids tid with
  | same _ hsame => exact hknown tid t' (hsame.symm.trans ht')
  | new req _ _ _ hnew =>
    cases hnew.symm.trans ht'
    exact fun i hi => absurd rfl hi
  | @changed t next _ _ _ ht hnext htable =>
    cases hnext.symm.trans ht'
    apply AddressesKnown.vacates _ (InnerStep.normalize (t := next)).vacates
    cases htable.seatChange with
    | vacated _ hvacates => exact (hknown tid t ht).vacates hvacates
    | taken req i seat hm _ _ _ hseat hseats =>
      subst hm
      rw [hseats]
      intro j hj
      by_cases hji : j = i
      · subst hji
        rw [Function.update_self, hseat]
        exact sit_address hok
      · rw [Function.update_of_ne hji] at hj ⊢
        exact hknown tid t ht j hj

theorem reachable_known (hreach : Reachable s) : TablesKnown s := by
  apply hreach.invariant
  · rintro _ ⟨balances, rfl⟩
    simp [TablesKnown, State.getTable, State.genesis]
  · intro s m s' hreach hknown hok
    exact handle_known (reachable_solvent hreach).1 hknown hok

/-! ## Payments -/

theorem payOut_succeeds (hpays : env.bank.Pays) {amount : Nat} (haddr : env.Addr)
    (hcovered : amount ≤ env.bank.moduleBalance balances) :
    ∃ balances', payOut balances haddr amount = .ok balances' := by
  unfold payOut
  split
  · exact ⟨balances, rfl⟩
  · exact hpays.toAccount balances haddr amount hcovered

def Payable (env : Env) (bs : env.bank.Balances × Seats) : Prop :=
  stackSum bs.2 ≤ env.bank.moduleBalance bs.1 ∧ AddressesKnown env bs.2

theorem stack_le_stackSum (seats : Seats) (i : SeatIdx) : (seats i).stack ≤ stackSum seats :=
  Finset.single_le_sum (f := fun i => (seats i).stack)
    (fun _ _ => Nat.zero_le _) (Finset.mem_univ i)

theorem ejectSeat_succeeds (hpays : env.bank.Pays)
    {bs : env.bank.Balances × Seats} (hpayable : Payable env bs) (i : SeatIdx) :
    ∃ bs', ejectSeat bs i = .ok bs' ∧ Payable env bs' := by
  obtain ⟨balances, seats⟩ := bs
  obtain ⟨hcovered, hknown⟩ := hpayable
  simp only [ejectSeat]
  split
  · exact ⟨_, rfl, hcovered, hknown⟩
  · rename_i hkeep
    have hplayer : (seats i).player ≠ "" := fun hempty => hkeep (Or.inl hempty)
    obtain ⟨addr, haddr⟩ := Option.isSome_iff_exists.mp (hknown i hplayer)
    have hstack := stack_le_stackSum seats i
    dsimp only at hcovered
    obtain ⟨paid, hpaid⟩ := payOut_succeeds hpays addr (le_trans hstack hcovered)
    refine ⟨(paid, Function.update seats i emptySeat), ?_, ?_, ?_⟩
    · simp [haddr, require, hpaid]
    · have hmoves := payOut_moves hpaid
      have hsum := stackSum_replace seats i emptySeat
      simp only [emptySeat] at hsum ⊢
      omega
    · exact hknown.vacates (vacates_update (.inr rfl))

theorem storeAfterAction_succeeds (hpays : env.bank.Pays) {t : Table}
    (hcovered : stackSum t.seats ≤ env.bank.moduleBalance s.balances)
    (hknown : AddressesKnown env t.seats) (block : Block) :
    ∃ s', storeAfterAction block s t = .ok s' := by
  have hnormal : Payable env (s.balances, (normalizeTable t).seats) := by
    constructor
    · apply le_trans _ hcovered
      apply Finset.sum_le_sum
      intro i _
      simp only [normalizeTable, normalizeSeat]
      split <;> simp
    · exact hknown.vacates InnerStep.normalize.vacates
  have heject : ∃ bs, ejectBondlessSeats s.balances (normalizeTable t) = .ok bs := by
    unfold ejectBondlessSeats
    split
    · exact ⟨_, rfl⟩
    · obtain ⟨bs, hloop, _⟩ := foldlM_succeeds (Payable env)
        (fun i _ bs hpayable => ejectSeat_succeeds hpays hpayable i) hnormal
      exact ⟨bs, hloop⟩
  obtain ⟨bs, heject⟩ := heject
  simp only [storeAfterAction]
  split
  · exact ⟨_, rfl⟩
  · have heject' : ejectBondlessSeats (s.setTable (normalizeTable t)).balances
        (normalizeTable t) = .ok bs := heject
    rw [heject', ok_bind]
    exact ⟨_, rfl⟩

/-! ## Actions that are accepted -/

theorem chipsBounded_of_fit {params : TableParams} (hlimit : params.maxBuyIn = 0)
    {h : Hand} (hstreet : ∀ i, h.streetCommit i ≤ h.totalCommit i)
    (hfit : stackSum seats + commitSum h ≤ maxUint64) : ChipsBounded params seats h := by
  constructor
  case street => exact hstreet
  case seat =>
    intro i
    have hstack := stack_le_stackSum seats i
    have hcommit : h.totalCommit i ≤ commitSum h :=
      Finset.single_le_sum (f := h.totalCommit) (fun _ _ => Nat.zero_le _) (Finset.mem_univ i)
    omega
  case hand =>
    have hworth : handWorth seats h ≤ commitSum h + stackSum seats := by
      rw [handWorth, Finset.sum_add_distrib]
      apply Nat.add_le_add_left
      apply Finset.sum_le_sum
      intro i _
      split
      · exact Nat.le_refl _
      · exact Nat.zero_le _
    omega

theorem timeoutSlash_le (params : TableParams) (seat : Seat) :
    timeoutSlash params seat ≤ seat.bond :=
  Nat.min_le_right _ _

theorem collectSlash_succeeds (hpays : env.bank.Pays) {slash : Nat}
    (hcovered : slash ≤ env.bank.moduleBalance balances) :
    ∃ balances', collectSlash balances slash = .ok balances' := by
  unfold collectSlash
  split
  · exact ⟨balances, rfl⟩
  · exact hpays.toFeeCollector balances slash hcovered

theorem bond_le_bondSum (seats : Seats) (i : SeatIdx) : (seats i).bond ≤ bondSum seats :=
  Finset.single_le_sum (f := fun i => (seats i).bond) (fun _ _ => Nat.zero_le _) (Finset.mem_univ i)

section Betting

variable {s : State env} {tid : Nat} {t : Table} {h : Hand} {actor : SeatIdx}
  (hpays : env.bank.Pays) (hstanding : TableStanding t) (hhand : t.hand = some h)
  (hdeck : h.dealer.deckSize = 52) (hphase : h.phase = .betting) (hactor : h.actionOn = some actor)
  (hneeds : needsToAct h actor = true) (hstreet : ∀ i, h.streetCommit i ≤ h.totalCommit i)
include hpays hstanding hhand hdeck hphase hactor hneeds hstreet

theorem action_stored {seats seats' : Seats} {middle : Hand}
    (hcovered : stackSum seats + commitSum h ≤ env.bank.moduleBalance balances)
    (hsupply : stackSum seats + commitSum h ≤ maxUint64) (hknown : AddressesKnown env seats)
    {action : Action} {amount : Nat}
    (hperform : performAction t.params seats h actor action amount = .ok (seats', middle))
    (block : Block) :
    ∃ last hand' s', applyAction t.params seats h action amount block.unix = .ok (last, hand') ∧
      storeAfterAction block { s with balances := balances }
        { t with seats := last, hand := hand' } = .ok s' := by
  have hhandStanding := hstanding.hand h hhand
  have hlive := (needsToAct_eligible hneeds).1
  have hchips : ChipsBounded { t.params with maxBuyIn := 0 } seats h :=
    chipsBounded_of_fit rfl hstreet hsupply
  have hbounded := hchips.moves (performAction_moves hlive hperform)
  obtain ⟨last, _, hand', _, _, hok⟩ := applyAction_succeeds hstanding.params hphase
    hactor hneeds hperform hbounded hhandStanding.board
    (hhandStanding.deck (Or.inr hdeck)) block
  obtain ⟨howners, hvalue⟩ := (HandStep.action action amount block hok).value_le
  have hstore : ∃ s', storeAfterAction block { s with balances := balances }
      { t with seats := last, hand := hand' } = .ok s' := by
    apply storeAfterAction_succeeds hpays
    · simp only
      omega
    · exact hknown.vacates howners.vacates
  obtain ⟨s', hstore⟩ := hstore
  exact ⟨last, hand', s', hok, hstore⟩

section

variable (hsolvent : Solvent s) (hsupply : SupplyFits s)
  (hget : s.getTable tid = some t) (hknown : AddressesKnown env t.seats)
include hsolvent hsupply hget hknown

theorem act_fold_succeeds (block : Block) (amount : Nat) :
    ∃ s', act block s ⟨(t.seats actor).player, tid, "fold", amount⟩ = .ok s' := by
  have hvalue := tableValue_le_balance hsolvent hget
  simp only [tableValue, handValue, hhand, Option.elim_some] at hvalue
  have hplayer : (t.seats actor).player ≠ "" :=
    (hstanding.hand h hhand).seated actor (needsToAct_eligible hneeds).1
  obtain ⟨addr, haddr⟩ := Option.isSome_iff_exists.mp (hknown actor hplayer)
  have hcovered : stackSum t.seats + commitSum h ≤ env.bank.moduleBalance s.balances := by omega
  have hperform : performAction t.params t.seats h actor .fold amount =
      .ok (t.seats, applyFold h actor) := rfl
  obtain ⟨last, hand', s', hok, hstore⟩ := action_stored (s := s) hpays hstanding
    hhand hdeck hphase hactor hneeds hstreet hcovered
    (chips_fit hsolvent hsupply hget hhand) hknown hperform block
  refine ⟨s', ?_⟩
  have hname : Action.ofString "fold" = .fold := by decide
  simp only [act, playerAddress, State.loadTable, hget, hhand, hactor, haddr, require, rejectIf,
    hplayer, hphase, hname, hok, ok_bind, Except.mapError, if_false, ne_eq, not_true_eq_false]
  exact hstore

theorem tick_succeeds (hset : 0 < h.actionDeadline) {block : Block}
    (hpast : h.actionDeadline ≤ block.unix) {caller : String} (hcaller : caller ≠ "")
    (haddress : (env.accAddressFromBech32 caller).isSome = true) :
    ∃ s', tick block s ⟨caller, tid⟩ = .ok s' := by
  have hvalue := tableValue_le_balance hsolvent hget
  simp only [tableValue, handValue, hhand, Option.elim_some] at hvalue
  have hslash := (timeoutSlash_le t.params (t.seats actor)).trans (bond_le_bondSum t.seats actor)
  obtain ⟨balances, hcollect⟩ := collectSlash_succeeds hpays
    (hslash.trans (by omega : bondSum t.seats ≤ env.bank.moduleBalance s.balances))
  have hmoves := collectSlash_moves hcollect
  generalize hslashed : Function.update t.seats actor (slashSeat t.params (t.seats actor)) = slashed
  have hsame := sameStacks_slash t.seats actor (timeoutSlash t.params (t.seats actor))
  have hsum : stackSum slashed = stackSum t.seats := by
    subst hslashed
    exact Finset.sum_congr rfl fun j _ => (hsame j).2
  have hcovered : stackSum slashed + commitSum h ≤ env.bank.moduleBalance balances := by omega
  have hfit : stackSum slashed + commitSum h ≤ maxUint64 := by
    rw [hsum]
    exact chips_fit hsolvent hsupply hget hhand
  have hknown' : AddressesKnown env slashed := by
    subst hslashed
    exact hknown.vacates (vacates_update (.inl rfl))
  obtain ⟨middle, hperform⟩ := defaultAction_succeeds t.params slashed h actor
  obtain ⟨last, hand', s', hok, hstore⟩ := action_stored (s := s) hpays hstanding
    hhand hdeck hphase hactor hneeds hstreet hcovered hfit hknown' hperform block
  refine ⟨s', ?_⟩
  obtain ⟨addr, haddr⟩ := Option.isSome_iff_exists.mp haddress
  have hnot : ¬ block.unix < h.actionDeadline := not_lt.mpr hpast
  have hne : h.actionDeadline ≠ 0 := hset.ne'
  simp only [tick, State.loadTable, hget, hhand, hactor, haddr, require, rejectIf, hcaller, hphase,
    hne, hpast, hnot, hcollect, hslashed, hok, ok_bind, Except.mapError, if_false, ne_eq,
    not_true_eq_false, not_false_eq_true, ge_iff_le, and_self, false_and]
  exact hstore

end

end Betting

/-- In every run, a hand that is being bet on waits for a player who was dealt
in, has not folded, has chips and needs to act, with a deadline; all-in marks
are exact; and on a deck of 52 cards that player's fold is accepted, as is
everybody's `Tick` once the deadline has passed. -/
theorem actor_can_act (env : Env) (tid : Nat) (balances : env.bank.Balances)
    (messages : List (Msg env)) {t : Table} {h : Hand}
    (hget : (dealRun env tid balances messages).1.getTable tid = some t)
    (hhand : t.hand = some h) (hphase : h.phase = .betting) :
    let s := (dealRun env tid balances messages).1
    let deal := (dealRun env tid balances messages).2
    (∀ i, inHandNotFolded h i = true → (h.allIn i = true ↔ (t.seats i).stack = 0)) ∧
    0 < h.actionDeadline ∧
    ∃ actor, h.actionOn = some actor ∧ h.inHand actor = true ∧
      h.folded actor = false ∧ h.allIn actor = false ∧
      0 < (t.seats actor).stack ∧ needsToAct h actor = true ∧
      (t.seats actor).player ≠ "" ∧ deal.left actor = false ∧
      (t.seats actor).player = (deal.seats actor).player ∧
      (env.bank.Pays → SupplyFits s → h.dealer.deckSize = 52 →
        (∀ block amount, ∃ s', handle s
          (.act block ⟨(t.seats actor).player, tid, "fold", amount⟩) = .ok s') ∧
        (∀ block caller, caller ≠ "" →
          (env.accAddressFromBech32 caller).isSome = true →
          h.actionDeadline ≤ block.unix →
          ∃ s', handle s (.tick block ⟨caller, tid⟩) = .ok s')) := by
  have hkept := reachable_kept hget h hhand
  intro s deal
  have hstate : s = run handle (State.genesis env balances) messages :=
    historyRun_state _ _ _ _ _
  have hget' : (run handle (State.genesis env balances) messages).getTable tid =
      some t := by
    rw [← hstate]
    exact hget
  have hturn := reachable_turns hget' h hhand
  have hset := hturn.deadline hphase
  obtain ⟨actor, hactor⟩ := Option.ne_none_iff_exists'.mp (hturn.opened hphase)
  have hneeds := hturn.onAction (Or.inr hphase) actor hactor
  obtain ⟨hlive, hallIn⟩ := needsToAct_eligible hneeds
  have hin : h.inHand actor = true ∧ h.folded actor = false := by
    simpa [inHandNotFolded] using hlive
  have hstack : 0 < (t.seats actor).stack := by
    apply Nat.pos_of_ne_zero
    intro hzero
    rw [(hturn.allIn actor hlive).mpr hzero] at hallIn
    cases hallIn
  have hstays := hkept.stayed actor hlive
  refine ⟨hturn.allIn, hset, actor, hactor, hin.1, hin.2, hallIn, hstack, hneeds,
    hturn.seated actor hlive, hstays, hkept.occupant actor hin.1 hstays, ?_⟩
  intro hpays hsupply hdeck
  have hreach : Reachable s := ⟨_, _, ⟨balances, rfl⟩, hstate ▸ reaches_run messages⟩
  have hsolvent := reachable_solvent hreach
  have hknown := reachable_known hreach tid t hget
  have hstanding := reachable_standing hget'
  constructor
  · exact act_fold_succeeds hpays hstanding hhand hdeck hphase hactor hneeds hkept.street
      hsolvent hsupply hget hknown
  · intro block caller hcaller haddress hpast
    exact tick_succeeds hpays hstanding hhand hdeck hphase hactor hneeds hkept.street
      hsolvent hsupply hget hknown hset hpast hcaller haddress

theorem ledgerBank_pays : ledgerBank.Pays := by
  constructor
  · intro balance _ amount hle
    exact ⟨Nat.sub balance amount, if_pos hle⟩
  · intro balance amount hle
    exact ⟨Nat.sub balance amount, if_pos hle⟩

theorem foldAndLeave_actor :
    ∃ t h s' actor,
      (dealRun ledgerEnv 1 (0 : Nat) foldAndLeaveRun).1.getTable 1 = some t ∧
      t.hand = some h ∧ h.actionOn = some actor ∧ needsToAct h actor = true ∧
      handle (dealRun ledgerEnv 1 (0 : Nat) foldAndLeaveRun).1
        (.act sampleBlock ⟨(t.seats actor).player, 1, "fold", 0⟩) = .ok s' := by
  have hloaded :
      ((dealRun ledgerEnv 1 (0 : Nat) foldAndLeaveRun).1.getTable 1).any
        (fun t => t.hand.any fun h =>
          decide (h.phase = .betting ∧ h.dealer.deckSize = 52)) = true := by
    decide +kernel
  have hsupply : SupplyFits (dealRun ledgerEnv 1 (0 : Nat) foldAndLeaveRun).1 := by
    change ledgerBank.moduleBalance
      (dealRun ledgerEnv 1 (0 : Nat) foldAndLeaveRun).1.balances ≤ maxUint64
    decide +kernel
  obtain ⟨t, hget, hhand⟩ := (Option.any_eq_true _ _).mp hloaded
  obtain ⟨h, hhand, hfacts⟩ := (Option.any_eq_true _ _).mp hhand
  obtain ⟨hphase, hdeck⟩ := of_decide_eq_true hfacts
  obtain ⟨_, _, actor, hactor, _, _, _, _, hneeds, _, _, _, hacts⟩ :=
    actor_can_act ledgerEnv 1 (0 : Nat) foldAndLeaveRun hget hhand hphase
  obtain ⟨s', hok⟩ := (hacts ledgerBank_pays hsupply hdeck).1 sampleBlock 0
  exact ⟨t, h, s', actor, hget, hhand, hactor, hneeds, hok⟩

end OnChainPoker.Poker
