import OnChainPoker.Foundation.Loop
import OnChainPoker.Poker.System

/-!
# What a message does to a table

`HandStep` lists what can happen to an active hand besides its deck being
chosen and finalised, `InnerStep` what can happen to a table besides that, a
player sitting down, a player leaving and a hand being started, and `Effect`
what an accepted message does to the module.  Every invariant of the module is derived
from `handle_effect`.
-/

namespace OnChainPoker.Poker

open Foundation

variable {env : Env} {t t' : Table} {deposit hid tid withdrawal : Nat} {s s' : State env}
  {player : String} {balances balances' : env.bank.Balances} {block : Block}

inductive HandStep (params : TableParams) (seats : Seats) (h : Hand) :
    Seats → Option Hand → Prop
  | action {seats' : Seats} {hand' : Option Hand} (action : Action)
      (amount : Nat) (block : Block) :
      applyAction params seats h action amount block.unix = .ok (seats', hand') →
      HandStep params seats h seats' hand'
  | deadline {h' : Hand} (block : Block) :
      setActionDeadlineIfBetting params h block.unix = .ok h' →
      HandStep params seats h seats (some h')
  | reveal {seats' : Seats} {hand hand' : Option Hand} (pos cardID : Nat)
      (block : Block) :
      applyDealerRevealToPoker params seats h pos cardID = .ok (seats', hand) →
      setDeadlinesIfActive params seats' block.unix hand = .ok hand' →
      HandStep params seats h seats' hand'
  | advance {h' : Hand} (block : Block) :
      h.phase = .shuffle → h.dealer.deckFinalized = true →
      setDeadlines params seats
        { h with phase := if h.actionOn = none then .awaitFlop else .betting }
        block.unix = .ok h' →
      HandStep params seats h seats (some h')

inductive InnerStep (t : Table) : Table → Nat → Nat → Prop
  | play {h : Hand} {seats' : Seats} {hand' : Option Hand} :
      t.hand = some h → HandStep t.params t.seats h seats' hand' →
      InnerStep t { t with seats := seats', hand := hand' } 0 0
  | abort {h : Hand} {seats' : Seats} :
      t.hand = some h → refundCommits t.seats h = .ok seats' →
      InnerStep t { t with seats := clearHoles seats', hand := none } 0 0
  | rebuy (i : SeatIdx) (amount : Nat) :
      (t.seats i).player ≠ "" → t.hand.any (·.inHand i) = false →
      (t.seats i).stack + amount ≤ t.params.maxBuyIn →
      InnerStep t
        { t with
          seats := Function.update t.seats i
            { t.seats i with stack := (t.seats i).stack + amount } } amount 0
  | slash (i : SeatIdx) (amount : Nat) :
      amount ≤ (t.seats i).bond →
      InnerStep t
        { t with
          seats := Function.update t.seats i
            { t.seats i with bond := (t.seats i).bond - amount } } 0 amount
  | eject (i : SeatIdx) :
      t.hand = none → (t.seats i).bond = 0 →
      InnerStep t { t with seats := Function.update t.seats i emptySeat } 0
        (t.seats i).stack
  | normalize : InnerStep t (normalizeTable t) 0 0

inductive TableRun (t : Table) : Table → Nat → Nat → Prop
  | refl : TableRun t t 0 0
  | step {t' t'' : Table} {deposit withdrawal deposit' withdrawal' : Nat} :
      TableRun t t' deposit withdrawal →
      InnerStep t' t'' deposit' withdrawal' →
      TableRun t t'' (deposit + deposit') (withdrawal + withdrawal')

theorem InnerStep.run (h : InnerStep t t' deposit withdrawal) :
    TableRun t t' deposit withdrawal := by
  simpa using TableRun.refl.step h

theorem TableRun.trans {t t' t'' : Table} {deposit withdrawal deposit' withdrawal' : Nat}
    (hfirst : TableRun t t' deposit withdrawal) (hsecond : TableRun t' t'' deposit' withdrawal') :
    TableRun t t'' (deposit + deposit') (withdrawal + withdrawal') := by
  induction hsecond with
  | refl => exact hfirst
  | step _ hstep ih =>
    have hall := ih.step hstep
    rwa [Nat.add_assoc, Nat.add_assoc] at hall

theorem InnerStep.id_eq (h : InnerStep t t' deposit withdrawal) : t'.id = t.id := by
  cases h <;> rfl

theorem TableRun.id_eq (h : TableRun t t' deposit withdrawal) : t'.id = t.id := by
  induction h with
  | refl => rfl
  | step _ hstep ih => exact hstep.id_eq.trans ih

theorem TableRun.keeps {P : Table → Prop}
    (hstep : ∀ {t t' : Table} {deposit withdrawal : Nat}, P t →
      InnerStep t t' deposit withdrawal → P t') (h : TableRun t t' deposit withdrawal)
    (hstart : P t) : P t' := by
  induction h with
  | refl => exact hstart
  | step _ hlast ih => exact hstep ih hlast

structure Replaces (s s' : State env) (t : Table) : Prop where
  tables : s'.tables = s.tables.insert t.id (normalizeTable t)
  nextTableId : s'.nextTableId = s.nextTableId

def Msg.tableId : Msg env → Option Nat
  | .createTable _ => none
  | .sit req => some req.tableId
  | .startHand _ req => some req.tableId
  | .act _ req => some req.tableId
  | .tick _ req => some req.tableId
  | .leave req => some req.tableId
  | .rebuy req => some req.tableId
  | .abortHandRefundAllCommits tableID _ => some tableID
  | .applyDealerReveal _ tableID _ _ _ => some tableID
  | .advanceAfterHoleSharesReady _ tableID _ => some tableID
  | .dealerInitHand tableID _ _ _ => some tableID
  | .dealerFinalizeDeck tableID _ => some tableID
  | .otherTransaction _ => none

def Msg.isInner : Msg env → Bool
  | .act _ _ => true
  | .tick _ _ => true
  | .rebuy _ => true
  | .abortHandRefundAllCommits _ _ => true
  | .applyDealerReveal _ _ _ _ _ => true
  | .advanceAfterHoleSharesReady _ _ _ => true
  | _ => false

/-- What an accepted message does to its table, with the coins paid into and
out of escrow. -/
inductive TableEffect (t : Table) : Msg env → Table → Nat → Nat → Prop
  | sit (req : MsgSit) (i : SeatIdx) (seat : Seat) :
      (t.seats i).player = "" →
      req.player ≠ "" → (∀ j, (t.seats j).player ≠ req.player) →
      seat.player = req.player → seat.stack ≤ t.params.maxBuyIn →
      seat.pk.length = pointBytes → seat.hole = (fun _ => unknownCard) →
      TableEffect t (.sit req)
        { t with seats := Function.update t.seats i seat }
        (seat.stack + seat.bond) 0
  | leave (req : MsgLeave) (i : SeatIdx) :
      req.player ≠ "" → (t.seats i).player = req.player →
      t.hand.any (inHandNotFolded · i) = false →
      TableEffect t (.leave req)
        { t with seats := Function.update t.seats i emptySeat } 0
        ((t.seats i).stack + (t.seats i).bond)
  | startHand {t' : Table} (block : Block) (req : MsgStartHand) :
      t.hand = none → startHandOn t = .ok t' →
      TableEffect t (.startHand block req) t' 0 0
  | dealerInitHand {h : Hand} (tableID handID epochId deckSize : Nat) :
      t.hand = some h → h.phase = .shuffle → h.dealer.deckSize = 0 →
      2 ≤ deckSize → deckSize ≤ 52 →
      TableEffect t (.dealerInitHand tableID handID epochId deckSize)
        { t with
          hand := some { h with dealer := initDealerMeta epochId deckSize } }
        0 0
  | dealerFinalizeDeck {h : Hand} (tableID handID : Nat) :
      t.hand = some h → h.phase = .shuffle → h.dealer.deckSize ≠ 0 →
      h.dealer.deckFinalized = false →
      TableEffect t (.dealerFinalizeDeck tableID handID)
        { t with
          hand := some { h with
            dealer := finalizeDealerMeta h h.dealer.deckSize } }
        0 0
  | inner {m : Msg env} {t' : Table} {deposit withdrawal : Nat} :
      m.isInner = true → TableRun t t' deposit withdrawal →
      TableEffect t m t' deposit withdrawal

inductive Effect (s s' : State env) (m : Msg env) : Prop
  | createTable (req : MsgCreateTable) :
      m = .createTable req →
      checkTableCfg req = .ok () →
      s'.balances = s.balances →
      s'.nextTableId = s.nextTableId + 1 →
      s'.tables = s.tables.insert s.nextTableId
        (normalizeTable (newTable s.nextTableId req)) →
      Effect s s' m
  | onTable {tid : Nat} {t t' : Table} {deposit withdrawal : Nat} :
      m.tableId = some tid → s.getTable tid = some t →
      TableEffect t m t' deposit withdrawal → Replaces s s' t' →
      env.bank.moduleBalance s'.balances + withdrawal =
        env.bank.moduleBalance s.balances + deposit →
      Effect s s' m
  | otherTransaction (balances : env.bank.Balances) :
      m = .otherTransaction balances →
      env.bank.moduleBalance s.balances ≤ env.bank.moduleBalance s'.balances →
      s'.tables = s.tables → s'.nextTableId = s.nextTableId →
      Effect s s' m

inductive Handled (s : State env) (t : Table) : Msg env → State env → Prop
  | sit (req : MsgSit) (i : SeatIdx) (balances : env.bank.Balances) :
      (t.seats i).player = "" → req.player ≠ "" →
      (∀ j, (t.seats j).player ≠ req.player) → req.buyIn ≤ t.params.maxBuyIn →
      req.pkPlayer.length = pointBytes →
      env.bank.moduleBalance balances =
        env.bank.moduleBalance s.balances + (req.buyIn + t.params.playerBond) →
      Handled s t (.sit req) ({ s with balances := balances }.setTable { t with
        seats := Function.update t.seats i ⟨req.player, req.pkPlayer, req.buyIn,
          t.params.playerBond, fun _ => unknownCard⟩ })
  | leave (req : MsgLeave) (i : SeatIdx) (balances : env.bank.Balances) :
      req.player ≠ "" → (t.seats i).player = req.player →
      t.hand.any (inHandNotFolded · i) = false →
      env.bank.moduleBalance balances + ((t.seats i).stack + (t.seats i).bond) =
        env.bank.moduleBalance s.balances →
      Handled s t (.leave req) ({ s with balances := balances }.setTable
        { t with seats := Function.update t.seats i emptySeat })
  | rebuy (req : MsgRebuy) (i : SeatIdx) (balances : env.bank.Balances) :
      (t.seats i).player ≠ "" → t.hand.any (·.inHand i) = false →
      (t.seats i).stack + req.amount ≤ t.params.maxBuyIn →
      env.bank.moduleBalance balances = env.bank.moduleBalance s.balances + req.amount →
      Handled s t (.rebuy req) ({ s with balances := balances }.setTable { t with
        seats := Function.update t.seats i
          { t.seats i with stack := (t.seats i).stack + req.amount } })
  | startHand {t' : Table} (block : Block) (req : MsgStartHand) :
      t.hand = none → startHandOn t = .ok t' →
      Handled s t (.startHand block req) (s.setTable t')
  | act {h : Hand} {seats' : Seats} {hand' : Option Hand} {s' : State env}
      (block : Block) (req : MsgAct) : t.hand = some h → h.phase = .betting →
      applyAction t.params t.seats h (Action.ofString req.action) req.amount
        block.unix = .ok (seats', hand') →
      storeAfterAction block s { t with seats := seats', hand := hand' } = .ok s' →
      Handled s t (.act block req) s'
  | deadline {h h' : Hand} (block : Block) (req : MsgTick) :
      t.hand = some h → h.phase = .betting → h.actionDeadline = 0 →
      setActionDeadlineIfBetting t.params h block.unix = .ok h' →
      Handled s t (.tick block req) (s.setTable { t with hand := some h' })
  | tick {h : Hand} {actor : SeatIdx} {seats' : Seats} {hand' : Option Hand}
      {balances : env.bank.Balances} {s' : State env} (block : Block)
      (req : MsgTick) : t.hand = some h → h.phase = .betting →
      h.actionOn = some actor → h.actionDeadline ≠ 0 →
      env.bank.moduleBalance balances + timeoutSlash t.params (t.seats actor) =
        env.bank.moduleBalance s.balances →
      applyAction t.params
        (Function.update t.seats actor (slashSeat t.params (t.seats actor))) h
        (defaultAction h actor) 0 block.unix = .ok (seats', hand') →
      storeAfterAction block { s with balances := balances }
        { t with seats := seats', hand := hand' } = .ok s' →
      Handled s t (.tick block req) s'
  | abort {h : Hand} {seats' : Seats} (tid : Nat) : t.hand = some h →
      refundCommits t.seats h = .ok seats' →
      Handled s t (.abortHandRefundAllCommits tid h.handId)
        (s.setTable { t with seats := clearHoles seats', hand := none })
  | reveal {h : Hand} {seats' : Seats} {hand hand' : Option Hand} (block : Block)
      (tid pos cardID : Nat) : t.hand = some h →
      applyDealerRevealToPoker t.params t.seats h pos cardID = .ok (seats', hand) →
      setDeadlinesIfActive t.params seats' block.unix hand = .ok hand' →
      Handled s t (.applyDealerReveal block tid h.handId pos cardID)
        (s.setTable { t with seats := seats', hand := hand' })
  | advance {h h' : Hand} (block : Block) (tid : Nat) : t.hand = some h →
      h.phase = .shuffle → h.dealer.deckFinalized = true →
      setDeadlines t.params t.seats
        { h with phase := if h.actionOn = none then .awaitFlop else .betting }
        block.unix = .ok h' →
      Handled s t (.advanceAfterHoleSharesReady block tid h.handId)
        (s.setTable { t with hand := some h' })
  | dealerInitHand {h : Hand} (tid epochId deckSize : Nat) : t.hand = some h →
      h.phase = .shuffle → h.dealer.deckSize = 0 → 2 ≤ deckSize → deckSize ≤ 52 →
      Handled s t (.dealerInitHand tid h.handId epochId deckSize) (s.setTable { t with
        hand := some { h with dealer := initDealerMeta epochId deckSize } })
  | dealerFinalizeDeck {h : Hand} (tid : Nat) : t.hand = some h →
      h.phase = .shuffle → h.dealer.deckSize ≠ 0 → h.dealer.deckFinalized = false →
      Handled s t (.dealerFinalizeDeck tid h.handId) (s.setTable { t with
        hand := some { h with dealer := finalizeDealerMeta h h.dealer.deckSize } })

/-! ## Inversion of the handlers -/

theorem loadTable_ok (hok : s.loadTable tid = .ok t) : s.getTable tid = some t :=
  require_eq_ok.mp hok

theorem loadHand_ok {h : Hand} (hok : s.loadHand tid hid = .ok (t, h)) :
    s.getTable tid = some t ∧ t.hand = some h ∧ h.handId = hid := by
  simp only [State.loadHand, ok_iff, Prod.mk.injEq, not_not] at hok
  obtain ⟨t', hload, h', hhand, _, hid, rfl, rfl⟩ := hok
  exact ⟨loadTable_ok hload, hhand, hid⟩

variable {seats : Seats} {i : SeatIdx} {addr : env.Addr} {amount : Nat} {m : Msg env}

theorem seatOfPlayer_some (hfind : seatOfPlayer seats player = some i) :
    player ≠ "" ∧ (seats i).player = player := by
  unfold seatOfPlayer at hfind
  split at hfind
  · contradiction
  · rename_i hplayer
    have hi := List.find?_some hfind
    exact ⟨hplayer, by simpa using hi⟩

theorem seatOfPlayer_none (hplayer : player ≠ "")
    (hfind : seatOfPlayer seats player = none) (i : SeatIdx) :
    (seats i).player ≠ player := by
  unfold seatOfPlayer at hfind
  rw [if_neg hplayer, List.find?_eq_none] at hfind
  simpa using hfind i (List.mem_finRange i)

theorem autoAssignSeat_vacant (hok : autoAssignSeat t = .ok i) : (t.seats i).player = "" := by
  unfold autoAssignSeat at hok
  dsimp only at hok
  split at hok
  · have hi := List.find?_some (require_eq_ok.mp hok)
    simpa using hi
  · have hi := List.find?_some (require_eq_ok.mp hok)
    simpa using hi

theorem playerAddress_ok (hok : playerAddress env player = .ok addr) : player ≠ "" := by
  simp only [playerAddress, ok_iff] at hok
  obtain ⟨_, hplayer, _⟩ := hok
  exact hplayer

theorem payOut_moves (hok : payOut balances addr amount = .ok balances') :
    env.bank.moduleBalance balances' + amount = env.bank.moduleBalance balances := by
  unfold payOut at hok
  split at hok
  · rename_i hzero
    cases hok
    simp [hzero]
  · exact env.bank.toAccount_moves hok

theorem collectSlash_moves (hok : collectSlash balances amount = .ok balances') :
    env.bank.moduleBalance balances' + amount = env.bank.moduleBalance balances := by
  unfold collectSlash at hok
  split at hok
  · rename_i hzero
    cases hok
    simp [hzero]
  · exact env.bank.toFeeCollector_moves hok

theorem startHandOn_id (hok : startHandOn t = .ok t') : t'.id = t.id := by
  simp only [startHandOn, ok_iff] at hok
  obtain ⟨_, _, _, _, _, _, _, _, _, _, _, _, rfl⟩ := hok
  rfl

theorem ejectBondlessSeats_run {seats' : Seats}
    (hok : ejectBondlessSeats balances t = .ok (balances', seats')) :
    ∃ withdrawal, TableRun t { t with seats := seats' } 0 withdrawal ∧
      env.bank.moduleBalance balances' + withdrawal = env.bank.moduleBalance balances := by
  unfold ejectBondlessSeats at hok
  split at hok
  · cases hok
    exact ⟨0, .refl, rfl⟩
  · rename_i hover
    have hnone : t.hand = none := by simpa using fun h => hover (Or.inl h)
    refine foldlM_invariant (fun bs : env.bank.Balances × Seats =>
      ∃ withdrawal, TableRun t { t with seats := bs.2 } 0 withdrawal ∧
        env.bank.moduleBalance bs.1 + withdrawal =
          env.bank.moduleBalance balances) ?_ ⟨0, .refl, rfl⟩ hok
    rintro i _ ⟨before, seats⟩ ⟨after, seats''⟩ ⟨withdrawal, hrun, hbank⟩ hstep
    simp only [ejectSeat] at hstep
    split at hstep
    · cases hstep
      exact ⟨withdrawal, hrun, hbank⟩
    · rename_i hkeep
      simp only [ok_iff, Prod.mk.injEq] at hstep
      obtain ⟨addr, _, paid, hpay, rfl, rfl⟩ := hstep
      have hmoves := payOut_moves hpay
      have hbond : (seats i).bond = 0 := by
        by_contra hne
        exact hkeep (Or.inr hne)
      refine ⟨withdrawal + (seats i).stack, hrun.step (.eject i hnone hbond), ?_⟩
      dsimp only at hbank hmoves ⊢
      omega

theorem storeAfterAction_run (hok : storeAfterAction block s t = .ok s') :
    ∃ t' withdrawal, TableRun t t' 0 withdrawal ∧ Replaces s s' t' ∧
      env.bank.moduleBalance s'.balances + withdrawal = env.bank.moduleBalance s.balances := by
  have hnormal : TableRun t (normalizeTable t) 0 0 := InnerStep.normalize.run
  simp only [storeAfterAction] at hok
  split at hok
  · cases hok
    exact ⟨normalizeTable t, 0, hnormal, ⟨rfl, rfl⟩, rfl⟩
  · simp only [ok_iff] at hok
    obtain ⟨⟨balances, seats⟩, heject, rfl⟩ := hok
    obtain ⟨withdrawal, hrun, hbank⟩ := ejectBondlessSeats_run heject
    refine ⟨{ normalizeTable t with seats := seats }, withdrawal, ?_, ⟨?_, rfl⟩, hbank⟩
    · simpa using hnormal.trans hrun
    · exact AList.insert_insert s.tables

theorem handle_handled (hok : handle s m = .ok s') (hm : m.tableId = some tid) :
    ∃ t, s.getTable tid = some t ∧ Handled s t m s' := by
  cases m with
  | createTable req | otherTransaction balances => cases hm
  | sit req =>
    cases hm
    simp only [handle, sit, ok_iff] at hok
    obtain ⟨addr, haddr, t, hload, _, hseated, _, _, i, hassign, _, hrange, _, hpk,
      _, _, _, _, balances, hsend, rfl⟩ := hok
    have hplayer := playerAddress_ok haddr
    have hfresh : seatOfPlayer t.seats req.player = none := by simpa using hseated
    exact ⟨t, loadTable_ok hload, .sit req i balances (autoAssignSeat_vacant hassign)
      hplayer (seatOfPlayer_none hplayer hfresh) (by omega) (by simpa using hpk)
      (env.bank.fromAccount_moves hsend)⟩
  | leave req =>
    cases hm
    simp only [handle, leave, ok_iff] at hok
    obtain ⟨addr, _, t, hload, i, hseat, _, hlive, _, _, balances, hsend, rfl⟩ := hok
    obtain ⟨hplayer, hi⟩ := seatOfPlayer_some hseat
    exact ⟨t, loadTable_ok hload, .leave req i balances hplayer hi
      (by simpa using hlive) (payOut_moves hsend)⟩
  | rebuy req =>
    cases hm
    simp only [handle, rebuy, ok_iff] at hok
    obtain ⟨addr, _, t, hload, i, hseat, _, hout, _, _, newStack, hadd, _, hmax,
      balances, hsend, rfl⟩ := hok
    obtain ⟨hplayer, hi⟩ := seatOfPlayer_some hseat
    have hadd := addUint64Checked_ok hadd
    subst hadd
    exact ⟨t, loadTable_ok hload, .rebuy req i balances (by rwa [hi])
      (by simpa using hout) (by omega) (env.bank.fromAccount_moves hsend)⟩
  | startHand block req =>
    cases hm
    simp only [handle, startHand, ok_iff] at hok
    obtain ⟨_, _, t, hload, _, _, _, hnone, _, _, t', hstart, rfl⟩ := hok
    exact ⟨t, loadTable_ok hload, .startHand block req (by simpa using hnone) hstart⟩
  | act block req =>
    cases hm
    simp only [handle, act, ok_iff, ne_eq, not_not] at hok
    obtain ⟨_, _, t, hload, h, hhand, _, hphase, actor, _, _, _, ⟨seats, hand⟩,
      haction, hstore⟩ := hok
    exact ⟨t, loadTable_ok hload, .act block req hhand hphase haction hstore⟩
  | tick block req =>
    cases hm
    simp only [handle, tick, ok_iff, ne_eq, not_not] at hok
    obtain ⟨_, _, _, _, t, hload, h, hhand, _, hphase, actor, hactor, _, _, hok⟩ := hok
    refine ⟨t, loadTable_ok hload, ?_⟩
    split at hok
    · rename_i hunset
      simp only [ok_iff] at hok
      obtain ⟨h', hdeadline, rfl⟩ := hok
      exact .deadline block req hhand hphase hunset hdeadline
    · rename_i hset
      simp only [ok_iff] at hok
      obtain ⟨_, _, balances, hslash, ⟨seats, hand⟩, haction, hstore⟩ := hok
      exact .tick block req hhand hphase hactor hset (collectSlash_moves hslash) haction hstore
  | abortHandRefundAllCommits tableID handID =>
    cases hm
    simp only [handle, abortHandRefundAllCommits, ok_iff] at hok
    obtain ⟨⟨t, h⟩, hload, seats, hrefund, rfl⟩ := hok
    obtain ⟨hget, hhand, rfl⟩ := loadHand_ok hload
    exact ⟨t, hget, .abort _ hhand hrefund⟩
  | applyDealerReveal block tableID handID pos cardID =>
    cases hm
    simp only [handle, applyDealerReveal, ok_iff] at hok
    obtain ⟨⟨t, h⟩, hload, ⟨seats, hand⟩, hreveal, hand', hdeadlines, rfl⟩ := hok
    obtain ⟨hget, hhand, rfl⟩ := loadHand_ok hload
    exact ⟨t, hget, .reveal block _ pos cardID hhand hreveal hdeadlines⟩
  | advanceAfterHoleSharesReady block tableID handID =>
    cases hm
    simp only [handle, advanceAfterHoleSharesReady, ok_iff, ne_eq, not_not,
      Bool.not_eq_false] at hok
    obtain ⟨⟨t, h⟩, hload, _, hphase, _, hfinal, h', hdeadlines, rfl⟩ := hok
    obtain ⟨hget, hhand, rfl⟩ := loadHand_ok hload
    exact ⟨t, hget, .advance block _ hhand hphase hfinal hdeadlines⟩
  | dealerInitHand tableID handID epochId deckSize =>
    cases hm
    simp only [handle, dealerInitHand, ok_iff, ne_eq, not_not] at hok
    obtain ⟨⟨t, h⟩, hload, _, hphase, _, hnew, _, hsize, rfl⟩ := hok
    obtain ⟨hget, hhand, rfl⟩ := loadHand_ok hload
    exact ⟨t, hget, .dealerInitHand _ epochId deckSize hhand hphase hnew (by omega) (by omega)⟩
  | dealerFinalizeDeck tableID handID =>
    cases hm
    simp only [handle, dealerFinalizeDeck, ok_iff, ne_eq, not_not, Bool.not_eq_true] at hok
    obtain ⟨⟨t, h⟩, hload, _, hphase, _, hsize, _, hopen, rfl⟩ := hok
    obtain ⟨hget, hhand, rfl⟩ := loadHand_ok hload
    exact ⟨t, hget, .dealerFinalizeDeck _ hhand hphase hsize hopen⟩

theorem Handled.effect (hm : m.tableId = some tid) (hget : s.getTable tid = some t)
    (hhandled : Handled s t m s') : Effect s s' m := by
  cases hhandled with
  | sit req i balances hvacant hplayer hfresh hmax hpk hpaid =>
    exact .onTable hm hget (.sit req i _ hvacant hplayer hfresh rfl hmax hpk rfl) ⟨rfl, rfl⟩ hpaid
  | leave req i balances hplayer hi hlive hpaid =>
    exact .onTable hm hget (.leave req i hplayer hi hlive) ⟨rfl, rfl⟩ hpaid
  | rebuy req i balances hplayer hout hmax hpaid =>
    exact .onTable hm hget (.inner rfl (InnerStep.rebuy i _ hplayer hout hmax).run) ⟨rfl, rfl⟩ hpaid
  | startHand block req hnone hstart =>
    exact .onTable hm hget (.startHand block req hnone hstart) ⟨rfl, rfl⟩ rfl
  | act block req hhand _ haction hstore =>
    obtain ⟨t', withdrawal, hrun, hreplaces, hbank⟩ := storeAfterAction_run hstore
    have hall := (InnerStep.play hhand (.action _ _ block haction)).run.trans hrun
    exact .onTable hm hget (.inner rfl hall) hreplaces (by simpa using hbank)
  | deadline block req hhand _ _ hdeadline =>
    exact .onTable hm hget
      (.inner rfl (InnerStep.play hhand (.deadline block hdeadline)).run) ⟨rfl, rfl⟩ rfl
  | @tick _ actor seats hand _ _ block req hhand _ _ _ hpaid haction hstore =>
    obtain ⟨t', withdrawal, hrun, hreplaces, hbank⟩ := storeAfterAction_run hstore
    let slashed := { t with
      seats := Function.update t.seats actor (slashSeat t.params (t.seats actor)) }
    have hbond : InnerStep t slashed 0 (timeoutSlash t.params (t.seats actor)) :=
      .slash actor _ (Nat.min_le_right _ _)
    have hplay : InnerStep slashed { t with seats := seats, hand := hand } 0 0 :=
      .play hhand (.action _ _ block haction)
    refine .onTable hm hget (.inner rfl ((hbond.run.step hplay).trans hrun))
      ⟨hreplaces.tables, hreplaces.nextTableId⟩ ?_
    dsimp only at hbank
    omega
  | abort _ hhand hrefund =>
    exact .onTable hm hget (.inner rfl (InnerStep.abort hhand hrefund).run) ⟨rfl, rfl⟩ rfl
  | reveal block _ pos cardID hhand hreveal hdeadlines =>
    have hplay := InnerStep.play hhand (.reveal pos cardID block hreveal hdeadlines)
    exact .onTable hm hget (.inner rfl hplay.run) ⟨rfl, rfl⟩ rfl
  | advance block _ hhand hphase hfinal hdeadlines =>
    have hplay := InnerStep.play hhand (.advance block hphase hfinal hdeadlines)
    exact .onTable hm hget (.inner rfl hplay.run) ⟨rfl, rfl⟩ rfl
  | dealerInitHand _ epochId deckSize hhand hphase hnew hmin hmax =>
    exact .onTable hm hget
      (.dealerInitHand _ _ epochId deckSize hhand hphase hnew hmin hmax) ⟨rfl, rfl⟩ rfl
  | dealerFinalizeDeck _ hhand hphase hsize hopen =>
    exact .onTable hm hget (.dealerFinalizeDeck _ _ hhand hphase hsize hopen) ⟨rfl, rfl⟩ rfl

theorem handle_effect (hok : handle s m = .ok s') : Effect s s' m := by
  cases hm : m.tableId with
  | some tid =>
    obtain ⟨t, hget, hhandled⟩ := handle_handled hok hm
    exact hhandled.effect hm hget
  | none =>
    cases m with
    | createTable req =>
      simp only [handle, createTable, ok_iff] at hok
      obtain ⟨_, hcfg, nextID, hadd, rfl⟩ := hok
      exact .createTable req rfl hcfg rfl (addUint64Checked_ok hadd) rfl
    | otherTransaction balances =>
      simp only [handle, ok_iff, not_lt] at hok
      obtain ⟨_, hmore, rfl⟩ := hok
      exact .otherTransaction balances rfl hmore rfl rfl
    | _ => cases hm

end OnChainPoker.Poker
