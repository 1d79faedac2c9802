import OnChainPoker.Poker.HandLife

/-!
# What each message does to the hand of its table

`TableEffect` says which kinds of steps a message takes.  Here each message is
tied to the one call that changes the hand: an action, a reveal, the opening of
the betting, a refund, or none.
-/

namespace OnChainPoker.Poker

open Foundation

variable {env : Env} {s s' : State env} {t : Table} {m : Msg env} {tid : Nat} {block : Block}

def slashedSeats (params : TableParams) (seats : Seats) (actor : SeatIdx) : Seats :=
  Function.update seats actor (slashSeat params (seats actor))

inductive HandEffect (t : Table) : Msg env → Option Hand → Prop
  | sit (req : MsgSit) : HandEffect t (.sit req) t.hand
  | leave (req : MsgLeave) : HandEffect t (.leave req) t.hand
  | rebuy (req : MsgRebuy) : HandEffect t (.rebuy req) t.hand
  | startHand {t' : Table} (block : Block) (req : MsgStartHand) :
      t.hand = none → startHandOn t = .ok t' →
      HandEffect t (.startHand block req) t'.hand
  | act {h : Hand} {seats' : Seats} {hand' : Option Hand} (block : Block)
      (req : MsgAct) :
      t.hand = some h →
      applyAction t.params t.seats h (Action.ofString req.action) req.amount
        block.unix = .ok (seats', hand') →
      HandEffect t (.act block req) hand'
  | deadline {h h' : Hand} (block : Block) (req : MsgTick) :
      t.hand = some h → h.actionDeadline = 0 →
      setActionDeadlineIfBetting t.params h block.unix = .ok h' →
      HandEffect t (.tick block req) (some h')
  | tick {h : Hand} {actor : SeatIdx} {seats' : Seats} {hand' : Option Hand}
      (block : Block) (req : MsgTick) :
      t.hand = some h → h.actionOn = some actor → h.actionDeadline ≠ 0 →
      applyAction t.params (slashedSeats t.params t.seats actor) h
        (defaultAction h actor) 0 block.unix = .ok (seats', hand') →
      HandEffect t (.tick block req) hand'
  | abort {h : Hand} (tid : Nat) :
      t.hand = some h →
      HandEffect t (.abortHandRefundAllCommits tid h.handId) none
  | reveal {h : Hand} {seats' : Seats} {hand hand' : Option Hand} (block : Block)
      (tid pos cardID : Nat) :
      t.hand = some h →
      applyDealerRevealToPoker t.params t.seats h pos cardID = .ok (seats', hand) →
      setDeadlinesIfActive t.params seats' block.unix hand = .ok hand' →
      HandEffect t (.applyDealerReveal block tid h.handId pos cardID) hand'
  | advance {h h' : Hand} (block : Block) (tid : Nat) :
      t.hand = some h → h.phase = .shuffle → h.dealer.deckFinalized = true →
      setDeadlines t.params t.seats
        { h with phase := if h.actionOn = none then .awaitFlop else .betting }
        block.unix = .ok h' →
      HandEffect t (.advanceAfterHoleSharesReady block tid h.handId) (some h')
  | dealerInitHand {h : Hand} (tid epochId deckSize : Nat) :
      t.hand = some h → h.phase = .shuffle →
      HandEffect t (.dealerInitHand tid h.handId epochId deckSize)
        (some { h with dealer := initDealerMeta epochId deckSize })
  | dealerFinalizeDeck {h : Hand} (tid : Nat) :
      t.hand = some h → h.phase = .shuffle →
      HandEffect t (.dealerFinalizeDeck tid h.handId)
        (some { h with dealer := finalizeDealerMeta h h.dealer.deckSize })

def HandleTo (t : Table) (s' : State env) (tid : Nat) (m : Msg env) : Prop :=
  ∃ t', s'.getTable tid = some t' ∧ t'.params = t.params ∧ HandEffect t m t'.hand

theorem Replaces.handleTo {t t' : Table} (hreplaces : Replaces s s' t') (hid : t'.id = tid)
    (hparams : t'.params = t.params) (heffect : HandEffect t m t'.hand) :
    HandleTo t s' tid m := by
  refine ⟨normalizeTable t', ?_, hparams, heffect⟩
  rw [hreplaces.getTable, if_pos hid.symm]

theorem storeAfterAction_ok (hok : storeAfterAction block s t = .ok s') :
    (t.hand ≠ none ∧ s' = s.setTable (normalizeTable t)) ∨
      (t.hand = none ∧ ∃ balances seats,
        ejectBondlessSeats s.balances (normalizeTable t) = .ok (balances, seats) ∧
        Replaces s s' { normalizeTable t with seats := seats } ∧
        s'.lastHandEndedHeight = s.lastHandEndedHeight.insert t.id block.height) := by
  simp only [storeAfterAction] at hok
  split at hok
  · rename_i hopen
    cases hok
    left
    refine ⟨?_, rfl⟩
    intro hnone
    simp [normalizeTable, hnone] at hopen
  · rename_i hover
    simp only [ok_iff] at hok
    obtain ⟨⟨balances, seats⟩, heject, rfl⟩ := hok
    right
    refine ⟨by simpa [normalizeTable] using hover, balances, seats, heject, ?_, rfl⟩
    exact ⟨AList.insert_insert s.tables, rfl⟩

theorem storeAfterAction_handleTo {t stored : Table}
    (hok : storeAfterAction block s stored = .ok s') (hid : stored.id = tid)
    (hparams : stored.params = t.params) (heffect : HandEffect t m stored.hand) :
    HandleTo t s' tid m := by
  rcases storeAfterAction_ok hok with
    ⟨_, rfl⟩ | ⟨_, balances, seats, _, hreplaces, _⟩
  · have hreplaces : Replaces s (s.setTable (normalizeTable stored))
        (normalizeTable stored) := ⟨rfl, rfl⟩
    exact hreplaces.handleTo hid hparams heffect
  · exact hreplaces.handleTo hid hparams heffect

theorem Handled.handleTo (hid : t.id = tid) (hhandled : Handled s t m s') :
    HandleTo t s' tid m := by
  cases hhandled with
  | sit req => exact Replaces.handleTo ⟨rfl, rfl⟩ hid rfl (.sit req)
  | leave req => exact Replaces.handleTo ⟨rfl, rfl⟩ hid rfl (.leave req)
  | rebuy req => exact Replaces.handleTo ⟨rfl, rfl⟩ hid rfl (.rebuy req)
  | startHand block req hnone hstart =>
    have heffect : HandEffect t (.startHand block req : Msg env) _ :=
      .startHand block req hnone hstart
    obtain ⟨_, _, _, _, _, _, _, _, _, rfl⟩ := startHandOn_ok hstart
    exact Replaces.handleTo ⟨rfl, rfl⟩ hid rfl heffect
  | act block req hhand _ haction hstore =>
    exact storeAfterAction_handleTo hstore hid rfl (.act block req hhand haction)
  | deadline block req hhand _ hunset hdeadline =>
    exact Replaces.handleTo ⟨rfl, rfl⟩ hid rfl (.deadline block req hhand hunset hdeadline)
  | tick block req hhand _ hactor hset _ haction hstore =>
    exact storeAfterAction_handleTo hstore hid rfl (.tick block req hhand hactor hset haction)
  | abort _ hhand => exact Replaces.handleTo ⟨rfl, rfl⟩ hid rfl (.abort _ hhand)
  | reveal block _ pos cardID hhand hreveal hdeadlines =>
    exact Replaces.handleTo ⟨rfl, rfl⟩ hid rfl (.reveal block _ pos cardID hhand hreveal hdeadlines)
  | advance block _ hhand hphase hfinal hdeadlines =>
    exact Replaces.handleTo ⟨rfl, rfl⟩ hid rfl (.advance block _ hhand hphase hfinal hdeadlines)
  | dealerInitHand _ epochId deckSize hhand hphase =>
    exact Replaces.handleTo ⟨rfl, rfl⟩ hid rfl (.dealerInitHand _ _ _ hhand hphase)
  | dealerFinalizeDeck _ hhand hphase =>
    exact Replaces.handleTo ⟨rfl, rfl⟩ hid rfl (.dealerFinalizeDeck _ hhand hphase)

theorem handle_hand (hids : IdsValid s) (hok : handle s m = .ok s')
    (hm : m.tableId = some tid) (hget : s.getTable tid = some t) : HandleTo t s' tid m := by
  obtain ⟨t₁, hget', hhandled⟩ := handle_handled hok hm
  cases hget.symm.trans hget'
  exact hhandled.handleTo (getTable_id hids hget).1

end OnChainPoker.Poker
