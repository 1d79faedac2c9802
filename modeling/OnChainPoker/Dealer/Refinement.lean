import OnChainPoker.Dealer.HandWrites

/-!
# The chain refines the poker module

In `Poker.System` the dealer is a source of arbitrary table writes.  Here every
step of the chain is shown to be, seen from x/poker, one message of that system
or none, so that what holds of its runs holds of the chain.  The two modules
agree on the deck of every active hand (`Linked`), and that is what makes the
writes of the dealer messages of that system.
-/

namespace OnChainPoker.Dealer

open Foundation Crypto
open Poker (Block Table Hand initDealerMeta finalizeDealerMeta Follows TableLater Later)

variable {env : Env} {h : Hand} {c c' : Chain env} {tableID : Nat}

/-! ## What the modules agree on -/

def Agrees (h : Hand) : Option DealerHand → Prop
  | none => h.dealer.deckSize = 0 ∧ h.dealer.deckFinalized = false
  | some dh => h.dealer.deckSize = dh.deckSize ∧
      h.dealer.deckFinalized = dh.finalized

theorem Agrees.follows {h h' : Hand} {dh : Option DealerHand}
    (hagrees : Agrees h dh) (hfollows : Follows h h') : Agrees h' dh := by
  cases dh with
  | none | some dh =>
    exact ⟨hfollows.deck.deckSize.trans hagrees.1, hfollows.deck.deckFinalized.trans hagrees.2⟩

structure Linked (c : Chain env) : Prop where
  solvent : Poker.Solvent c.poker
  numbered : ∀ tid t h, c.poker.getTable tid = some t → t.hand = some h →
    h.handId < t.nextHandId
  started : ∀ tid hid dh, c.dealer.getHand tid hid = some dh →
    ∃ t, c.poker.getTable tid = some t ∧ hid < t.nextHandId
  agrees : ∀ tid t h, c.poker.getTable tid = some t → t.hand = some h →
    Agrees h (c.dealer.getHand tid h.handId)
  deck : ∀ tid hid dh, c.dealer.getHand tid hid = some dh →
    dh.deck.length = dh.deckSize ∧ 2 ≤ dh.deckSize ∧ dh.deckSize ≤ 52

theorem AtHand.agrees {tid : Nat} {t : Table} {h : Hand} {dh : DealerHand}
    (hat : AtHand c tid t h dh) (hlinked : Linked c) : Agrees h (some dh) := by
  rw [← hat.dealerHand]
  exact hlinked.agrees tid t h hat.table hat.hand

theorem linked_genesis (balances : env.poker.bank.Balances)
    (staking : env.staking.Staking) (params : Params) :
    Linked (Chain.genesis env balances staking params) := by
  refine ⟨Poker.solvent_genesis balances, ?_, ?_, ?_, ?_⟩
  · intro tid t h hget
    simp [Chain.genesis, Poker.State.genesis, Poker.State.getTable] at hget
  · intro tid hid dh hget
    simp [Chain.genesis, State.genesis, State.getHand] at hget
  · intro tid t h hget
    simp [Chain.genesis, Poker.State.genesis, Poker.State.getTable] at hget
  · intro tid hid dh hget
    simp [Chain.genesis, State.genesis, State.getHand] at hget

theorem Linked.later (hlinked : Linked c) (hhands : c'.dealer.hands = c.dealer.hands)
    (hsolvent : Poker.Solvent c'.poker) (hlater : Later TableLater c.poker c'.poker) :
    Linked c' := by
  have hget : ∀ tid hid, c'.dealer.getHand tid hid = c.dealer.getHand tid hid := by
    intro tid hid
    simp only [State.getHand, hhands]
  -- An active hand follows one of the earlier state or is new on its table.
  have hactive : ∀ tid t' h', c'.poker.getTable tid = some t' → t'.hand = some h' →
      ∃ t, c.poker.getTable tid = some t ∧ TableLater t t' := by
    intro tid t' h' ht' hh'
    rcases hlater.new tid t' ht' with ⟨t, ht⟩ | hnone
    · obtain ⟨t₁, ht₁, hlate⟩ := hlater.kept tid t ht
      cases ht'.symm.trans ht₁
      exact ⟨t, ht, hlate⟩
    · rw [hnone] at hh'
      cases hh'
  refine ⟨hsolvent, fun tid t' h' ht' hh' => ?_, fun tid hid dh hdh => ?_,
    fun tid t' h' ht' hh' => ?_, fun tid hid dh hdh => ?_⟩
  · obtain ⟨t, ht, hlate⟩ := hactive tid t' h' ht' hh'
    rcases hlate.hand h' hh' with ⟨h, hh, hfollows⟩ | ⟨-, -, hlt, -⟩
    · rw [hfollows.deck.handId]
      exact (hlinked.numbered tid t h ht hh).trans_le hlate.nextHandId
    · exact hlt
  · rw [hget] at hdh
    obtain ⟨t, ht, hlt⟩ := hlinked.started tid hid dh hdh
    obtain ⟨t', ht', hlate⟩ := hlater.kept tid t ht
    exact ⟨t', ht', hlt.trans_le hlate.nextHandId⟩
  · obtain ⟨t, ht, hlate⟩ := hactive tid t' h' ht' hh'
    rw [hget]
    rcases hlate.hand h' hh' with ⟨h, hh, hfollows⟩ | ⟨-, hid, -, hfresh⟩
    · rw [hfollows.deck.handId]
      exact (hlinked.agrees tid t h ht hh).follows hfollows
    · cases hdh : c.dealer.getHand tid h'.handId with
      | none =>
        rw [Agrees, hfresh]
        exact ⟨rfl, rfl⟩
      | some dh =>
        obtain ⟨t₁, ht₁, hlt⟩ := hlinked.started tid h'.handId dh hdh
        cases ht.symm.trans ht₁
        omega
  · rw [hget] at hdh
    exact hlinked.deck tid hid dh hdh

/-! ## Steps -/

/-- The messages of the poker system that stand for what the dealer does. -/
def fromDealer {env : Poker.Env} : Poker.Msg env → Bool
  | .abortHandRefundAllCommits _ _ => true
  | .applyDealerReveal _ _ _ _ _ => true
  | .advanceAfterHoleSharesReady _ _ _ => true
  | .dealerInitHand _ _ _ _ => true
  | .dealerFinalizeDeck _ _ => true
  | _ => false

def DealerMoves (c c' : Chain env) : Prop :=
  c'.poker = c.poker ∨ ∃ m, fromDealer m = true ∧ Poker.handle c.poker m = .ok c'.poker

theorem poker_later {s s' : Poker.State env.poker} {m : Poker.Msg env.poker}
    (hsolvent : Poker.Solvent s) (hdeck : m.setsDeck = false) (hok : Poker.handle s m = .ok s') :
    Poker.Solvent s' ∧ Later TableLater s s' := by
  have heffect := Poker.handle_effect hok
  refine ⟨heffect.solvent hsolvent, heffect.later ?_ ?_ hsolvent.1⟩
  · exact fun t => .of_hand_eq (Nat.le_refl _) rfl
  · exact fun htable => (htable.later hdeck).normalize

section Acts

variable {c c' : Chain env} {block : Block} {msg : HandMsg} {tableID : Nat}
  {t : Table} {h : Hand} {dh : DealerHand}

theorem initHand_poker (hlinked : Linked c)
    (ht : c.poker.getTable tableID = some t) (hh : t.hand = some h)
    (hphase : h.phase = .shuffle) (hnone : c.dealer.getHand tableID h.handId = none)
    (epochId : Nat) {deckSize : Nat} (hmin : 2 ≤ deckSize) (hmax : deckSize ≤ 52) :
    Poker.handle c.poker (.dealerInitHand tableID h.handId epochId deckSize) =
      .ok (c.poker.setTable { t with
        hand := some { h with dealer := initDealerMeta epochId deckSize } }) := by
  have hagrees := hlinked.agrees tableID t h ht hh
  rw [hnone] at hagrees
  simp only [Poker.handle, Poker.dealerInitHand, ok_iff, ne_eq, not_not, not_or, not_lt, gt_iff_lt]
  refine ⟨(t, h), ?_, (), hphase, (), hagrees.1, (), ⟨hmin, hmax⟩, rfl⟩
  simp [Poker.State.loadHand, Poker.State.loadTable, ht, hh, require_eq_ok]

theorem finalizeDeck_poker (hlinked : Linked c) (hat : AtHand c tableID t h dh)
    (hphase : h.phase = .shuffle) (hopen : dh.finalized = false) :
    Poker.handle c.poker (.dealerFinalizeDeck tableID h.handId) =
      .ok (c.poker.setTable { t with
        hand := some { h with dealer := finalizeDealerMeta h dh.deck.length } }) := by
  have hagrees := hat.agrees hlinked
  obtain ⟨hlength, hmin, -⟩ := hlinked.deck tableID h.handId dh hat.dealerHand
  simp only [Poker.handle, Poker.dealerFinalizeDeck, ok_iff, ne_eq, not_not, Bool.not_eq_true]
  refine ⟨(t, h), ?_, (), hphase, (), ?_, (), hagrees.2.trans hopen, ?_⟩
  · simp [Poker.State.loadHand, Poker.State.loadTable, hat.table, hat.hand, require_eq_ok]
  · rw [hagrees.1]
    omega
  · rw [hagrees.1, hlength]

theorem HandAct.dealerMoves (hlinked : Linked c)
    (hact : HandAct c block msg tableID c') : DealerMoves c c' := by
  cases hact with
  | init ht hh hphase hnone hepoch hinitial _ hsize =>
    subst hsize
    exact .inr ⟨_, rfl, initHand_poker hlinked ht hh hphase hnone _
      hinitial.deckSize.1 hinitial.deckSize.2⟩
  | shuffle _ _ _ _ _ _ _ _ _ _ => exact .inl rfl
  | finalizeDeck hat hphase hopen _ _ _ _ =>
    exact .inr ⟨_, rfl, finalizeDeck_poker hlinked hat hphase hopen⟩
  | encShare _ => exact .inl rfl
  | @advance _ _ t h _ _ _ _ hat _ hadvance =>
    exact .inr ⟨.advanceAfterHoleSharesReady block tableID h.handId, rfl, hadvance⟩
  | pubShare _ _ _ _ _ _ _ _ _ _ _ _ _ => exact .inl rfl
  | @reveal _ _ t h _ _ pos cardID _ hat _ _ _ _ hreveal =>
    refine .inr ⟨.applyDealerReveal block tableID h.handId pos cardID, rfl, ?_⟩
    unfold Chain.cleanUp
    split <;> exact hreveal
  | @abort _ _ handID _ habort =>
    exact .inr ⟨.abortHandRefundAllCommits tableID handID, rfl, habort⟩
  | extend _ _ _ _ => exact .inl rfl

theorem verifyShuffle_length {S : Suite} {pkHand : Bytes} {deckIn deckOut : List DealerCiphertext}
    {proof context : Bytes} (hok : verifyShuffle S pkHand deckIn proof context = .ok deckOut) :
    deckOut.length = deckIn.length := by
  simp only [verifyShuffle, ok_iff, mapM_eq_ok_iff] at hok
  obtain ⟨_, -, deck, hdeck, out, hout, rfl⟩ := hok
  rw [List.length_map, Suite.shuffleVerifyV1_length hout, hdeck.length_eq]

variable {t' t₁ : Table} {h' : Hand} {dh' : DealerHand} {m : Msg env} {record : Option DealerHand}

theorem PairStep.agrees (hagrees : Agrees h (some dh))
    (hstep : PairStep c m tableID t h dh t' h' dh') : Agrees h' (some dh') := by
  cases hstep with
  | play hon => exact hagrees.follows hon.follows
  | finalizeDeck => exact ⟨hagrees.1, rfl⟩
  | advance _ _ hplay => exact hagrees.follows hplay.follows
  | reveal block _ _ _ hreveal hdeadlines _ =>
    have hplay := Poker.HandStep.reveal _ _ block hreveal hdeadlines
    exact hagrees.follows hplay.follows
  | _ => exact hagrees

theorem PairStep.deck_length (hstep : PairStep c m tableID t h dh t' h' dh') :
    dh'.deckSize = dh.deckSize ∧ dh'.deck.length = dh.deck.length := by
  cases hstep with
  | shuffle _ _ _ _ _ _ _ _ hverify _ => exact ⟨rfl, verifyShuffle_length hverify⟩
  | _ => exact ⟨rfl, rfl⟩

theorem PairOrigin.agrees (hlinked : Linked c) (horigin : PairOrigin c m tableID t' h' dh') :
    Agrees h' (some dh') ∧
      dh'.deck.length = dh'.deckSize ∧ 2 ≤ dh'.deckSize ∧ dh'.deckSize ≤ 52 := by
  rcases horigin with ⟨t, h, epoch, hopened⟩ | ⟨t, h, dh, hat, -, hstep⟩
  · have hinitial := hopened.initial
    obtain ⟨_, _, -, -, -, hdeck⟩ := hinitial.key
    rw [hopened.hand']
    refine ⟨⟨rfl, hinitial.finalized.symm⟩, ?_, hinitial.deckSize⟩
    rw [← (mapM_eq_ok_iff.mp hdeck).length_eq, List.length_range]
  · have hagrees := hat.agrees hlinked
    obtain ⟨hsize, hlength⟩ := hstep.deck_length
    rw [hsize, hlength]
    exact ⟨hstep.agrees hagrees, hlinked.deck tableID h.handId dh hat.dealerHand⟩

theorem Wrote.linked (hlinked : Linked c) (hsolvent : Poker.Solvent c'.poker)
    (hwrote : Wrote c m tableID c' t t₁ h record) : Linked c' := by
  have hlt : h.handId < t₁.nextHandId :=
    (hlinked.numbered _ _ _ hwrote.table hwrote.hand).trans_le hwrote.nextHandId
  refine ⟨hsolvent, fun tid t' h' ht' hh' => ?_, fun tid hid dh hdh => ?_,
    fun tid t' h' ht' hh' => ?_, fun tid hid dh hdh => ?_⟩
  · rw [hwrote.tables] at ht'
    split at ht'
    · cases ht'
      rw [(hwrote.goesOn h' hh').1]
      exact hlt
    · exact hlinked.numbered tid t' h' ht' hh'
  · rw [hwrote.tables]
    rw [hwrote.hands] at hdh
    by_cases htid : tid = tableID
    · subst htid
      refine ⟨t₁, if_pos rfl, ?_⟩
      split at hdh
      · rename_i hkey
        rw [hkey.2]
        exact hlt
      · obtain ⟨t₀, ht₀, hlt₀⟩ := hlinked.started tid hid dh hdh
        cases hwrote.table.symm.trans ht₀
        exact hlt₀.trans_le hwrote.nextHandId
    · rw [if_neg htid]
      rw [if_neg fun both => htid both.1] at hdh
      exact hlinked.started tid hid dh hdh
  · rw [hwrote.tables] at ht'
    rw [hwrote.hands]
    split at ht'
    · rename_i htid
      cases ht'
      obtain ⟨hid, dh₁, hrecord, horigin⟩ := hwrote.goesOn h' hh'
      rw [if_pos ⟨htid, hid⟩, hrecord]
      exact (horigin.agrees hlinked).1
    · rename_i htid
      rw [if_neg fun both => htid both.1]
      exact hlinked.agrees tid t' h' ht' hh'
  · rw [hwrote.hands] at hdh
    split at hdh
    · obtain ⟨h₁, -, -, horigin⟩ := hwrote.active hdh
      exact (horigin.agrees hlinked).2
    · exact hlinked.deck tid hid dh hdh

theorem HandAct.linked (hlinked : Linked c) (hact : HandAct c block msg tableID c') :
    Linked c' := by
  obtain ⟨_, _, _, _, hwrote⟩ := hact.wrote hlinked.solvent.1
  apply hwrote.linked hlinked
  rcases hact.dealerMoves hlinked with hsame | ⟨_, -, hpoker⟩
  · rw [hsame]
    exact hlinked.solvent
  · exact (Poker.handle_effect hpoker).solvent hlinked.solvent

end Acts

theorem Linked.penalised (hlinked : Linked c) (hpenalty : Penalised c c') : Linked c' := by
  cases hpenalty with
  | none => exact hlinked
  | some _ _ =>
    exact ⟨hlinked.solvent, hlinked.numbered, hlinked.started, hlinked.agrees, hlinked.deck⟩

theorem Penalised.poker_eq (hpenalty : Penalised c c') : c'.poker = c.poker := by
  cases hpenalty <;> rfl

theorem toPoker_player {env : Poker.Env} (msg : PlayerMsg env) : msg.toPoker.setsDeck = false := by
  cases msg <;> rfl

theorem DkgEffect.hands_eq {s s' : State env} {height : Int}
    (heffect : DkgEffect s height s') : s'.hands = s.hands := by
  cases heffect <;> rfl

/-- A step of the chain keeps the modules in agreement and is, seen from
x/poker, the player's message, one of the dealer's, or nothing. -/
theorem handle_refines {msg : Msg env} (hsound : DealerSound c.dealer)
    (hlinked : Linked c) (hok : handle c msg = .ok c') :
    Linked c' ∧ ((∃ m, msg = .player m ∧ Poker.handle c.poker m.toPoker = .ok c'.poker) ∨
        DealerMoves c c') := by
  cases handle_step hok with
  | player m _ hpoker =>
    obtain ⟨hsolvent, hlater⟩ := poker_later hlinked.solvent (toPoker_player m) hpoker
    exact ⟨hlinked.later rfl hsolvent hlater, .inl ⟨m, rfl, hpoker⟩⟩
  | dkg block m _ hdealer =>
    have hhands := (dkg_effect hsound hdealer).hands_eq
    refine ⟨hlinked.later hhands hlinked.solvent ?_, .inr (.inl rfl)⟩
    exact ⟨fun tid t ht => ⟨t, ht, .of_hand_eq (Nat.le_refl _) rfl⟩, fun tid t ht => .inl ⟨t, ht⟩⟩
  | hand block m _ =>
    obtain ⟨c₁, hpenalty, hact⟩ := handleHand_effect hok
    have hlinked₁ := hlinked.penalised hpenalty
    refine ⟨hact.linked hlinked₁, .inr ?_⟩
    have hmoves := hact.dealerMoves hlinked₁
    rwa [DealerMoves, hpenalty.poker_eq] at hmoves
  | otherStaking staking =>
    exact ⟨⟨hlinked.solvent, hlinked.numbered, hlinked.started, hlinked.agrees,
      hlinked.deck⟩, .inr (.inl rfl)⟩

/-! ## Runs -/

section Runs

variable {c : Chain env} (hreach : Reachable c)

include hreach

theorem reachable_linked : Linked c := by
  apply hreach.invariant
  · rintro _ ⟨balances, staking, params, rfl⟩
    exact linked_genesis balances staking params
  · exact fun _ _ _ hprev hlinked hok =>
      (handle_refines (reachable_dealerSound hprev) hlinked hok).1

/-- The poker module of the chain runs as `Poker.System` allows. -/
theorem reachable_poker : Poker.Reachable c.poker := by
  apply hreach.invariant
  · rintro _ ⟨balances, _, _, rfl⟩
    exact ⟨_, [], ⟨balances, rfl⟩, .refl⟩
  · intro c msg c' hprev ih hok
    have hmoves := (handle_refines (reachable_dealerSound hprev) (reachable_linked hprev) hok).2
    rcases hmoves with ⟨m, -, hpoker⟩ | hsame | ⟨m, -, hpoker⟩
    · exact ih.step hpoker
    · exact hsame ▸ ih
    · exact ih.step hpoker

end Runs

end OnChainPoker.Dealer
