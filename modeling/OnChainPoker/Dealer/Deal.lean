import OnChainPoker.Dealer.Secrecy

/-!
# The dealt positions

`finalizeDeck` deals positions to the seats of the hand until the deck ends.  If
the deck has two cards for each of them and five more, the hole positions are the
first ones of the deck, each given once, and nothing later in the hand looks for a
card that is not there.
-/

namespace OnChainPoker.Dealer

open Foundation Crypto
open Poker (Table Hand SeatIdx unsetPos holeDealOrder finalizeDealerMeta
  dealerExpectedRevealPos inHandNotFolded DeckFits DeckDealt SameDeck BoardValid
  DealtApart)

variable {env : Env}

/-! ## Dealing -/

def dealtIn (h : Hand) : Finset SeatIdx := Finset.univ.filter fun i => h.inHand i = true

theorem holeDealOrder_length (h : Hand) : (holeDealOrder h).length = (dealtIn h).card := by
  have hnodup : (holeDealOrder h).Nodup := by
    apply List.Nodup.filter
    apply (List.nodup_finRange 9).map
    exact add_right_injective h.smallBlindSeat
  have hset : (holeDealOrder h).toFinset = dealtIn h := by
    ext i
    rw [List.mem_toFinset, dealtIn, Finset.mem_filter_univ]
    constructor
    · intro hmem
      exact (List.mem_filter.mp hmem).2
    · exact Poker.mem_holeDealOrder
  rw [← List.toFinset_card_of_nodup hnodup, hset]

/-- The hole positions are the first of the deck, one for each hole card of the
seats in the hand, and the board fits behind them. -/
structure DealComplete (h : Hand) : Prop where
  apart : ∀ i c j d, h.inHand i = true → h.inHand j = true →
    h.dealer.holePos i c = h.dealer.holePos j d → i = j ∧ c = d
  first : ∀ pos, pos < 2 * (dealtIn h).card ↔
    ∃ i c, h.inHand i = true ∧ h.dealer.holePos i c = pos
  others : ∀ i c, h.inHand i = false → h.dealer.holePos i c = unsetPos
  cursor : h.dealer.cursor = 2 * (dealtIn h).card
  board : h.dealer.cursor + 5 ≤ h.dealer.deckSize

variable {h : Hand} {c c' : Chain env} {msg : Msg env} {tid : Nat} {dh dh' : DealerHand}

theorem holePos_onto (hdealt : DeckDealt h) (hapart : DealtApart h)
    (hcursor : h.dealer.cursor = 2 * (dealtIn h).card) {pos : Nat}
    (hpos : pos < 2 * (dealtIn h).card) :
    ∃ i c, h.inHand i = true ∧ h.dealer.holePos i c = pos := by
  have hset : ∀ slot ∈ dealtIn h ×ˢ (Finset.univ : Finset (Fin 2)),
      h.dealer.holePos slot.1 slot.2 ≠ unsetPos := by
    intro slot hslot
    rw [Finset.mem_product, dealtIn, Finset.mem_filter_univ] at hslot
    exact hdealt.2.2 slot.1 slot.2 hslot.1
  have hbelow : (dealtIn h ×ˢ (Finset.univ : Finset (Fin 2))).image
      (fun slot => h.dealer.holePos slot.1 slot.2) ⊆
      Finset.range (2 * (dealtIn h).card) := by
    intro p hp
    obtain ⟨slot, hslot, rfl⟩ := Finset.mem_image.mp hp
    rw [Finset.mem_range, ← hcursor]
    exact hapart.slots.below slot.1 slot.2 (hset slot hslot)
  have hcard : ((dealtIn h ×ˢ (Finset.univ : Finset (Fin 2))).image
      (fun slot => h.dealer.holePos slot.1 slot.2)).card = 2 * (dealtIn h).card := by
    rw [Finset.card_image_of_injOn, Finset.card_product, Finset.card_univ,
      Fintype.card_fin, Nat.mul_comm]
    intro slot hslot other _ hsame
    obtain ⟨hi, hc⟩ := hapart.slots.apart _ _ _ _ (hset slot hslot) hsame
    exact Prod.ext hi hc
  have hall := Finset.eq_of_subset_of_card_le hbelow (by rw [hcard, Finset.card_range])
  rw [← Finset.mem_range, ← hall] at hpos
  obtain ⟨slot, hslot, rfl⟩ := Finset.mem_image.mp hpos
  rw [Finset.mem_product, dealtIn, Finset.mem_filter_univ] at hslot
  exact ⟨slot.1, slot.2, hslot.1, rfl⟩

theorem DeckFits.dealComplete (hfits : DeckFits h) :
    DealComplete { h with dealer := finalizeDealerMeta h h.dealer.deckSize } := by
  have hdealt := Poker.finalizeDealerMeta_dealt hfits
  have hapart := Poker.finalizeDealerMeta_apart h h.dealer.deckSize
  have hcursor := Poker.finalizeDealerMeta_cursor hfits
  rw [holeDealOrder_length] at hcursor
  constructor
  · intro i c j d hi _ hsame
    exact hapart.slots.apart i c j d (hdealt.2.2 i c hi) hsame
  · intro pos
    constructor
    · exact holePos_onto hdealt hapart hcursor
    · rintro ⟨i, c, hi, rfl⟩
      have hlt := hapart.slots.below i c (hdealt.2.2 i c hi)
      exact hlt.trans_eq hcursor
  · intro i c hout
    by_contra hset
    have hin : h.inHand i = true := hapart.slots.dealt i c hset
    rw [show h.inHand i = false from hout] at hin
    cases hin
  · exact hcursor
  · exact hdealt.1

/-! ## The rest of the hand -/

/-- Nothing looks for a card that the deck does not have: the hole cards of the
seats in the hand have positions in the deck, so that the shares of them can be
counted, and on every street the card to reveal next is one of the deck. -/
structure CardsSuffice (h : Hand) : Prop where
  holes : ∀ i c, h.inHand i = true → h.dealer.holePos i c ≠ unsetPos ∧
    h.dealer.holePos i c < h.dealer.deckSize
  shares : ∃ required, requiredHolePos h (List.finRange 9) = .ok required
  reveals : ∀ seats h', SameDeck h h' → BoardValid h' →
    ∃ expected, dealerExpectedRevealPos seats h' = .ok expected ∧
      ∀ pos ∈ expected, pos < h.dealer.deckSize

theorem DeckDealt.holePos_lt (hdealt : DeckDealt h) (hapart : DealtApart h) {i : SeatIdx}
    (hin : h.inHand i = true) (c : Fin 2) :
    h.dealer.holePos i c < h.dealer.deckSize := by
  have hbelow := hapart.slots.below i c (hdealt.2.2 i c hin)
  have hroom := hdealt.1
  omega

theorem DeckDealt.cardsSuffice (hdealt : DeckDealt h) (hapart : DealtApart h)
    (hfinal : h.dealer.deckFinalized = true) :
    CardsSuffice h := by
  constructor
  · intro i c hin
    exact ⟨hdealt.2.2 i c hin, DeckDealt.holePos_lt hdealt hapart hin c⟩
  · obtain ⟨required, hok, -⟩ := requiredHolePos_succeeds hdealt (List.finRange 9)
    exact ⟨required, hok⟩
  · intro seats h' hsame hboard
    have hdealt' := hdealt.of_same hsame
    have hapart' := hapart.of_same hsame
    obtain ⟨expected, hok⟩ := Poker.dealerExpectedRevealPos_succeeds hdealt'
      (hsame.deckFinalized.trans hfinal) hboard seats
    refine ⟨expected, hok, fun pos hpos => ?_⟩
    rw [← hsame.deckSize]
    obtain ⟨-, ⟨-, hexpected, hlt⟩ | ⟨-, hnext⟩ | ⟨-, hnone⟩⟩ :=
      Poker.dealerExpectedRevealPos_ok hok
    · rw [hexpected] at hpos
      cases hpos
      exact hlt
    · obtain ⟨i, c, hlive, rfl, -⟩ := (Poker.dealerNextShowdownHolePos_ok hapart' hnext).1 pos hpos
      apply DeckDealt.holePos_lt hdealt' hapart'
      simp only [inHandNotFolded, Bool.and_eq_true] at hlive
      exact hlive.1
    · rw [hnone] at hpos
      cases hpos

theorem PairStep.sameDeck {t t' : Table} {h' : Hand} (hfinal : dh.finalized = true)
    (hstep : PairStep c msg tid t h dh t' h' dh') : SameDeck h h' := by
  cases hstep with
  | play hon => exact hon.follows.deck
  | finalizeDeck _ hopen _ _ _ =>
    rw [hfinal] at hopen
    cases hopen
  | advance _ _ hplay _ _ _ _ => exact hplay.follows.deck
  | @reveal _ _ _ _ _ _ block _ _ _ hreveal hdeadlines _ =>
    have hplay := Poker.HandStep.reveal _ _ block hreveal hdeadlines
    exact hplay.follows.deck
  | _ => exact .refl h

structure FixedDeck (h₁ : Hand) (tid : Nat) (c : Chain env) : Prop where
  started : ∃ t, c.poker.getTable tid = some t ∧ h₁.handId < t.nextHandId
  hand : ∀ t h, c.poker.getTable tid = some t → t.hand = some h →
    h.handId = h₁.handId → SameDeck h₁ h

theorem FixedDeck.handle {h₁ : Hand} (hfinal : h₁.dealer.deckFinalized = true)
    (hfixed : FixedDeck h₁ tid c) (hvalid : ChainValid c) (hok : Dealer.handle c msg = .ok c') :
    FixedDeck h₁ tid c' := by
  obtain ⟨t₀, ht₀, hlt⟩ := hfixed.started
  refine ⟨handle_started hvalid hok hfixed.started, ?_⟩
  intro t' h' ht' hh' hid'
  cases hdh : c'.dealer.getHand tid h'.handId with
  | some dh' =>
    obtain ⟨c₁, hpenalty, -, horigin⟩ := handle_origin hvalid hok ⟨ht', hh', hdh⟩
    rcases horigin with ⟨t, h, epoch, hopened⟩ | ⟨t, h, dh, hat, hid, hstep⟩
    · -- a hand with a final deck has a dealer hand already
      have ht := hopened.table
      rw [hpenalty.poker_eq] at ht
      have hid : h.handId = h₁.handId := by rw [← hid', hopened.hand']
      have hsame := hfixed.hand t h ht hopened.hand hid
      have hagrees := (hvalid.linked.penalised hpenalty).agrees tid t h hopened.table hopened.hand
      rw [hopened.new] at hagrees
      have hopen := hagrees.2
      rw [hsame.deckFinalized, hfinal] at hopen
      cases hopen
    · have hat₀ := hat.of_penalised hpenalty
      have hsame := hfixed.hand t h hat₀.table hat₀.hand (hid.symm.trans hid')
      have hagrees := hat₀.agrees hvalid.linked
      have hdone : dh.finalized = true := hagrees.2.symm.trans (hsame.deckFinalized.trans hfinal)
      exact hsame.trans (hstep.sameDeck hdone)
  | none =>
    rcases handle_undealt hvalid hok ht₀ (hid' ▸ hlt) ht' hh' hdh with
      hsame | ⟨h, hh, hon⟩
    · exact hfixed.hand t' h' hsame hh' hid'
    · have hid : h.handId = h₁.handId := hon.follows.deck.handId.symm.trans hid'
      exact (hfixed.hand t₀ h ht₀ hh hid).trans hon.follows.deck

def CardsLast (c : Chain env) (tid hid : Nat) : Prop :=
  ∀ t h, c.poker.getTable tid = some t → t.hand = some h → h.handId = hid →
    CardsSuffice h

theorem finalised_hand {hid : Nat} (hvalid : ChainValid c) (hok : handle c msg = .ok c')
    (hfinalises : FinalisesDeck c c' tid hid dh dh') :
    ∃ t h, AtHand c tid t h dh ∧ h.handId = hid ∧ c'.poker.getTable tid = some { t with
        hand := some { h with dealer := finalizeDealerMeta h h.dealer.deckSize } } := by
  obtain ⟨block, m, hhand⟩ := hfinalises.hand_message hvalid.sound hok
  obtain ⟨c₁, hpenalty, hact⟩ := handleHand_effect hhand
  obtain ⟨rfl, t, h, -, hat₁, hid, -, -, -, hpoker⟩ :=
    hact.finalises (hpenalty.finalises hfinalises)
  have hat := hat₁.of_penalised hpenalty
  have hagrees := hat.agrees hvalid.linked
  have hlength := (hvalid.linked.deck _ _ dh hat.dealerHand).1
  refine ⟨t, h, hat, hid, ?_⟩
  rw [hpoker, hpenalty.poker_eq, getTable_setHand hvalid.linked.solvent.1 hat.table,
    if_pos rfl, hlength, hagrees.1]

/-- A message that finalises a deck deals it completely, with cards enough for the
rest of the hand, exactly if the deck has two cards for each seat in the hand and five
for the board. -/
theorem finalised_deal_complete_iff {balances : env.poker.bank.Balances}
    {staking : env.staking.Staking} {params : Params} {log : List (Msg env)}
    {c c' : Chain env} {msg : Msg env} {tid hid : Nat} {dh dh' : DealerHand}
    (hreach : Reaches handle (Chain.genesis env balances staking params) log c)
    (hok : handle c msg = .ok c') (hfinalises : FinalisesDeck c c' tid hid dh dh') :
    ∃ t h h', AtHand c tid t h dh ∧ h.handId = hid ∧
      (c'.poker.getTable tid).bind (·.hand) = some h' ∧
      (DealComplete h' ∧ (∀ later, CardsLast (run handle c' later) tid hid) ↔
        2 * (dealtIn h).card + 5 ≤ dh.deckSize) := by
  have hreach := reachable_of_reaches hreach
  have hvalid := reachable_valid hreach
  have hreach' := hreach.step hok
  obtain ⟨t, h, hat, rfl, hget⟩ := finalised_hand hvalid hok hfinalises
  have hagrees := hat.agrees hvalid.linked
  refine ⟨t, h, _, hat, rfl, by rw [hget]; rfl, ?_⟩
  constructor
  · rintro ⟨hcomplete, -⟩
    have hboard := hcomplete.board
    rw [hcomplete.cursor] at hboard
    rw [← hagrees.1]
    exact hboard
  · intro hroom
    have hfits : DeckFits h := by
      refine ⟨?_, ?_⟩
      · rw [holeDealOrder_length, hagrees.1]
        exact hroom
      · rw [hagrees.1]
        exact (hvalid.linked.deck tid h.handId dh hat.dealerHand).2.2
    refine ⟨DeckFits.dealComplete hfits, fun later => ?_⟩
    have hfixed : FixedDeck { h with dealer := finalizeDealerMeta h h.dealer.deckSize }
        tid c' := by
      refine ⟨⟨_, hget, (reachable_valid hreach').linked.numbered tid _ _ hget rfl⟩, ?_⟩
      intro t₁ h₁ ht₁ hh₁ _
      cases hget.symm.trans ht₁
      cases hh₁
      exact .refl _
    have hlater := later_invariant (FixedDeck _ tid) hreach' hfixed
      (fun c₁ m c₂ hvalid₁ hinv hok₁ => FixedDeck.handle rfl hinv hvalid₁ hok₁) later
    intro t₂ h₂ ht₂ hh₂ hid₂
    have hsame := hlater.hand t₂ h₂ ht₂ hh₂ hid₂
    have hdealt := (Poker.finalizeDealerMeta_dealt hfits).of_same hsame
    have hapart := (Poker.finalizeDealerMeta_apart h h.dealer.deckSize).of_same hsame
    exact DeckDealt.cardsSuffice hdealt hapart hsame.deckFinalized

/-- A deck of two cards for two players: one card each, none for the board, and the
hole cards that a timeout asks for are not there. -/
theorem allShuffleRun_short :
    ∃ c', handle (run handle residueGenesis allShuffleRun) finalizeDeckMsg = .ok c' ∧
      (∃ dh dh', FinalisesDeck (run handle residueGenesis allShuffleRun) c' 1 1
        dh dh') ∧
      (∃ h, (c'.poker.getTable 1).bind (·.hand) = some h ∧ (dealtIn h).card = 2 ∧
        h.dealer.cursor = 2 ∧ h.dealer.holePos 0 1 = unsetPos ∧ ¬ DealComplete h) ∧
      handle c' (handMsgAt 2000 (.timeout ⟨"gm", 1, 1⟩)) =
        .error (plain "hole_pos unset for seat 0") := by
  obtain ⟨c', dh, dh', hok, hfinalises⟩ := allShuffleRun_finalises
  have hfacts : ∃ h ∈ ((deliver handle (run handle residueGenesis allShuffleRun)
        finalizeDeckMsg).poker.getTable 1).bind (·.hand), (dealtIn h).card = 2 ∧
          h.dealer.cursor = 2 ∧ h.dealer.holePos 0 1 = unsetPos := by
    decide +kernel
  have hfails : (match handle (deliver handle (run handle residueGenesis allShuffleRun)
      finalizeDeckMsg) (handMsgAt 2000 (.timeout ⟨"gm", 1, 1⟩)) with
      | .ok _ => none
      | .error err => some err) = some (plain "hole_pos unset for seat 0") := by
    decide +kernel
  rw [deliver_of_ok hok] at hfacts hfails
  obtain ⟨h, hh, hcount, hcursor, hunset⟩ := hfacts
  refine ⟨c', hok, ⟨dh, dh', hfinalises⟩,
    ⟨h, hh, hcount, hcursor, hunset, fun hcomplete => ?_⟩, ?_⟩
  · have htwo := hcomplete.cursor
    omega
  · cases hlast : handle c' (handMsgAt 2000 (.timeout ⟨"gm", 1, 1⟩)) with
    | ok _ =>
      rw [hlast] at hfails
      cases hfails
    | error err =>
      rw [hlast] at hfails
      cases hfails
      rfl

def tenCardShuffles : List (Msg residueEnv) :=
  committeeRun ++ dealRun 1 10 ++
    [shuffleMsgAt 10 1 1 "A" 10, shuffleMsgAt 20 1 2 "B" 10]

theorem tenCardShuffles_complete :
    ∃ c' h', handle (run handle residueGenesis tenCardShuffles)
        (handMsgAt 200 (.timeout ⟨"gm", 1, 1⟩)) = .ok c' ∧
      (c'.poker.getTable 1).bind (·.hand) = some h' ∧ DealComplete h' ∧
      ∀ later, CardsLast (run handle c' later) 1 1 := by
  obtain ⟨c', hok⟩ := isOk_iff.mp (by decide +kernel :
    (handle (run handle residueGenesis tenCardShuffles)
      (handMsgAt 200 (.timeout ⟨"gm", 1, 1⟩))).isOk)
  have hfacts :
      (∃ dh ∈ (run handle residueGenesis tenCardShuffles).dealer.getHand 1 1,
        dh.finalized = false ∧ dh.deckSize = 10) ∧
      (∃ dh' ∈ (deliver handle (run handle residueGenesis tenCardShuffles)
        (handMsgAt 200 (.timeout ⟨"gm", 1, 1⟩))).dealer.getHand 1 1,
        dh'.finalized = true) ∧
      ∃ t ∈ (run handle residueGenesis tenCardShuffles).poker.getTable 1,
        ∃ h ∈ t.hand, (dealtIn h).card = 2 := by
    decide +kernel
  rw [deliver_of_ok hok] at hfacts
  obtain ⟨⟨dh, hdh, hopen, hsize⟩, ⟨dh', hdh', hfinal⟩, t, ht, h, hh, hcount⟩ := hfacts
  have hreach : Reaches handle residueGenesis _
      (run handle residueGenesis tenCardShuffles) := reaches_run tenCardShuffles
  obtain ⟨t₁, h₁, h', hat, hid, hh', hiff⟩ :=
    finalised_deal_complete_iff hreach hok ⟨hdh, hopen, hdh', hfinal⟩
  cases ht.symm.trans hat.table
  cases hh.symm.trans hat.hand
  obtain ⟨hcomplete, hlast⟩ := hiff.mpr (by rw [hcount, hsize]; decide)
  exact ⟨c', h', hok, hh', hcomplete, hlast⟩

end OnChainPoker.Dealer
