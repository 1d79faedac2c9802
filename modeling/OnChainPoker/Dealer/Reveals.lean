import OnChainPoker.Dealer.DeckIntegrity
import OnChainPoker.Dealer.HoleShares

/-!
# Reveals

The positions revealed so far are those of the board and of the hole cards shown at
the showdown, so the position that is expected is never one of them.  When a reveal
times out, the members that are left have posted their shares and the card is
revealed, unless too few of them are left.
-/

namespace OnChainPoker.Dealer

open Foundation Crypto
open Poker (Block Table Hand Seats unknownCard DeckDealt SupplyFits inHandNotFolded
  HandStanding)

variable {env : Env} {seats : Seats} {h : Hand} {pos : Nat}

/-! ## Which positions are revealed -/

def Shown (seats : Seats) (h : Hand) (pos : Nat) : Prop :=
  (h.dealer.cursor ≤ pos ∧ pos < h.dealer.cursor + h.board.length) ∨
    (h.phase = .awaitShowdown ∧ ∃ i hole, inHandNotFolded h i = true ∧
      h.dealer.holePos i hole = pos ∧ (seats i).hole hole ≠ unknownCard)

theorem Shown.not_shuffle (hstanding : HandStanding seats h) (hshown : Shown seats h pos) :
    h.phase ≠ .shuffle := by
  intro hphase
  have hboard := hstanding.board
  simp only [Poker.BoardValid, hphase] at hboard
  rcases hshown with ⟨hle, hlt⟩ | ⟨hother, -⟩
  · rw [hboard.2, List.length_nil] at hlt
    omega
  · rw [hphase] at hother
    cases hother

variable {seats' : Seats}

theorem Shown.playsOn {h' : Hand} (hshown : Shown seats h pos)
    (hon : Poker.PlaysOn seats h seats' h') : Shown seats' h' pos := by
  have hdeck := hon.follows.deck
  rcases hshown with ⟨hle, hlt⟩ | ⟨hphase, i, hole, hlive, hpos, hknown⟩
  · refine .inl ⟨?_, ?_⟩
    · rw [hdeck.cursor]
      exact hle
    · rw [hdeck.cursor, hon.board]
      exact hlt
  · have hnot : h.phase ≠ .betting := by
      rw [hphase]
      simp
    have hlive' : inHandNotFolded h' i = true := by
      rw [inHandNotFolded, hdeck.inHand, hon.folded hnot]
      exact hlive
    refine .inr ⟨(hon.phase hnot).trans hphase, i, hole, hlive', ?_, ?_⟩
    · rw [hdeck.holePos]
      exact hpos
    · rw [(hon.seat i hlive').2.2]
      exact hknown

theorem enterStreet_board (params : Poker.TableParams) (seats : Seats) (h : Hand)
    (street : Poker.Street) : (Poker.enterStreet params seats h street).board = h.board := by
  unfold Poker.enterStreet
  dsimp only
  split <;> rfl

theorem reveal_shown {params : Poker.TableParams} {next : Hand} {cardID : Nat}
    (hstanding : HandStanding seats h)
    (hok : Poker.applyDealerRevealToPoker params seats h pos cardID = .ok (seats', some next))
    (hcard : cardID ≠ unknownCard) :
    Shown seats' next pos ∧ ∀ p, Shown seats h p → Shown seats' next p := by
  rcases Poker.applyDealerRevealToPoker_ok hok with
    ⟨boardLen, street, _, htarget, hreveal, rfl, hnext⟩ | ⟨hphase, hhole⟩
  · cases hnext
    have hdeck := (Poker.applyBoardReveal_change htarget hreveal).sameDeck
    have hpos : Poker.boardPos h = h.dealer.cursor + h.board.length := hstanding.boardPos_eq
    obtain ⟨-, rfl, hnext⟩ := Poker.applyBoardReveal_ok hreveal
    have hboard : next.board = h.board ++ [cardID] := by
      rw [hnext]
      split
      · exact enterStreet_board _ _ _ _
      · rfl
    rw [hpos]
    refine ⟨.inl ?_, fun p hshown => ?_⟩
    · rw [hdeck.cursor, hboard, List.length_append, List.length_singleton]
      omega
    · rcases hshown with ⟨hle, hlt⟩ | ⟨hshow, -⟩
      · refine .inl ?_
        rw [hdeck.cursor, hboard, List.length_append, List.length_singleton]
        omega
      · rw [hshow] at htarget
        cases htarget
  · obtain ⟨seat, slot, hfind, hlive, ⟨_, _, rfl, hnext⟩ | ⟨-, hnone⟩⟩ :=
      Poker.applyHoleReveal_ok hhole
    · cases hnext
      refine ⟨.inr ⟨hphase, seat, slot, hlive, Poker.dealerPosToSeatHole_some hfind, ?_⟩,
        fun p hshown => ?_⟩
      · simpa [Poker.revealHole] using hcard
      · rcases hshown with hon | ⟨-, i, hole, hi, hslot, hknown⟩
        · exact .inl hon
        · refine .inr ⟨hphase, i, hole, hi, hslot, ?_⟩
          by_cases hseat : i = seat
          · subst hseat
            by_cases hsame : hole = slot
            · subst hsame
              simpa [Poker.revealHole] using hcard
            · simpa [Poker.revealHole, hsame] using hknown
          · simpa [Poker.revealHole, hseat] using hknown
    · cases hnone

theorem Shown.not_expected (hstanding : HandStanding seats h) (hshown : Shown seats h pos)
    (hphase : h.phase.awaits = true) : pos ≠ h.dealer.revealPos := by
  rintro rfl
  obtain ⟨hexpected, hset, -⟩ := hstanding.awaited hphase
  obtain ⟨-, ⟨htarget, hpos, -⟩ | ⟨-, hnext⟩ | ⟨hidle, -⟩⟩ :=
    Poker.dealerExpectedRevealPos_ok hexpected
  · rw [hstanding.boardPos_eq, Option.some.injEq] at hpos
    rcases hshown with ⟨-, hlt⟩ | ⟨hshow, -⟩
    · omega
    · simp [Poker.boardTarget, hshow] at htarget
  · obtain ⟨i, hole, hlive, hpos, -, hhidden⟩ :=
      (Poker.dealerNextShowdownHolePos_ok hstanding.deal hnext).1 _ rfl
    rw [← hpos] at hset hshown
    rcases hshown with ⟨hle, -⟩ | ⟨-, j, slot, -, hsame, hknown⟩
    · have hbelow := hstanding.deal.slots.below i hole hset
      omega
    · obtain ⟨rfl, rfl⟩ := hstanding.deal.slots.apart i hole j slot hset hsame.symm
      exact hknown hhidden
  · rw [hphase] at hidle
    cases hidle

theorem revealCard_lt {S : Suite} {dh : DealerHand} {threshold id : Nat}
    (hsize : 0 < dh.deckSize ∧ dh.deckSize ≤ 52)
    (hok : revealCard S dh threshold pos = .ok id) : id < dh.deckSize := by
  simp only [revealCard, ok_iff] at hok
  obtain ⟨_, -, -, -, _, -, _, -, _, -, hid⟩ := hok
  exact (pointToCardID_ok hsize hid).1

theorem revealsShown_invariant : PairInvariant (fun (_ : Chain env) (_ : Msg env) => True)
    (fun _ _ t h dh => ∀ r ∈ dh.reveals, Shown t.seats h r.pos) where
  opened := by
    intro c tid t t' h h' dh epoch _ hopened r hr
    rw [hopened.initial.reveals] at hr
    cases hr
  step := by
    intro c₀ c msg tid t t' h h' dh dh' hvalid _ _ hat hshown hstep
    have hstanding := hat.standing hvalid
    cases hstep with
    | idle => exact hshown
    | play hon => exact fun r hr => (hshown r hr).playsOn hon
    | shuffle _ _ _ _ _ _ _ _ _ _ => exact hshown
    | finalizeDeck hphase _ _ _ _ | advance _ hphase _ _ _ _ _ =>
      exact fun r hr => absurd hphase ((hshown r hr).not_shuffle hstanding)
    | encShare _ => exact hshown
    | pubShare => exact hshown
    | @reveal _ seats' next _ _ cardID block _ _ hcard hreveal hdeadlines hseats =>
      have hsize := hvalid.linked.deck tid h.handId dh hat.dealerHand
      have hlt := revealCard_lt ⟨by omega, hsize.2.2⟩ hcard
      have hknown : cardID ≠ unknownCard := by
        unfold unknownCard
        omega
      obtain ⟨hnew, hold⟩ := reveal_shown hstanding hreveal hknown
      rcases Poker.setDeadlinesIfActive_ok hdeadlines with
        ⟨hnone, -⟩ | ⟨_, pos, deadline, action, hnext, hh'⟩
      · cases hnone
      cases hnext
      cases hh'
      have hsame : ∀ p, Shown seats' next p →
          Shown t'.seats (next.withDeadlines pos deadline action) p := by
        intro p hp
        rw [hseats]
        rcases hp with hboard | ⟨hphase, i, hole, hlive, hslot, hshow⟩
        · exact .inl hboard
        · exact .inr ⟨hphase, i, hole, hlive, hslot, by simpa using hshow⟩
      intro r hr
      rcases List.mem_append.mp (mem_sortSlice.mp hr) with hstored | hlast
      · exact hsame _ (hold _ (hshown r hstored))
      · rw [List.mem_singleton] at hlast
        subst hlast
        exact hsame _ hnew
    | extend _ _ _ => exact hshown
  later := fun _ _ _ hshown => hshown

/-! ## The timeout -/

section Timeout

variable {c c' : Chain env} {block : Block} {tid : Nat} {t : Table} {h : Hand}
  {dh : DealerHand} {e : DealerEpoch} {g : Polynomial env.suite.Scalar}

inductive RevealOutcome (c c' : Chain env) (block : Block) (tid : Nat) (t : Table)
    (h : Hand) : Prop
  | revealed {cardID : Nat} : cardID < 52 →
      Poker.applyDealerReveal c.poker tid h.handId h.dealer.revealPos cardID
        block.unix = .ok c'.poker →
      (∀ dh', c'.dealer.getHand tid h.handId = some dh' →
        ⟨h.dealer.revealPos, cardID⟩ ∈ dh'.reveals) →
      RevealOutcome c c' block tid t h
  | aborted : TooFewLeft c' tid t h → RevealOutcome c c' block tid t h

theorem expected_lt (hstanding : HandStanding t.seats h) (hdealt : DeckDealt h)
    (hphase : h.phase.awaits = true) : h.dealer.revealPos < h.dealer.deckSize := by
  obtain ⟨hexpected, hset, -⟩ := hstanding.awaited hphase
  obtain ⟨-, ⟨-, hpos, hlt⟩ | ⟨-, hnext⟩ | ⟨hidle, -⟩⟩ := Poker.dealerExpectedRevealPos_ok hexpected
  · rw [Option.some.inj hpos]
    exact hlt
  · obtain ⟨i, hole, -, hpos, -, -⟩ :=
      (Poker.dealerNextShowdownHolePos_ok hstanding.deal hnext).1 _ rfl
    rw [← hpos] at hset ⊢
    have hbelow := hstanding.deal.slots.below i hole hset
    have hroom := hdealt.1
    omega
  · rw [hphase] at hidle
    cases hidle

theorem posted_of_not_missing {m : DealerMember} (hm : m ∈ epochQualMembers e)
    (hpresent : m.validator ∉ dealerMissingPubShares e dh pos) :
    ∃ ps ∈ dh.pubShares, ps.pos = pos ∧ ps.validator = m.validator := by
  by_contra hnone
  push Not at hnone
  refine hpresent (mem_sortSlice.mpr (List.mem_map.mpr ⟨m, ?_, rfl⟩))
  refine List.mem_filter.mpr ⟨hm, ?_⟩
  rw [Bool.not_eq_true', List.any_eq_false]
  intro ps hps
  simpa using hnone ps hps

theorem missing_members {v : String} (hv : v ∈ dealerMissingPubShares e dh pos) :
    v ∈ e.members.map (·.validator) := by
  obtain ⟨m, hm, rfl⟩ := List.mem_map.mp (mem_sortSlice.mp hv)
  have hqual := List.mem_of_mem_filter hm
  exact List.mem_map.mpr ⟨m, List.mem_of_mem_filter hqual, rfl⟩

theorem missing_nil (hall : ∀ m ∈ epochQualMembers e, ∃ ps ∈ dh.pubShares,
      ps.pos = pos ∧ ps.validator = m.validator) :
    dealerMissingPubShares e dh pos = [] := by
  rw [List.eq_nil_iff_forall_not_mem]
  intro v hv
  obtain ⟨m, hm, rfl⟩ := List.mem_map.mp (mem_sortSlice.mp hv)
  obtain ⟨hqual, hmissing⟩ := List.mem_filter.mp hm
  obtain ⟨ps, hps, hpos, hname⟩ := hall m hqual
  rw [Bool.not_eq_true', List.any_eq_false] at hmissing
  exact hmissing ps hps (by simp [hpos, hname])

theorem cleanUp_poker (c : Chain env) (tid hid : Nat) : (c.cleanUp tid hid).poker = c.poker := by
  unfold Chain.cleanUp
  split <;> rfl

theorem cleanUp_getHand {tid hid : Nat} {dh' : DealerHand}
    (hget : (c.cleanUp tid hid).dealer.getHand tid hid = some dh') :
    c.dealer.getHand tid hid = some dh' := by
  unfold Chain.cleanUp at hget
  split at hget
  · rw [getHand_deleteHand, if_pos ⟨rfl, rfl⟩] at hget
    cases hget
  · exact hget

theorem DeckSound.penalised {c₁ : Chain env} (hsound : DeckSound c tid h dh e g)
    (hpenalty : Penalised c c₁) : DeckSound c₁ tid h dh e g := by
  refine ⟨hsound.committee, hsound.threshold, hsound.key, hsound.holds, ?_⟩
  intro e' hin
  obtain ⟨e₀, hin₀, hgrows⟩ := hin.of_penalised hpenalty
  exact (hsound.epoch e₀ hin₀).trans hgrows

theorem finalizeReveal_succeeds (block : Block) (horder : 52 < env.suite.order)
    (hvalid : ChainValid c) (hsupply : SupplyFits c.poker)
    (hat : AtHand c tid t h dh) (hin : InEpoch c dh e)
    (hindices : ∀ m ∈ e.members, m.index < env.suite.order)
    {e₀ : DealerEpoch} (hsound : DeckSound c tid h dh e₀ g)
    (hshown : ∀ r ∈ dh.reveals, Shown t.seats h r.pos) (hdealt : DeckDealt h)
    (hphase : h.phase.awaits = true) (hposted : ∀ m ∈ epochQualMembers e, ∃ ps ∈ dh.pubShares,
      ps.pos = h.dealer.revealPos ∧ ps.validator = m.validator)
    (hmany : e.threshold ≤ (epochQualMembers e).length) :
    ∃ c', finalizeReveal c block tid h.handId h.dealer.revealPos = .ok c' ∧
      RevealOutcome c c' block tid t h := by
  have hstanding := hat.standing hvalid
  obtain ⟨hexpected, hset, hdeadline⟩ := hstanding.awaited hphase
  obtain ⟨hlength, hmin, hmax⟩ := hvalid.linked.deck tid h.handId dh hat.dealerHand
  have hagrees := hat.agrees hvalid.linked
  have hlt := expected_lt hstanding hdealt hphase
  have hpos : h.dealer.revealPos < dh.deckSize := hagrees.1 ▸ hlt
  have hsame := (hsound.epoch e hin).same
  have hmembers : e.members = e₀.members := by rw [hsame]
  have hthreshold : e.threshold = e₀.threshold := by rw [hsame]
  have htwo := hsound.threshold
  have hcount : e₀.threshold ≤ (dh.pubShares.filter (·.pos = h.dealer.revealPos)).length := by
    rw [← List.length_map (fun ps : DealerPubShare => ps.validator), ← hthreshold]
    refine hmany.trans (qual_length_le (hmembers ▸ hsound.committee) fun m hm => ?_)
    obtain ⟨ps, hps, hps', hname⟩ := hposted m hm
    exact List.mem_map.mpr ⟨ps, List.mem_filter.mpr ⟨hps, by simpa using hps'⟩, hname⟩
  obtain ⟨cardID, hcard⟩ := revealCard_succeeds horder hsound.committee
    (hmembers ▸ hindices) (by omega) hsound.key.degree hsound.holds hmax hpos hcount
  have hknown := revealCard_lt ⟨by omega, hmax⟩ hcard
  obtain ⟨poker', happly⟩ := Poker.applyDealerReveal_succeeds
    hvalid.linked.solvent hsupply hat.table hat.hand (hvalid.tables tid t hat.table)
    hdealt hphase cardID block
  have hfresh : ¬ (dh.reveals.any (·.pos = h.dealer.revealPos)) = true := by
    rw [Bool.not_eq_true, List.any_eq_false]
    intro r hr hrpos
    exact (hshown r hr).not_expected hstanding hphase (by simpa using hrpos)
  rw [finalizeReveal, activeHand_eq hat, ok_bind]
  dsimp only
  rw [requireRevealPos, rejectIf_bind (by omega), rejectIf_bind (by simp), dealerHand_eq hat,
    ok_bind, rejectIf_bind (by omega), handEpoch_eq hin, ok_bind, missing_nil hposted, rejectIf_bind
    (by simp), rejectIf_bind hfresh, hthreshold, hcard, ok_bind]
  rw [show (c.setHand tid h.handId { dh with
    reveals := sortSlice (fun a b => decide (a.pos < b.pos))
      (dh.reveals ++ [⟨h.dealer.revealPos, cardID⟩]) }).poker = c.poker from rfl,
    happly]
  refine ⟨_, rfl, .revealed (lt_of_lt_of_le hknown hmax) ?_ fun dh' hdh' => ?_⟩
  · rw [cleanUp_poker]
    exact happly
  · have hstored := cleanUp_getHand hdh'
    change (c.setHand tid h.handId _).dealer.getHand tid h.handId = some dh' at hstored
    rw [getHand_setHand, if_pos ⟨rfl, rfl⟩, Option.some.injEq] at hstored
    subst hstored
    exact mem_sortSlice.mpr (List.mem_append_right _ (List.mem_singleton_self _))

theorem timeoutReveal_penalises (hok : timeoutReveal c block tid h.handId h dh e = .ok c') :
    PenaltiesAccepted c block e (dealerMissingPubShares e dh h.dealer.revealPos) := by
  simp only [timeoutReveal, ok_iff] at hok
  obtain ⟨-, -, -, -, result, hpenalty, -⟩ := hok
  exact ⟨result, hpenalty⟩

theorem timeoutReveal_succeeds (horder : 52 < env.suite.order) (hvalid : ChainValid c)
    (hsupply : SupplyFits c.poker)
    (hpenalties : PenaltiesAccepted c block e (dealerMissingPubShares e dh h.dealer.revealPos))
    (hat : AtHand c tid t h dh) (hin : InEpoch c dh e)
    (hindices : ∀ m ∈ e.members, m.index < env.suite.order) {e₀ : DealerEpoch}
    (hsound : DeckSound c tid h dh e₀ g) (hshown : ∀ r ∈ dh.reveals, Shown t.seats h r.pos)
    (hdealt : DeckDealt h) (hphase : h.phase.awaits = true)
    (hlate : h.dealer.revealDeadline ≤ block.unix) :
    ∃ c', timeoutReveal c block tid h.handId h dh e = .ok c' ∧
      RevealOutcome c c' block tid t h := by
  have hepoch := hvalid.sound.epoch e hin.current
  have hstanding := hat.standing hvalid
  obtain ⟨-, hset, hdeadline⟩ := hstanding.awaited hphase
  obtain ⟨⟨c₁, e₁⟩, hpenalty⟩ := hpenalties
  obtain ⟨hpenalised, he₁, hgrows⟩ := penaliseAll_penalised hin.current hpenalty
  have hvalid₁ := hvalid.penalised hpenalised
  have hat₁ := hat.penalised hpenalised
  have hsupply₁ := SupplyFits.penalised hsupply hpenalised
  rw [timeoutReveal, rejectIf_bind (by omega), rejectIf_bind (by omega)]
  dsimp only
  rw [hpenalty, ok_bind]
  dsimp only
  split
  · rename_i hfew
    obtain ⟨c', hok, houtcome⟩ := abortHand_tooFew hvalid₁ hsupply₁ hat₁ he₁ hfew
    exact ⟨c', hok, .aborted houtcome⟩
  rename_i hmany
  -- Whoever is left has posted a share of the position.
  have hepoch₁ := hvalid₁.sound.epoch e₁ he₁
  have hposted : ∀ m ∈ epochQualMembers e₁, ∃ ps ∈ dh.pubShares,
      ps.pos = h.dealer.revealPos ∧ ps.validator = m.validator := by
    intro m hm
    obtain ⟨hold, hfree⟩ := qual_of_penaliseAll hepoch hepoch₁ hgrows hpenalty hm
    exact posted_of_not_missing hold hfree
  have hsame := hgrows.same
  have hin₁ : InEpoch c₁ dh e₁ := ⟨he₁, by rw [hsame]; exact hin.epochId⟩
  have hsound₁ : DeckSound c₁ tid h dh e₀ g := hsound.penalised hpenalised
  obtain ⟨c', hok, houtcome⟩ := finalizeReveal_succeeds block horder hvalid₁
    hsupply₁ hat₁ hin₁ (by rw [hsame]; exact hindices) hsound₁ hshown hdealt hphase
    hposted (by omega)
  refine ⟨c', hok, ?_⟩
  cases houtcome with
  | revealed hcard happly hstored =>
    rw [hpenalised.poker_eq] at happly
    exact .revealed hcard happly hstored
  | aborted hfew => exact .aborted hfew

section Runs

variable {caller : String} (hsupply : SupplyFits c.poker)
  (hcaller : requireCaller env caller = .ok ()) (hat : AtHand c tid t h dh) (hin : InEpoch c dh e)
  (hsize : dh.deckSize = 52)

include hsupply hcaller hat hin hsize

theorem timeout_holeShares_iff (hreach : Reachable c) (hphase : h.phase = .shuffle)
    (hfinal : dh.finalized = true) (hlate : dh.holeSharesDeadline ≤ block.unix) :
    (∃ c', handle c (.hand block (.timeout ⟨caller, tid, h.handId⟩)) = .ok c' ∧
        HoleSharesOutcome c' tid t h) ↔
      ∃ missing, dealerMissingHoleEncShares e h dh = .ok missing ∧
        PenaltiesAccepted c block e missing := by
  have hvalid := reachable_valid hreach
  rw [timeout_stage hvalid hat hin hcaller, if_neg (by simp [hfinal]), if_pos hphase]
  constructor
  · rintro ⟨c', hok, -⟩
    exact timeoutHoleShares_penalises hok
  · intro hpenalties
    exact timeoutHoleShares_succeeds hvalid hsupply hpenalties
      (deadlinesSet_invariant.reachable hreach hat)
      (holeSharesFiled_invariant.reachable hreach hat) hat hin hsize hphase hfinal hlate

theorem timeout_reveal_iff {balances : env.poker.bank.Balances} {staking : env.staking.Staking}
    {params : Params} {messages : List (Msg env)} (horder : 52 < env.suite.order)
    (htrue : AcceptedMeet handle ProofTrue (Chain.genesis env balances staking params) messages)
    (hc : run handle (Chain.genesis env balances staking params) messages = c)
    (hindices : ∀ m ∈ e.members, m.index < env.suite.order) (hphase : h.phase.awaits = true)
    (hlate : h.dealer.revealDeadline ≤ block.unix) :
    (∃ c', handle c (.hand block (.timeout ⟨caller, tid, h.handId⟩)) = .ok c' ∧
        RevealOutcome c c' block tid t h) ↔
      PenaltiesAccepted c block e (dealerMissingPubShares e dh h.dealer.revealPos) := by
  subst hc
  have hreach := reachable_run balances staking params messages
  have hvalid := reachable_valid hreach
  have hnot : h.phase ≠ .shuffle := by
    rintro hshuffle
    rw [hshuffle] at hphase
    cases hphase
  rw [timeout_stage hvalid hat hin hcaller, if_neg (by tauto), if_neg hnot]
  obtain ⟨e₀, g, hsound⟩ := deckSound_invariant.run htrue hat
  have hstanding := hat.standing hvalid
  obtain ⟨hexpected, -⟩ := hstanding.awaited hphase
  have hfinal := (Poker.dealerExpectedRevealPos_ok hexpected).1
  have hagrees := hat.agrees hvalid.linked
  have hdealt := (hstanding.deck (.inr (hagrees.1.trans hsize))).dealt hfinal
  constructor
  · rintro ⟨c', hok, -⟩
    exact timeoutReveal_penalises hok
  · intro hpenalties
    exact timeoutReveal_succeeds horder hvalid hsupply hpenalties hat hin hindices
      hsound (revealsShown_invariant.reachable hreach hat) hdealt hphase hlate

end Runs

end Timeout

/-- In every run in which the accepted proofs claim the truth, a hand with 52 cards
that waits past its deadline for hole shares or for a reveal is moved on by
`Timeout`, and it is aborted only when too few members are left. -/
theorem timeout_after_shuffling (env : Env) (horder : 52 < env.suite.order)
    (balances : env.poker.bank.Balances) (staking : env.staking.Staking)
    (params : Params) (messages : List (Msg env))
    (htrue : AcceptedMeet handle ProofTrue
      (Chain.genesis env balances staking params) messages)
    (block : Block) (caller : String) {c : Chain env} {tid : Nat} {t : Table}
    {h : Hand} {dh : DealerHand} {e : DealerEpoch}
    (hc : run handle (Chain.genesis env balances staking params) messages = c)
    (hsupply : SupplyFits c.poker) (hpenalties : PenaltiesSucceed c block e)
    (hcaller : requireCaller env caller = .ok ())
    (hat : AtHand c tid t h dh) (hin : InEpoch c dh e)
    (hindices : ∀ m ∈ e.members, m.index < env.suite.order)
    (hsize : dh.deckSize = 52) :
    (h.phase = .shuffle → dh.finalized = true → dh.holeSharesDeadline ≤ block.unix →
      ∃ c', handle c (.hand block (.timeout ⟨caller, tid, h.handId⟩)) = .ok c' ∧
        HoleSharesOutcome c' tid t h) ∧
    (h.phase.awaits = true → h.dealer.revealDeadline ≤ block.unix →
      ∃ c', handle c (.hand block (.timeout ⟨caller, tid, h.handId⟩)) = .ok c' ∧
        RevealOutcome c c' block tid t h) := by
  subst hc
  have hreach := reachable_run balances staking params messages
  refine ⟨fun hphase hfinal hlate => ?_, fun hphase hlate => ?_⟩
  · have hdealt := (deckDealt_of_finalized (reachable_valid hreach) hat hsize hfinal).2
    obtain ⟨missing, hmissing, hmembers, -⟩ := dealerMissingHoleEncShares_succeeds hdealt e dh
    exact (timeout_holeShares_iff hsupply hcaller hat hin hsize hreach hphase hfinal hlate).mpr
      ⟨missing, hmissing, hpenalties missing hmembers⟩
  · exact (timeout_reveal_iff hsupply hcaller hat hin hsize horder htrue rfl hindices hphase
      hlate).mpr (hpenalties _ fun _ => missing_members)

theorem fullDeck_honest : ShufflesHonest 52 := by
  decide +kernel

def FullDeckWaits (c : Chain residueEnv) (waits : Hand → DealerHand → Prop) : Prop :=
  residueEnv.poker.bank.moduleBalance c.poker.balances ≤ Poker.maxUint64 ∧
    ∃ t ∈ c.poker.getTable 1, ∃ h ∈ t.hand,
      ∃ dh ∈ c.dealer.getHand 1 h.handId, dh.deckSize = 52 ∧ waits h dh ∧
        ∃ e ∈ c.dealer.epoch, e.epochId = dh.epochId ∧
          ∀ m ∈ e.members, m.index < residueEnv.suite.order

instance (c : Chain residueEnv) (waits : Hand → DealerHand → Prop)
    [∀ h dh, Decidable (waits h dh)] : Decidable (FullDeckWaits c waits) :=
  inferInstanceAs (Decidable (_ ∧ _))

theorem fullDeckRun_waits : FullDeckWaits (run handle residueGenesis (finalDeckRun 52)) (fun h dh =>
      h.phase = .shuffle ∧ dh.finalized = true ∧ dh.holeSharesDeadline ≤ (blockAt 500).unix) ∧
    FullDeckWaits (run handle residueGenesis (flopRun 52)) (fun h _ =>
      h.phase.awaits = true ∧ h.dealer.revealDeadline ≤ (blockAt 500).unix) := by
  decide +kernel

theorem fullDeckRun_moves_on :
    (∃ t h c', HoleSharesOutcome c' 1 t h ∧
      handle (run handle residueGenesis (finalDeckRun 52))
        (.hand (blockAt 500) (.timeout ⟨"gm", 1, h.handId⟩)) = .ok c') ∧
    (∃ t h c', RevealOutcome (run handle residueGenesis (flopRun 52)) c' (blockAt 500) 1 t h ∧
      handle (run handle residueGenesis (flopRun 52))
        (.hand (blockAt 500) (.timeout ⟨"gm", 1, h.handId⟩)) = .ok c') := by
  obtain ⟨hwaits, hwaits'⟩ := fullDeckRun_waits
  constructor
  · obtain ⟨hsupply, t, ht, h, hh, dh, hdh, hsize, ⟨hphase, hfinal, hlate⟩, e, he,
      hepoch, hindices⟩ := hwaits
    have hat : AtHand (run handle residueGenesis (finalDeckRun 52)) 1 t h dh := ⟨ht, hh, hdh⟩
    have hin : InEpoch (run handle residueGenesis (finalDeckRun 52)) dh e := ⟨he, hepoch⟩
    have htrue := finalDeckRun_proofTrue fullDeck_honest
    unfold residueGenesis at hsupply hat hin htrue ⊢
    obtain ⟨c', hok, houtcome⟩ := (timeout_after_shuffling residueEnv (by decide)
      (0 : Nat) () residueParams (finalDeckRun 52) htrue (blockAt 500) "gm" rfl hsupply
      (residueEnv_penaltiesSucceed _ _ _) residueEnv_requireCaller hat hin hindices hsize).1
      hphase hfinal hlate
    exact ⟨t, h, c', houtcome, hok⟩
  · obtain ⟨hsupply, t, ht, h, hh, dh, hdh, hsize, ⟨hphase, hlate⟩, e, he,
      hepoch, hindices⟩ := hwaits'
    have hat : AtHand (run handle residueGenesis (flopRun 52)) 1 t h dh := ⟨ht, hh, hdh⟩
    have hin : InEpoch (run handle residueGenesis (flopRun 52)) dh e := ⟨he, hepoch⟩
    have htrue := flopRun_proofTrue fullDeck_honest
    unfold residueGenesis at hsupply hat hin htrue ⊢
    obtain ⟨c', hok, houtcome⟩ := (timeout_after_shuffling residueEnv (by decide)
      (0 : Nat) () residueParams (flopRun 52) htrue (blockAt 500) "gm" rfl hsupply
      (residueEnv_penaltiesSucceed _ _ _) residueEnv_requireCaller hat hin hindices hsize).2
      hphase hlate
    exact ⟨t, h, c', houtcome, hok⟩

end OnChainPoker.Dealer
