import OnChainPoker.Dealer.HoleShares

/-!
# Who can read a card

A public share is accepted only for a card that has to be public: the next card of
the board, or a hole card at the showdown of a player who has not folded.  The
encrypted shares of a hole card are all under the key that its seat had when the
hand was started, whoever sits there later.
-/

namespace OnChainPoker.Dealer

open Foundation Crypto
open Poker (Block Table Hand Seats SeatIdx unsetPos inHandNotFolded
  HandStanding HandOver finalizeDealerMeta)

variable {env : Env} {seats : Seats} {h h' : Hand} {block : Block} {dh : DealerHand}
  {ps : DealerPubShare} {msg : Msg env}

/-! ## Public shares -/

def PublicPosition (h : Hand) (pos : Nat) : Prop :=
  ((h.phase = .awaitFlop ∨ h.phase = .awaitTurn ∨ h.phase = .awaitRiver) ∧
      pos = h.dealer.cursor + h.board.length) ∨
    (h.phase = .awaitShowdown ∧ ∃ i hole, h.inHand i = true ∧ h.folded i = false ∧
      h.dealer.holePos i hole = pos)

theorem awaits_of_revealPos (hstanding : HandStanding seats h)
    (hset : h.dealer.revealPos ≠ unsetPos) : h.phase.awaits = true := by
  have hnot : h.phase ≠ .shuffle := by
    intro hphase
    have hreveal := hstanding.reveal
    rw [Poker.RevealValid, if_pos hphase] at hreveal
    exact hset hreveal.1
  obtain ⟨expected, hexpected, hpos, -⟩ := hstanding.reveal.expected hnot
  obtain ⟨-, ⟨htarget, -⟩ | ⟨hshow, -⟩ | ⟨-, rfl⟩⟩ := Poker.dealerExpectedRevealPos_ok hexpected
  · cases hphase : h.phase <;> simp [hphase, Poker.boardTarget] at htarget <;> rfl
  · rw [hshow]
    rfl
  · exact absurd hpos hset

theorem revealPos_public (hstanding : HandStanding seats h)
    (hset : h.dealer.revealPos ≠ unsetPos) : PublicPosition h h.dealer.revealPos := by
  obtain ⟨hexpected, -⟩ := hstanding.awaited (awaits_of_revealPos hstanding hset)
  obtain ⟨-, ⟨htarget, hpos, -⟩ | ⟨hshow, hnext⟩ | ⟨-, hnone⟩⟩ :=
    Poker.dealerExpectedRevealPos_ok hexpected
  · rw [hstanding.boardPos_eq, Option.some.injEq] at hpos
    refine .inl ⟨?_, hpos⟩
    cases hphase : h.phase <;> simp [hphase, Poker.boardTarget] at htarget ⊢
  · obtain ⟨i, hole, hlive, hpos, -⟩ :=
      (Poker.dealerNextShowdownHolePos_ok hstanding.deal hnext).1 _ rfl
    simp only [inHandNotFolded, Bool.and_eq_true, Bool.not_eq_true'] at hlive
    exact .inr ⟨hshow, i, hole, hlive.1, hlive.2, hpos⟩
  · cases hnone

theorem submitPubShare_public {c c' : Chain env} {req : MsgSubmitPubShare}
    (hvalid : ChainValid c) (hok : handle c (.hand block (.submitPubShare req)) = .ok c') :
    ∃ t h, c.poker.getTable req.tableId = some t ∧ t.hand = some h ∧
      h.handId = req.handId ∧ PublicPosition h req.pos := by
  change submitPubShare c block req = .ok c' at hok
  simp only [submitPubShare, requireRevealPos, ok_iff, ne_eq, not_not, not_or, exists_const] at hok
  obtain ⟨-, -, -, -, -, -, ⟨t, h⟩, hactive, ⟨⟨hset, -⟩, hpos⟩, -⟩ := hok
  obtain ⟨ht, hh, hid⟩ := activeHand_ok hactive
  refine ⟨t, h, ht, hh, hid, ?_⟩
  rw [hpos]
  exact revealPos_public ((hvalid.tables _ t ht).hand h hh) hset

/-- Stored public shares are of cards after the hole cards or, at the showdown, of
hole cards of players who have not folded. -/
structure PubSharesPublic (h : Hand) (dh : DealerHand) : Prop where
  opening : h.phase = .shuffle → dh.pubShares = []
  stored : ∀ ps ∈ dh.pubShares, ps.pos ≠ unsetPos ∧ (h.dealer.cursor ≤ ps.pos ∨
    h.phase = .awaitShowdown ∧ ∃ i hole, inHandNotFolded h i = true ∧
      h.dealer.holePos i hole = ps.pos)

theorem PublicPosition.filed {pos : Nat} (hpublic : PublicPosition h pos) :
    h.dealer.cursor ≤ pos ∨ h.phase = .awaitShowdown ∧
      ∃ i hole, inHandNotFolded h i = true ∧ h.dealer.holePos i hole = pos := by
  rcases hpublic with ⟨-, rfl⟩ | ⟨hshow, i, hole, hin, hstays, hpos⟩
  · exact .inl (Nat.le_add_right _ _)
  · exact .inr ⟨hshow, i, hole, by simp [inHandNotFolded, hin, hstays], hpos⟩

theorem PubSharesPublic.of_shuffle {dh dh' : DealerHand} (hpublic : PubSharesPublic h dh)
    (hphase : h.phase = .shuffle) (hshares : dh'.pubShares = dh.pubShares) :
    PubSharesPublic h' dh' := by
  have hnone : dh'.pubShares = [] := hshares.trans (hpublic.opening hphase)
  refine ⟨fun _ => hnone, fun ps hps => ?_⟩
  rw [hnone] at hps
  cases hps

theorem PubSharesPublic.of_follows {dh dh' : DealerHand} (hpublic : PubSharesPublic h dh)
    (hfollows : Poker.Follows h h')
    (hshow : h.phase = .awaitShowdown → h'.phase = .awaitShowdown ∧ h'.folded = h.folded)
    (hshares : dh'.pubShares = dh.pubShares) : PubSharesPublic h' dh' := by
  constructor
  · intro hphase
    obtain ⟨_, rfl⟩ := hfollows.opening hphase
    exact hshares.trans (hpublic.opening hphase)
  · intro ps hps
    rw [hshares] at hps
    obtain ⟨hset, hpast | ⟨hphase, i, hole, hlive, hpos⟩⟩ := hpublic.stored ps hps
    · refine ⟨hset, .inl ?_⟩
      rw [hfollows.deck.cursor]
      exact hpast
    · obtain ⟨hphase', hfolded⟩ := hshow hphase
      refine ⟨hset, .inr ⟨hphase', i, hole, ?_, ?_⟩⟩
      · rw [inHandNotFolded, hfollows.deck.inHand, hfolded]
        exact hlive
      · rw [hfollows.deck.holePos]
        exact hpos

theorem reveal_showdown {params : Poker.TableParams} {seats seats' : Seats} {h next h' : Hand}
    {pos cardID : Nat} {now : Int} (hshow : h.phase = .awaitShowdown)
    (hreveal : Poker.applyDealerRevealToPoker params seats h pos cardID = .ok (seats', some next))
    (hdeadlines : Poker.setDeadlinesIfActive params seats' now (some next) = .ok (some h')) :
    h'.phase = .awaitShowdown ∧ h'.folded = h.folded := by
  have hsame : next = h := by
    rcases Poker.applyDealerRevealToPoker_ok hreveal with
      ⟨_, _, _, htarget, -⟩ | ⟨-, hhole⟩
    · rw [hshow] at htarget
      cases htarget
    · obtain ⟨_, _, _, _, ⟨_, -, -, hnext⟩ | ⟨-, hnone⟩⟩ := Poker.applyHoleReveal_ok hhole
      · exact Option.some.inj hnext
      · cases hnone
  rcases Poker.setDeadlinesIfActive_ok hdeadlines with
    ⟨hnone, -⟩ | ⟨_, _, _, _, hnext, hh'⟩
  · cases hnone
  cases hnext
  cases hh'
  subst hsame
  exact ⟨hshow, rfl⟩

theorem pubSharesPublic_invariant : PairInvariant (fun (_ : Chain env) (_ : Msg env) => True)
    (fun _ _ _ h dh => PubSharesPublic h dh) where
  opened := by
    intro c tid t t' h h' dh epoch _ hopened
    have hnone := hopened.initial.pubShares
    refine ⟨fun _ => hnone, fun ps hps => ?_⟩
    rw [hnone] at hps
    cases hps
  step := by
    intro c₀ c msg tid t t' h h' dh dh' hvalid _ _ hat hpublic hstep
    have hstanding := hat.standing hvalid
    cases hstep with
    | idle => exact hpublic
    | play hon =>
      refine hpublic.of_follows hon.follows (fun hshow => ?_) rfl
      have hnot : h.phase ≠ .betting := by
        rw [hshow]
        simp
      exact ⟨(hon.phase hnot).trans hshow, hon.folded hnot⟩
    | shuffle _ _ _ hphase _ _ _ _ _ _ | finalizeDeck hphase _ _ _ _ =>
      exact hpublic.of_shuffle hphase rfl
    | encShare _ => exact ⟨hpublic.opening, hpublic.stored⟩
    | advance _ hphase _ _ _ _ _ | extend hphase _ _ => exact hpublic.of_shuffle hphase rfl
    | pubShare _ _ _ hset hpos _ _ _ _ _ _ _ _ _ =>
      constructor
      · intro hphase
        have hawaits := awaits_of_revealPos hstanding hset
        rw [hphase] at hawaits
        cases hawaits
      · intro ps hps
        rcases List.mem_append.mp (mem_sortSlice.mp hps) with hold | hnew
        · exact hpublic.stored ps hold
        · rw [List.mem_singleton] at hnew
          subst hnew
          rw [hpos]
          exact ⟨hset, (revealPos_public hstanding hset).filed⟩
    | reveal block _ _ _ hreveal hdeadlines _ =>
      have hplay := Poker.HandStep.reveal _ _ block hreveal hdeadlines
      exact hpublic.of_follows hplay.follows
        (fun hshow => reveal_showdown hshow hreveal hdeadlines) rfl
  later := fun _ _ _ hpublic => hpublic

section Stored

variable {c c' : Chain env} {block : Block} {tableID tid hid : Nat} {h : Hand} {dh dh' : DealerHand}

theorem PubSharesPublic.not_folded (hpublic : PubSharesPublic h dh) (hdeal : Poker.DealtApart h)
    (hps : ps ∈ dh.pubShares) {i : SeatIdx} (hout : inHandNotFolded h i = false) (hole : Fin 2) :
    h.dealer.holePos i hole ≠ ps.pos := by
  intro hslot
  obtain ⟨hset, hpast | ⟨-, j, slot, hlive, hpos⟩⟩ := hpublic.stored ps hps
  · have hbelow := hdeal.slots.below i hole (hslot ▸ hset)
    omega
  · obtain ⟨rfl, -⟩ := hdeal.slots.apart j slot i hole (hpos ▸ hset) (hpos.trans hslot.symm)
    rw [hout] at hlive
    cases hlive

theorem PubSharesPublic.not_hole (hpublic : PubSharesPublic h dh) (hdeal : Poker.DealtApart h)
    (hphase : h.phase ≠ .awaitShowdown) (hps : ps ∈ dh.pubShares) (i : SeatIdx) (hole : Fin 2) :
    h.dealer.holePos i hole ≠ ps.pos := by
  intro hslot
  obtain ⟨hset, hpast | ⟨hshow, -⟩⟩ := hpublic.stored ps hps
  · have hbelow := hdeal.slots.below i hole (hslot ▸ hset)
    omega
  · exact hphase hshow

theorem handle_stored (hvalid : ChainValid c) (hok : handle c msg = .ok c')
    (hdh : c'.dealer.getHand tid hid = some dh) :
    c.dealer.getHand tid hid = some dh ∨ ∃ t h, h.handId = hid ∧ AtHand c' tid t h dh := by
  cases handle_step hok with
  | player m _ _ => exact .inl hdh
  | dkg block m _ hdealer =>
    have heffect := dkg_effect hvalid.sound hdealer
    left
    simpa only [State.getHand, heffect.hands_eq] using hdh
  | hand block m _ =>
    obtain ⟨c₁, hpenalty, hact⟩ := handleHand_effect hok
    obtain ⟨_, _, _, _, hwrote⟩ := hact.wrote (hvalid.linked.penalised hpenalty).solvent.1
    rcases hwrote.stored hdh with hold | hactive
    · left
      cases hpenalty <;> exact hold
    · exact .inr hactive
  | otherStaking staking => exact .inl hdh

end Stored

/-! ## Encrypted shares -/

/-- The share is of a card that was dealt to a player of the hand, as it was started,
and is encrypted under that player's key. -/
def DealtTo (S : Suite) (tid : Nat) (t₁ : Table) (h₁ : Hand) (dh : DealerHand)
    (es : DealerEncShare) : Prop :=
  (∃ seat hole, h₁.inHand seat = true ∧
    es.pos = (finalizeDealerMeta h₁ dh.deckSize).holePos seat hole ∧
    es.pkPlayer = (t₁.seats seat).pk) ∧
  ∃ mem, EncShareVerified S tid h₁.handId dh mem es

structure SharesDealt (S : Suite) (tid : Nat) (t₁ : Table) (h₁ : Hand)
    (dh : DealerHand) : Prop where
  undealt : dh.finalized = false → dh.encShares = []
  dealt : ∀ es ∈ dh.encShares, DealtTo S tid t₁ h₁ dh es

/-- A later version of the hand: until the hole cards are out nobody who was dealt in
has changed the key, and the cards are where the start of the hand puts them. -/
structure SameDeal (t₁ : Table) (h₁ : Hand) (t : Table) (h : Hand) : Prop where
  opening : h.phase = .shuffle →
    (∃ dealer deadline, h = { h₁ with dealer := dealer, actionDeadline := deadline }) ∧
      ∀ i, h₁.inHand i = true → (t.seats i).pk = (t₁.seats i).pk
  slots : h.dealer.deckFinalized = true →
    h.dealer.holePos = (finalizeDealerMeta h₁ h.dealer.deckSize).holePos

section Deal

variable {c c' : Chain env} {tid : Nat} {t t' t₁ : Table} {h h' h₁ : Hand} {dh dh' : DealerHand}

theorem SameDeal.of_follows (hsame : SameDeal t₁ h₁ t h) (hfollows : Poker.Follows h h')
    (hkeys : h'.phase = .shuffle → ∀ i, h.inHand i = true → (t'.seats i).pk = (t.seats i).pk) :
    SameDeal t₁ h₁ t' h' := by
  constructor
  · intro hphase
    have hkeys' := hkeys hphase
    obtain ⟨deadline, rfl⟩ := hfollows.opening hphase
    obtain ⟨⟨dealer, _, rfl⟩, hkept⟩ := hsame.opening hphase
    exact ⟨⟨dealer, deadline, rfl⟩, fun i hin => (hkeys' i hin).trans (hkept i hin)⟩
  · rw [hfollows.deck.deckFinalized, hfollows.deck.holePos, hfollows.deck.deckSize]
    exact hsame.slots

theorem SharesDealt.of_empty {S : Suite} (hnone : dh.encShares = []) :
    SharesDealt S tid t₁ h₁ dh := by
  refine ⟨fun _ => hnone, fun es hes => ?_⟩
  rw [hnone] at hes
  cases hes

theorem SharesDealt.add (hvalid : ChainValid c) (hid : h.handId = h₁.handId)
    (hsame : SameDeal t₁ h₁ t h) (hshares : SharesDealt env.suite tid t₁ h₁ dh)
    {epoch : DealerEpoch} {es : DealerEncShare} (hchecked : EncShareChecked c tid t h dh epoch es) :
    SharesDealt env.suite tid t₁ h₁ { dh with
      encShares := sortEncShares (dh.encShares ++ [es]) } := by
  have hat := hchecked.atHand
  have hagrees := hat.agrees hvalid.linked
  obtain ⟨⟨dealer, deadline, hhand⟩, hkeys⟩ := hsame.opening hchecked.phase
  constructor
  · intro hopen
    have hfinal := hchecked.finalized
    rw [show dh.finalized = false from hopen] at hfinal
    cases hfinal
  · intro other hother
    rcases List.mem_append.mp (mem_sortSlice.mp hother) with hold | hnew
    · exact hshares.dealt other hold
    rw [List.mem_singleton] at hnew
    subst hnew
    obtain ⟨seat, hfind, hpk⟩ := hchecked.seat
    obtain ⟨hin, hole, hpos⟩ := isHolePos_some hfind
    have hseat : h₁.inHand seat = true := by
      rw [hhand] at hin
      exact hin
    refine ⟨⟨seat, hole, hseat, ?_, hpk.symm.trans (hkeys seat hseat)⟩, ?_⟩
    · rw [← hpos, hsame.slots hchecked.deckFinalized, hagrees.1]
    · obtain ⟨mem, -, -, hverified⟩ := hchecked.member
      rw [hid, (Poker.getTable_id hvalid.linked.solvent.1 hat.table).1] at hverified
      exact ⟨mem, hverified⟩

theorem PairStep.dealt (hvalid : ChainValid c) (hat : AtHand c tid t h dh)
    (hid : h.handId = h₁.handId) (hsame : SameDeal t₁ h₁ t h)
    (hshares : SharesDealt env.suite tid t₁ h₁ dh) (hstep : PairStep c msg tid t h dh t' h' dh') :
    SameDeal t₁ h₁ t' h' ∧ SharesDealt env.suite tid t₁ h₁ dh' := by
  have hstanding := hat.standing hvalid
  cases hstep with
  | idle => exact ⟨hsame, hshares⟩
  | play hon =>
    refine ⟨hsame.of_follows hon.follows fun hphase i hin => (hon.seat i ?_).2.1, hshares⟩
    obtain ⟨_, rfl⟩ := hon.follows.opening hphase
    simp [inHandNotFolded, hin, hstanding.unfolded hphase i]
  | shuffle _ _ _ _ hopen _ _ _ _ _ => exact ⟨hsame, .of_empty (hshares.undealt hopen)⟩
  | finalizeDeck hphase hopen _ _ hseats =>
    have hagrees := hat.agrees hvalid.linked
    have hdeck := hvalid.linked.deck tid h.handId dh hat.dealerHand
    obtain ⟨⟨dealer, deadline, hhand⟩, hkeys⟩ := hsame.opening hphase
    refine ⟨⟨fun _ => ⟨⟨finalizeDealerMeta h dh.deck.length, deadline, ?_⟩, ?_⟩,
      fun _ => ?_⟩, .of_empty (hshares.undealt hopen)⟩
    · rw [hhand]
    · rw [hseats]
      exact hkeys
    · change (finalizeDealerMeta h dh.deck.length).holePos =
        (finalizeDealerMeta h₁ h.dealer.deckSize).holePos
      rw [hdeck.1, hagrees.1, hhand]
      rfl
  | encShare hchecked => exact ⟨hsame, hshares.add hvalid hid hsame hchecked⟩
  | advance hadds _ hplay hleft _ _ _ =>
    refine ⟨hsame.of_follows hplay.follows fun hphase => absurd hphase hleft, ?_⟩
    rcases hadds with rfl | ⟨es, hchecked, rfl⟩
    · exact ⟨hshares.undealt, hshares.dealt⟩
    · have hadded := hshares.add hvalid hid hsame hchecked
      exact ⟨hadded.undealt, hadded.dealt⟩
  | pubShare | extend _ _ _ => exact ⟨hsame, hshares.undealt, hshares.dealt⟩
  | reveal block hset _ _ hreveal hdeadlines _ =>
    have hplay := Poker.HandStep.reveal _ _ block hreveal hdeadlines
    refine ⟨hsame.of_follows hplay.follows fun hphase => ?_, hshares.undealt, hshares.dealt⟩
    obtain ⟨_, rfl⟩ := hplay.follows.opening hphase
    have hawaits := awaits_of_revealPos hstanding hset
    rw [show h.phase = .shuffle from hphase] at hawaits
    cases hawaits

theorem handle_undealt (hvalid : ChainValid c) (hok : handle c msg = .ok c')
    (ht : c.poker.getTable tid = some t) (hlt : h'.handId < t.nextHandId)
    (ht' : c'.poker.getTable tid = some t') (hh' : t'.hand = some h')
    (hnone : c'.dealer.getHand tid h'.handId = none) :
    c.poker.getTable tid = some t' ∨
      ∃ h, t.hand = some h ∧ Poker.PlaysOn t.seats h t'.seats h' := by
  cases handle_step hok with
  | player m _ hpoker =>
    rcases Poker.handle_played hvalid.linked.solvent.1 hvalid.tables m.toPoker_ofPlayer
      hpoker ht' hh' with hsame | ⟨t₀, ht₀, hplayed⟩
    · exact .inl hsame
    cases ht.symm.trans ht₀
    cases hplayed with
    | @on h _ hh hh₂ hon =>
      cases hh'.symm.trans hh₂
      exact .inr ⟨h, hh, hon⟩
    | started _ hstart hnormal =>
      obtain ⟨_, hh₂, _, hid, _⟩ := Poker.startHandOn_hand hstart
      subst hnormal
      cases hh'.symm.trans hh₂
      omega
  | dkg block m _ _ => exact .inl ht'
  | hand block m _ =>
    obtain ⟨c₁, hpenalty, hact⟩ := handleHand_effect hok
    obtain ⟨_, _, _, _, hwrote⟩ := hact.wrote (hvalid.linked.penalised hpenalty).solvent.1
    have hkept := hwrote.hand_kept ht' hh' hnone
    rw [hpenalty.poker_eq] at hkept
    exact .inl hkept
  | otherStaking staking => exact .inl ht'

theorem handle_started (hvalid : ChainValid c) (hok : handle c msg = .ok c')
    (hstarted : ∃ t, c.poker.getTable tid = some t ∧ hid < t.nextHandId) :
    ∃ t, c'.poker.getTable tid = some t ∧ hid < t.nextHandId := by
  obtain ⟨t, ht, hlt⟩ := hstarted
  obtain ⟨t', ht', hids⟩ := (handle_pokerLater hvalid.sound hvalid.linked hok).kept tid t ht
  exact ⟨t', ht', hlt.trans_le hids.nextHandId⟩

structure DealtFrom (t₁ : Table) (h₁ : Hand) (tid : Nat) (c : Chain env) : Prop where
  started : ∃ t, c.poker.getTable tid = some t ∧ h₁.handId < t.nextHandId
  hand : ∀ t h, c.poker.getTable tid = some t → t.hand = some h →
    h.handId = h₁.handId → SameDeal t₁ h₁ t h
  shares : ∀ dh, c.dealer.getHand tid h₁.handId = some dh →
    SharesDealt env.suite tid t₁ h₁ dh

theorem DealtFrom.pair (hdealt : DealtFrom t₁ h₁ tid c) (hvalid : ChainValid c)
    (hok : handle c msg = .ok c') (hat' : AtHand c' tid t' h' dh') (hid' : h'.handId = h₁.handId) :
    SameDeal t₁ h₁ t' h' ∧ SharesDealt env.suite tid t₁ h₁ dh' := by
  obtain ⟨c₁, hpenalty, -, horigin⟩ := handle_origin hvalid hok hat'
  have hvalid₁ := hvalid.penalised hpenalty
  rcases horigin with ⟨t, h, epoch, hopened⟩ | ⟨t, h, dh, hat, hid, hstep⟩
  · have hhand := hopened.hand'
    have ht := hopened.table
    rw [hpenalty.poker_eq] at ht
    subst hhand
    have hsame := hdealt.hand t h ht hopened.hand hid'
    refine ⟨⟨fun hphase => ?_, fun hfinal => ?_⟩, .of_empty hopened.initial.encShares⟩
    · obtain ⟨⟨dealer, deadline, rfl⟩, hkeys⟩ := hsame.opening hphase
      rw [hopened.seats]
      exact ⟨⟨_, deadline, rfl⟩, hkeys⟩
    · cases hfinal
  · have hat₀ := hat.of_penalised hpenalty
    have hid₀ := hid.symm.trans hid'
    exact hstep.dealt hvalid₁ hat hid₀ (hdealt.hand t h hat₀.table hat₀.hand hid₀)
      (hdealt.shares dh (hid₀ ▸ hat₀.dealerHand))

theorem DealtFrom.handle (hdealt : DealtFrom t₁ h₁ tid c) (hvalid : ChainValid c)
    (hok : Dealer.handle c msg = .ok c') : DealtFrom t₁ h₁ tid c' := by
  obtain ⟨t, ht, hlt⟩ := hdealt.started
  refine ⟨handle_started hvalid hok hdealt.started, ?_, ?_⟩
  · intro t' h' ht' hh' hid'
    cases hdh : c'.dealer.getHand tid h'.handId with
    | some dh' => exact (hdealt.pair hvalid hok ⟨ht', hh', hdh⟩ hid').1
    | none =>
      rcases handle_undealt hvalid hok ht (hid' ▸ hlt) ht' hh' hdh with hsame | ⟨h, hh, hon⟩
      · exact hdealt.hand t' h' hsame hh' hid'
      · have hid : h.handId = h₁.handId := hon.follows.deck.handId.symm.trans hid'
        have hstanding := (hvalid.tables tid t ht).hand h hh
        refine (hdealt.hand t h ht hh hid).of_follows hon.follows
          fun hphase i hin => (hon.seat i ?_).2.1
        obtain ⟨_, rfl⟩ := hon.follows.opening hphase
        simp [inHandNotFolded, hin, hstanding.unfolded hphase i]
  · intro dh' hdh'
    rcases handle_stored hvalid hok hdh' with hold | ⟨t', h', hid', hat'⟩
    · exact hdealt.shares dh' hold
    · exact (hdealt.pair hvalid hok hat' hid').2

end Deal

/-! ## Runs -/

section Runs

variable {c c' : Chain env} {tid hid : Nat} {t : Table} {h : Hand}

/-- What every message keeps in valid states holds along the rest of a run. -/
theorem later_invariant (Inv : Chain env → Prop) (hreach : Reachable c) (hstart : Inv c)
    (hstep : ∀ c msg c', ChainValid c → Inv c → handle c msg = .ok c' → Inv c')
    (later : List (Msg env)) : Inv (run handle c later) :=
  hreach.run_invariant_of_steps Inv (stepsMeet_of_forall (fun _ _ => trivial) later)
    hstart fun c msg c' hreach _ hinv hok =>
      hstep c msg c' (reachable_valid hreach) hinv hok

theorem handOver_frozen (hreach : Reachable c) (hover : HandOver c.poker tid hid)
    (later : List (Msg env)) (hdh : (run handle c later).dealer.getHand tid hid = some dh) :
    c.dealer.getHand tid hid = some dh := by
  refine (later_invariant (fun c' => HandOver c'.poker tid hid ∧ ∀ dh, c'.dealer.getHand tid hid =
    some dh → c.dealer.getHand tid hid = some dh) hreach ⟨hover, fun _ => id⟩ ?_ later).2 dh hdh
  rintro c₁ msg c₂ hvalid ⟨hover₁, hsame⟩ hok
  have hlater := handle_pokerLater hvalid.sound hvalid.linked hok
  have hover₂ := hover₁.later hlater
  refine ⟨hover₂, fun dh₂ hdh₂ => ?_⟩
  rcases handle_stored hvalid hok hdh₂ with hold | ⟨t, h, hid', hat⟩
  · exact hsame dh₂ hold
  · obtain ⟨t₂, ht₂, -, hnot⟩ := hover₂
    cases hat.table.symm.trans ht₂
    exact absurd hid' (hnot h hat.hand)

theorem player_ends_betting (hvalid : ChainValid c) (ht : c.poker.getTable tid = some t)
    (hh : t.hand = some h) {m : PlayerMsg env.poker} (hok : handle c (.player m) = .ok c')
    (hover : HandOver c'.poker tid h.handId) : h.phase = .betting := by
  by_contra hphase
  simp only [handle, ok_iff] at hok
  obtain ⟨poker, hpoker, rfl⟩ := hok
  obtain ⟨t', h', ht', hh', hon⟩ := Poker.handle_kept hvalid.linked.solvent.1
    hvalid.tables m.toPoker_ofPlayer hpoker ht hh hphase
  obtain ⟨t₂, ht₂, -, hnot⟩ := hover
  cases ht'.symm.trans ht₂
  exact hnot h' hh' hon.follows.deck.handId

theorem foldOut_hides (hreach : Reachable c) (ht : c.poker.getTable tid = some t)
    (hh : t.hand = some h) {m : PlayerMsg env.poker} (hok : handle c (.player m) = .ok c')
    (hover : HandOver c'.poker tid h.handId) (later : List (Msg env))
    (hdh : (run handle c' later).dealer.getHand tid h.handId = some dh) (hps : ps ∈ dh.pubShares)
    (i : SeatIdx) (hole : Fin 2) :
    h.dealer.holePos i hole ≠ ps.pos := by
  have hvalid := reachable_valid hreach
  have hbetting := player_ends_betting hvalid ht hh hok hover
  have hbefore := handOver_frozen (hreach.step hok) hover later hdh
  simp only [handle, ok_iff] at hok
  obtain ⟨poker, _, rfl⟩ := hok
  have hat : AtHand c tid t h dh := ⟨ht, hh, hbefore⟩
  have hpublic := pubSharesPublic_invariant.reachable hreach hat
  refine hpublic.not_hole ((hvalid.tables tid t ht).hand h hh).deal ?_ hps i hole
  rw [hbetting]
  simp

theorem startHand_dealtFrom (hvalid : ChainValid c) (hvalid' : ChainValid c')
    {req : Poker.MsgStartHand} (hok : handle c (.player (.startHand block req)) = .ok c') :
    ∃ t₁ h₁, c'.poker.getTable req.tableId = some t₁ ∧ t₁.hand = some h₁ ∧
      DealtFrom t₁ h₁ req.tableId c' := by
  simp only [handle, ok_iff] at hok
  obtain ⟨poker, hpoker, rfl⟩ := hok
  have hids := hvalid.linked.solvent.1
  cases Poker.handle_effect hpoker with
  | createTable _ hm _ _ _ _ | otherTransaction _ hm _ _ _ => cases hm
  | @onTable tid t t₁ _ _ htid ht htable hreplaces _ =>
    cases htid
    have hid : t₁.id = req.tableId := htable.id_eq.trans (Poker.getTable_id hids ht).1
    have hget := hreplaces.getTable req.tableId
    rw [if_pos hid.symm] at hget
    cases htable with
    | inner hinner _ => cases hinner
    | startHand _ _ _ hstart =>
      obtain ⟨h₁, hh₁, _, hnumber, hfresh⟩ := Poker.startHandOn_hand hstart
      have hlt := hvalid'.linked.numbered _ _ h₁ hget hh₁
      refine ⟨_, h₁, hget, hh₁, ⟨_, hget, hlt⟩, fun t' h' ht' hh' _ => ?_, fun dh hdh => ?_⟩
      · cases hget.symm.trans ht'
        cases hh₁.symm.trans hh'
        refine ⟨fun _ => ⟨⟨h₁.dealer, h₁.actionDeadline, rfl⟩, fun _ _ => rfl⟩, fun hfinal => ?_⟩
        rw [hfresh] at hfinal
        cases hfinal
      · -- no dealer hand has the new number
        obtain ⟨t₀, ht₀, hbelow⟩ := hvalid.linked.started _ _ dh hdh
        cases ht.symm.trans ht₀
        omega

end Runs

/-- At every moment of every run a public share is accepted only for a card that has
to be public.  So none is stored for a hole card of a player who has folded, nor for
any hole card of a hand that the players ended, then or later.  The encrypted shares of
a hand are all for hole cards of its players, each under the key that its player had
when the hand was started. -/
theorem shares_readable_by_owner (env : Env) (balances : env.poker.bank.Balances)
    (staking : env.staking.Staking) (params : Params) (messages : List (Msg env))
    {c : Chain env}
    (hc : run handle (Chain.genesis env balances staking params) messages = c) :
    (∀ block req c', handle c (.hand block (.submitPubShare req)) = .ok c' →
      ∃ t h, c.poker.getTable req.tableId = some t ∧ t.hand = some h ∧
        h.handId = req.handId ∧ PublicPosition h req.pos) ∧
    (∀ tid t h dh, AtHand c tid t h dh → ∀ ps ∈ dh.pubShares, ∀ i hole,
      h.folded i = true → h.dealer.holePos i hole ≠ ps.pos) ∧
    (∀ tid t h m c', c.poker.getTable tid = some t → t.hand = some h →
      handle c (.player m) = .ok c' → HandOver c'.poker tid h.handId →
      ∀ later dh, (run handle c' later).dealer.getHand tid h.handId = some dh →
        ∀ ps ∈ dh.pubShares, ∀ i hole, h.dealer.holePos i hole ≠ ps.pos) ∧
    (∀ block req c', handle c (.player (.startHand block req)) = .ok c' →
      ∃ t₁ h₁, c'.poker.getTable req.tableId = some t₁ ∧ t₁.hand = some h₁ ∧
        ∀ later dh,
          (run handle c' later).dealer.getHand req.tableId h₁.handId = some dh →
          (∀ es ∈ dh.encShares, DealtTo env.suite req.tableId t₁ h₁ dh es) ∧
          ∀ t h, AtHand (run handle c' later) req.tableId t h dh →
            h.handId = h₁.handId → h.dealer.deckFinalized = true →
            h.dealer.holePos = (finalizeDealerMeta h₁ dh.deckSize).holePos) := by
  subst hc
  have hreach := reachable_run balances staking params messages
  have hvalid := reachable_valid hreach
  refine ⟨fun block req c' hok => submitPubShare_public hvalid hok, ?_, ?_, ?_⟩
  · intro tid t h dh hat ps hps i hole hfolded
    have hstanding := hat.standing hvalid
    refine (pubSharesPublic_invariant.reachable hreach hat).not_folded hstanding.deal
      hps ?_ hole
    simp [inHandNotFolded, hfolded]
  · intro tid t h m c' ht hh hok hover later dh hdh ps hps i hole
    exact foldOut_hides hreach ht hh hok hover later hdh hps i hole
  · intro block req c' hok
    have hreach' := hreach.step hok
    obtain ⟨t₁, h₁, ht₁, hh₁, hdealt⟩ := startHand_dealtFrom hvalid
      (reachable_valid hreach') hok
    refine ⟨t₁, h₁, ht₁, hh₁, fun later dh hdh => ?_⟩
    have hlater := later_invariant (DealtFrom t₁ h₁ req.tableId) hreach' hdealt
      (fun c msg c' hvalid hdealt hok => DealtFrom.handle hdealt hvalid hok) later
    refine ⟨(hlater.shares dh hdh).dealt, fun t h hat hid hfinal => ?_⟩
    have hvalid' := reachable_valid (hreach'.run later)
    have hagrees := hat.agrees hvalid'.linked
    rw [(hlater.hand t h hat.table hat.hand hid).slots hfinal, hagrees.1]

def seatedRun : List (Msg residueEnv) := committeeRun ++ (dealRun 1 10).take 3

def startedChain : Chain residueEnv :=
  deliver handle (run handle residueGenesis seatedRun)
    (.player (.startHand (blockAt 0) ⟨"P", 1⟩))

/-- Ten cards, shuffled by `A` and `B`, who send their shares of the hole cards; the
players call and check. -/
def tenCardRun : List (Msg residueEnv) :=
  (dealRun 1 10).drop 4 ++ shufflesRun 10 ++ holeSharesRun ++ preflopRun

theorem tenCardRun_shares : (handle (run handle residueGenesis seatedRun)
      (.player (.startHand (blockAt 0) ⟨"P", 1⟩))).isOk = true ∧
    (∃ t ∈ startedChain.poker.getTable 1, ∃ h ∈ t.hand,
      ∃ dh ∈ (run handle startedChain tenCardRun).dealer.getHand 1 h.handId,
        dh.encShares.length = 8) ∧
    (handle (run handle startedChain tenCardRun) (handMsgAt 230 (.submitPubShare
      ⟨"A", 1, 1, 4, residueBytes 13, residueRelation 22⟩))).isOk = true := by
  decide +kernel

theorem tenCardRun_readable :
    (∃ t h, (run handle startedChain tenCardRun).poker.getTable 1 = some t ∧
      t.hand = some h ∧ PublicPosition h 4) ∧
    ∃ t₁ h₁ dh, startedChain.poker.getTable 1 = some t₁ ∧ t₁.hand = some h₁ ∧
      dh.encShares.length = 8 ∧
      ∀ es ∈ dh.encShares, DealtTo residueEnv.suite 1 t₁ h₁ dh es := by
  obtain ⟨hstart, ⟨t, ht, h, hh, dh, hdh, hlen⟩, hpub⟩ := tenCardRun_shares
  obtain ⟨c₁, hstarted⟩ := isOk_iff.mp hstart
  obtain ⟨c₂, hshared⟩ := isOk_iff.mp hpub
  have hc₁ : startedChain = c₁ := deliver_of_ok hstarted
  constructor
  · have hrun : run handle residueGenesis
        (seatedRun ++ .player (.startHand (blockAt 0) ⟨"P", 1⟩) :: tenCardRun) =
          run handle startedChain tenCardRun := by
      rw [run_append, Foundation.run, startedChain]
    obtain ⟨hpublic, -⟩ := shares_readable_by_owner residueEnv (0 : Nat) ()
      residueParams _ hrun
    obtain ⟨t, h, ht, hh, -, hpos⟩ := hpublic _ _ c₂ hshared
    exact ⟨t, h, ht, hh, hpos⟩
  · unfold residueGenesis at hstarted
    obtain ⟨-, -, -, hdealt⟩ := shares_readable_by_owner residueEnv (0 : Nat) ()
      residueParams seatedRun rfl
    obtain ⟨t₁, h₁, ht₁, hh₁, hshares⟩ := hdealt _ _ c₁ hstarted
    rw [hc₁] at ht hdh ⊢
    cases ht.symm.trans ht₁
    cases hh.symm.trans hh₁
    exact ⟨t, h, dh, ht, hh, hlen, (hshares tenCardRun dh hdh).1⟩

end OnChainPoker.Dealer
