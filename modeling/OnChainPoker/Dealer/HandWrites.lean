import OnChainPoker.Dealer.EpochInvariant
import OnChainPoker.Poker.Play

/-!
# What the dealer writes

An act of the dealer writes the table of one active hand and the dealer hand beside it,
and nothing else.  If the hand goes on, the dealer hand is new, or both come from the pair
of the state before by one `PairStep`.
-/

namespace OnChainPoker.Dealer

open Foundation Crypto
open Poker (Block Table Hand unsetPos normalizeSeat normalizeTable
  initDealerMeta finalizeDealerMeta PlaysOn HandStep)

variable {env : Env} {c : Chain env} {msg : Msg env}

/-! ## The stored hands -/

section Hands

variable (c : Chain env) (tableID handID : Nat) (dh : DealerHand)

@[simp] theorem getHand_setHand (tid hid : Nat) :
    (c.setHand tableID handID dh).dealer.getHand tid hid =
      if tid = tableID ∧ hid = handID then some dh else c.dealer.getHand tid hid := by
  simp only [Chain.setHand, State.getHand]
  split
  · rename_i hkey
    rw [hkey.1, hkey.2, AList.lookup_insert]
  · rename_i hkey
    rw [AList.lookup_insert_ne (by simpa using hkey)]

@[simp] theorem getHand_deleteHand (tid hid : Nat) :
    (c.deleteHand tableID handID).dealer.getHand tid hid =
      if tid = tableID ∧ hid = handID then none else c.dealer.getHand tid hid := by
  simp only [Chain.deleteHand, State.getHand]
  split
  · rename_i hkey
    rw [hkey.1, hkey.2, AList.lookup_erase]
  · rename_i hkey
    rw [AList.lookup_erase_ne (by simpa using hkey)]

end Hands

/-! ## Table writes of the dealer -/

section Writes

variable {s s' : Poker.State env.poker} {tid handID : Nat} {t t₁ : Table} {h : Hand}

theorem nextHandId_le_normalizeTable (t : Table) :
    t.nextHandId ≤ (normalizeTable t).nextHandId := by
  simp only [normalizeTable]
  split <;> omega

section

variable (hids : Poker.IdsValid s) (ht : s.getTable tid = some t)
include hids ht

theorem getTable_setTable (hid : t₁.id = t.id) (other : Nat) :
    (s.setTable t₁).getTable other =
      if other = tid then some (normalizeTable t₁) else s.getTable other := by
  have hreplaces : Poker.Replaces s (s.setTable t₁) t₁ := ⟨rfl, rfl⟩
  rw [hreplaces.getTable, hid, (Poker.getTable_id hids ht).1]

theorem getTable_setHand (hand : Option Hand) (other : Nat) :
    (s.setTable { t with hand := hand }).getTable other =
      if other = tid then some { t with hand := hand } else s.getTable other := by
  have hnormal := Poker.normalizeTable_of_getTable ht
  have hsame : normalizeTable { t with hand := hand } = { t with hand := hand } := by
    change { normalizeTable t with hand := hand } = _
    rw [hnormal]
  have hid : ({ t with hand := hand } : Table).id = t.id := rfl
  rw [getTable_setTable hids ht hid, hsame]

theorem advance_written (hh : t.hand = some h) {block : Block}
    (hok : Poker.advanceAfterHoleSharesReady s tid h.handId block.unix = .ok s') :
    ∃ h', h.phase = .shuffle ∧ h.dealer.deckFinalized = true ∧
      Poker.setDeadlines t.params t.seats
        { h with phase := if h.actionOn = none then .awaitFlop else .betting }
        block.unix = .ok h' ∧
      ∀ other, s'.getTable other =
        if other = tid then some { t with hand := some h' } else s.getTable other := by
  simp only [Poker.advanceAfterHoleSharesReady, ok_iff, ne_eq, not_not, Bool.not_eq_false] at hok
  obtain ⟨⟨t₁, h₁⟩, hload, _, hphase, _, hfinal, h', hdeadlines, rfl⟩ := hok
  obtain ⟨ht₁, hh₁, _⟩ := Poker.loadHand_ok hload
  cases ht.symm.trans ht₁
  cases hh.symm.trans hh₁
  exact ⟨h', hphase, hfinal, hdeadlines, getTable_setHand hids ht _⟩

theorem reveal_written (hh : t.hand = some h) {block : Block} {pos cardID : Nat}
    (hok : Poker.applyDealerReveal s tid h.handId pos cardID block.unix = .ok s') :
    ∃ seats hand hand',
      Poker.applyDealerRevealToPoker t.params t.seats h pos cardID = .ok (seats, hand) ∧
      Poker.setDeadlinesIfActive t.params seats block.unix hand = .ok hand' ∧
      ∀ other, s'.getTable other =
        if other = tid then some (normalizeTable { t with
          seats := seats
          hand := hand' })
        else s.getTable other := by
  simp only [Poker.applyDealerReveal, ok_iff] at hok
  obtain ⟨⟨t₁, h₁⟩, hload, ⟨seats, hand⟩, hreveal, hand', hdeadlines, rfl⟩ := hok
  obtain ⟨ht₁, hh₁, _⟩ := Poker.loadHand_ok hload
  cases ht.symm.trans ht₁
  cases hh.symm.trans hh₁
  exact ⟨seats, hand, hand', hreveal, hdeadlines, getTable_setTable hids ht rfl⟩

end

theorem abort_written (hids : Poker.IdsValid s)
    (hok : Poker.abortHandRefundAllCommits s tid handID = .ok s') :
    ∃ t h t₁, s.getTable tid = some t ∧ t.hand = some h ∧ h.handId = handID ∧
      t.nextHandId ≤ t₁.nextHandId ∧ t₁.hand = none ∧ ∀ other, s'.getTable other =
        if other = tid then some t₁ else s.getTable other := by
  simp only [Poker.abortHandRefundAllCommits, ok_iff] at hok
  obtain ⟨⟨t, h⟩, hload, seats, _, rfl⟩ := hok
  obtain ⟨ht, hh, hid⟩ := Poker.loadHand_ok hload
  have hnext := nextHandId_le_normalizeTable { t with
    seats := Poker.clearHoles seats
    hand := none }
  exact ⟨t, h, _, ht, hh, hid, hnext, rfl, getTable_setTable hids ht rfl⟩

end Writes

/-! ## Pairs -/

structure Opened (c : Chain env) (tid : Nat) (t' : Table) (h' : Hand)
    (dh : DealerHand) (t : Table) (h : Hand) (epoch : DealerEpoch) : Prop where
  table : c.poker.getTable tid = some t
  hand : t.hand = some h
  phase : h.phase = .shuffle
  new : c.dealer.getHand tid h.handId = none
  current : c.dealer.epoch = some epoch
  initial : InitialHand env.suite epoch t.id h.handId dh
  deadline : 0 < dh.shuffleDeadline
  seats : t'.seats = t.seats
  hand' : h' = { h with dealer := initDealerMeta epoch.epochId dh.deckSize }

inductive PairStep (c : Chain env) (msg : Msg env) (tid : Nat) (t : Table)
    (h : Hand) (dh : DealerHand) : Table → Hand → DealerHand → Prop
  | idle : PairStep c msg tid t h dh t h dh
  | play {t' : Table} {h' : Hand} :
      PlaysOn t.seats h t'.seats h' → PairStep c msg tid t h dh t' h' dh
  | shuffle {block : Block} {req : MsgSubmitShuffle} {epoch : DealerEpoch}
      {shuffler : DealerMember} {context : Bytes} {deck : List DealerCiphertext}
      {deadline : Int} :
      msg = .hand block (.submitShuffle req) → req.tableId = tid →
      req.handId = h.handId → h.phase = .shuffle → dh.finalized = false →
      InEpoch c dh epoch →
      (epochQualMembers epoch)[dh.shuffleStep]? = some shuffler →
      Suite.buildShuffleContext req.tableId req.handId req.round req.shuffler =
        .ok context →
      verifyShuffle env.suite dh.pkHand dh.deck req.proofShuffle context = .ok deck →
      0 < deadline →
      PairStep c msg tid t h dh t h { dh with
        deck := deck
        shuffleStep := dh.shuffleStep + 1
        shuffleDeadline := deadline }
  | finalizeDeck {t' : Table} {epoch : DealerEpoch} {deadline : Int} :
      h.phase = .shuffle → dh.finalized = false → InEpoch c dh epoch →
      0 < deadline → t'.seats = t.seats →
      PairStep c msg tid t h dh t'
        { h with dealer := finalizeDealerMeta h dh.deck.length }
        { dh with
          finalized := true
          shuffleDeadline := 0
          holeSharesDeadline := deadline }
  | encShare {epoch : DealerEpoch} {es : DealerEncShare} :
      EncShareChecked c tid t h dh epoch es →
      PairStep c msg tid t h dh t h { dh with
        encShares := sortEncShares (dh.encShares ++ [es]) }
  | advance {t' : Table} {h' : Hand} {epoch : DealerEpoch}
      {shares : List DealerEncShare} :
      AddsEncShare c tid t h dh epoch shares → h.phase = .shuffle →
      HandStep t.params t.seats h t.seats (some h') → h'.phase ≠ .shuffle →
      h'.board = h.board → h'.folded = h.folded → t'.seats = t.seats →
      PairStep c msg tid t h dh t' h' { dh with
        encShares := shares
        holeSharesDeadline := 0 }
  | pubShare {block : Block} {req : MsgSubmitPubShare} {epoch : DealerEpoch}
      {mem : DealerMember} {card : DealerCiphertext}
      {yHand c1 share : env.suite.Point} {proof : env.suite.ChaumPedersenProof} :
      msg = .hand block (.submitPubShare req) → req.tableId = tid →
      req.handId = h.handId → h.dealer.revealPos ≠ unsetPos →
      req.pos = h.dealer.revealPos → dh.deck[req.pos]? = some card →
      InEpoch c dh epoch → findEpochMember epoch mem.validator = some mem →
      req.validator = mem.validator →
      (∀ ps ∈ dh.pubShares, ps.pos = req.pos → ps.validator ≠ mem.validator) →
      handShareKey env.suite dh t.id h.handId mem = .ok yHand →
      env.suite.pointFromBytesCanonical card.c1 = .ok c1 →
      env.suite.pointFromBytesCanonical req.pubShare = .ok share →
      Suite.chaumPedersenVerify yHand c1 share proof = .ok true →
      PairStep c msg tid t h dh t h { dh with
        pubShares := sortPubShares (dh.pubShares ++
          [⟨req.pos, mem.validator, mem.index, req.pubShare, req.proofShare⟩]) }
  | reveal {t' : Table} {seats' : Poker.Seats} {next h' : Hand}
      {epoch : DealerEpoch} {cardID : Nat} (block : Block) :
      h.dealer.revealPos ≠ unsetPos → InEpoch c dh epoch →
      revealCard env.suite dh epoch.threshold h.dealer.revealPos = .ok cardID →
      Poker.applyDealerRevealToPoker t.params t.seats h h.dealer.revealPos cardID =
        .ok (seats', some next) →
      Poker.setDeadlinesIfActive t.params seats' block.unix (some next) =
        .ok (some h') →
      t'.seats = (fun i => normalizeSeat (seats' i)) →
      PairStep c msg tid t h dh t' h' { dh with
        reveals := sortSlice (fun a b => decide (a.pos < b.pos))
          (dh.reveals ++ [⟨h.dealer.revealPos, cardID⟩]) }
  | extend {deadline : Int} :
      h.phase = .shuffle → dh.finalized = false → 0 < deadline →
      PairStep c msg tid t h dh t h { dh with shuffleDeadline := deadline }

structure PairFrom (c : Chain env) (msg : Msg env) (tid : Nat) (t' : Table) (h' : Hand)
    (dh' : DealerHand) (t : Table) (h : Hand) (dh : DealerHand) : Prop where
  atHand : AtHand c tid t h dh
  handId : h'.handId = h.handId
  step : PairStep c msg tid t h dh t' h' dh'

def PairOrigin (c : Chain env) (msg : Msg env) (tid : Nat) (t' : Table) (h' : Hand)
    (dh' : DealerHand) : Prop :=
  (∃ t h epoch, Opened c tid t' h' dh' t h epoch) ∨
    ∃ t h dh, PairFrom c msg tid t' h' dh' t h dh

theorem AtHand.origin {tid : Nat} {t : Table} {h : Hand} {dh : DealerHand}
    (hat : AtHand c tid t h dh) : PairOrigin c msg tid t h dh :=
  .inr ⟨t, h, dh, hat, rfl, .idle⟩

/-- The table and the dealer hand that an act on the hand `h` of the table `t` leaves. -/
structure Wrote (c : Chain env) (msg : Msg env) (tableID : Nat) (c' : Chain env)
    (t t₁ : Table) (h : Hand) (record : Option DealerHand) : Prop where
  table : c.poker.getTable tableID = some t
  hand : t.hand = some h
  tables : ∀ tid, c'.poker.getTable tid =
    if tid = tableID then some t₁ else c.poker.getTable tid
  hands : ∀ tid hid, c'.dealer.getHand tid hid =
    if tid = tableID ∧ hid = h.handId then record else c.dealer.getHand tid hid
  nextHandId : t.nextHandId ≤ t₁.nextHandId
  goesOn : ∀ h₁, t₁.hand = some h₁ → h₁.handId = h.handId ∧
    ∃ dh₁, record = some dh₁ ∧ PairOrigin c msg tableID t₁ h₁ dh₁
  ended : t₁.hand = none → record = none

/-! ## Hand acts -/

section Acts

variable {c c' : Chain env} {block : Block} {msg : Msg env} {tableID tid hid : Nat}
  {t t₁ t' : Table} {h h₁ h' : Hand} {dh dh₁ dh' : DealerHand} {record : Option DealerHand}

theorem DeadlineFrom.pos {deadline : Int} (hfrom : DeadlineFrom block t deadline) :
    0 < deadline := by
  have hnow := block.unix_pos
  unfold DeadlineFrom at hfrom
  omega

theorem wrote_hand (ht : c.poker.getTable tableID = some t) (hh : t.hand = some h)
    (htables : ∀ tid, c'.poker.getTable tid =
      if tid = tableID then some t₁ else c.poker.getTable tid)
    (hhands : ∀ tid hid, c'.dealer.getHand tid hid =
      if tid = tableID ∧ hid = h.handId then some dh₁ else c.dealer.getHand tid hid)
    (hnext : t.nextHandId ≤ t₁.nextHandId) (hh₁ : t₁.hand = some h₁)
    (hid : h₁.handId = h.handId) (horigin : PairOrigin c msg tableID t₁ h₁ dh₁) :
    Wrote c msg tableID c' t t₁ h (some dh₁) := by
  refine ⟨ht, hh, htables, hhands, hnext, fun h₂ hh₂ => ?_, fun hnone => ?_⟩
  · cases hh₁.symm.trans hh₂
    exact ⟨hid, dh₁, rfl, horigin⟩
  · cases hh₁.symm.trans hnone

theorem AtHand.wrote (hat : AtHand c tableID t h dh)
    (hstep : PairStep c msg tableID t h dh t h dh₁) :
    Wrote c msg tableID (c.setHand tableID h.handId dh₁) t t h (some dh₁) := by
  refine wrote_hand hat.table hat.hand (fun tid => ?_) (getHand_setHand _ _ _ _) le_rfl
    hat.hand rfl (.inr ⟨t, h, dh, hat, rfl, hstep⟩)
  split
  · rename_i hkey
    subst hkey
    exact hat.table
  · rfl

theorem HandAct.wrote {m : HandMsg} (hids : Poker.IdsValid c.poker)
    (hact : HandAct c block m tableID c') :
    ∃ t t₁ h record, Wrote c (.hand block m) tableID c' t t₁ h record := by
  cases hact with
  | @init _ _ t h epoch dh deckSize ht hh hphase hnone hepoch hinitial hdeadline
      hsize =>
      subst hsize
      exact ⟨t, _, h, some dh, wrote_hand ht hh (getTable_setHand hids ht _)
        (getHand_setHand _ tableID h.handId dh) le_rfl rfl rfl (.inl ⟨t, h, epoch, ht, hh,
          hphase, hnone, hepoch, hinitial, hdeadline.pos, rfl, rfl⟩)⟩
  | shuffle hat hid hphase hopen hepoch hnext _ hctx hverify hdeadline =>
    exact ⟨_, _, _, _, hat.wrote (.shuffle rfl rfl hid.symm hphase hopen hepoch hnext hctx
      hverify hdeadline.pos)⟩
  | @finalizeDeck _ _ t h dh epoch deadline hat hphase hopen hepoch _ _ hdeadline =>
    exact ⟨t, _, h, _, wrote_hand hat.table hat.hand (getTable_setHand hids hat.table _)
      (getHand_setHand _ tableID h.handId _) le_rfl rfl rfl (.inr ⟨t, h, dh, hat, rfl,
        .finalizeDeck hphase hopen hepoch hdeadline.pos rfl⟩)⟩
  | encShare hchecked => exact ⟨_, _, _, _, hchecked.atHand.wrote (.encShare hchecked)⟩
  | @advance _ _ t h dh epoch shares poker hat hshares hadvance =>
    obtain ⟨h₁, hphase, hfinal, hdeadlines, hget⟩ :=
      advance_written hids hat.table hat.hand hadvance
    have hstep : HandStep t.params t.seats h t.seats (some h₁) :=
      .advance block hphase hfinal hdeadlines
    have hid : h₁.handId = h.handId := hstep.follows.deck.handId
    obtain ⟨_, _, _, hwritten⟩ := Poker.setDeadlines_ok hdeadlines
    refine ⟨t, _, h, _, wrote_hand hat.table hat.hand hget (getHand_setHand c tableID h.handId _)
      le_rfl rfl hid (.inr ⟨t, h, dh, hat, hid, .advance hshares hphase hstep ?_ ?_ ?_ rfl⟩)⟩
    · rw [hwritten]
      simp only [Poker.Hand.withDeadlines]
      split <;> simp
    · rw [hwritten]
      rfl
    · rw [hwritten]
      rfl
  | pubShare hat hid hset hpos hcard hepoch hfind hname hfresh hkey hc1 hshare
      hverify =>
      exact ⟨_, _, _, _, hat.wrote (.pubShare rfl rfl hid.symm hset hpos hcard hepoch hfind
        hname hfresh hkey hc1 hshare hverify)⟩
  | @reveal _ _ t h dh epoch pos cardID poker hat hset hpos hepoch hcard hreveal =>
    subst hpos
    obtain ⟨seats, hand, hand', hstep, hdeadlines, hget⟩ :=
      reveal_written hids hat.table hat.hand hreveal
    have hplay : HandStep t.params t.seats h seats hand' := .reveal _ cardID block hstep hdeadlines
    have hset' := getHand_setHand c tableID h.handId { dh with
      reveals := sortSlice (fun a b => decide (a.pos < b.pos))
        (dh.reveals ++ [⟨h.dealer.revealPos, cardID⟩]) }
    have hnext := nextHandId_le_normalizeTable { t with seats := seats, hand := hand' }
    rw [Chain.cleanUp, hget, if_pos rfl]
    cases hand' with
    | none =>
      refine ⟨t, _, h, none, hat.table, hat.hand, hget, fun tid hid => ?_, hnext,
        fun h₁ hh₁ => (nomatch hh₁), fun _ => rfl⟩
      change (Chain.deleteHand _ tableID h.handId).dealer.getHand tid hid = _
      rw [getHand_deleteHand]
      split
      · rfl
      · rename_i hkey
        exact (hset' tid hid).trans (if_neg hkey)
    | some h₁ =>
      have hid : h₁.handId = h.handId := hplay.follows.deck.handId
      cases hand with
      | none => cases hdeadlines
      | some next =>
        exact ⟨t, _, h, _, wrote_hand hat.table hat.hand hget hset' hnext rfl hid
          (.inr ⟨t, h, dh, hat, hid, .reveal block hset hepoch hcard hstep hdeadlines rfl⟩)⟩
  | @abort _ _ handID poker habort =>
    obtain ⟨t, h, t₁, ht, hh, rfl, hnext, hnone, hget⟩ := abort_written hids habort
    refine ⟨t, t₁, h, none, ht, hh, hget, getHand_deleteHand _ _ _, hnext,
      fun h₁ hh₁ => ?_, fun _ => rfl⟩
    cases hnone.symm.trans hh₁
  | extend hat hphase hopen hdeadline =>
    exact ⟨_, _, _, _, hat.wrote (.extend hphase hopen hdeadline.pos)⟩

variable (hwrote : Wrote c msg tableID c' t t₁ h record)
include hwrote

theorem Wrote.elsewhere (htid : tid ≠ tableID) : c'.poker.getTable tid = c.poker.getTable tid ∧
      ∀ hid, c'.dealer.getHand tid hid = c.dealer.getHand tid hid :=
  ⟨(hwrote.tables tid).trans (if_neg htid),
    fun hid => (hwrote.hands tid hid).trans (if_neg fun both => htid both.1)⟩

theorem Wrote.active (hrecord : record = some dh') :
    ∃ h₁, h₁.handId = h.handId ∧ AtHand c' tableID t₁ h₁ dh' ∧
      PairOrigin c msg tableID t₁ h₁ dh' := by
  cases hh₁ : t₁.hand with
  | none => cases hrecord.symm.trans (hwrote.ended hh₁)
  | some h₁ =>
    obtain ⟨hid, dh₁, hdh₁, horigin⟩ := hwrote.goesOn h₁ hh₁
    cases hrecord.symm.trans hdh₁
    refine ⟨h₁, hid, ⟨(hwrote.tables tableID).trans (if_pos rfl), hh₁, ?_⟩, horigin⟩
    rw [hwrote.hands, if_pos ⟨rfl, hid⟩, hrecord]

theorem Wrote.origin (hat' : AtHand c' tid t' h' dh') : PairOrigin c msg tid t' h' dh' := by
  by_cases hkey : tid = tableID
  · subst hkey
    cases hat'.table.symm.trans ((hwrote.tables tid).trans (if_pos rfl))
    obtain ⟨hid, dh₁, hrecord, horigin⟩ := hwrote.goesOn h' hat'.hand
    have hdh' := hat'.dealerHand
    rw [hwrote.hands, if_pos ⟨rfl, hid⟩, hrecord] at hdh'
    cases hdh'
    exact horigin
  · obtain ⟨htables, hhands⟩ := hwrote.elsewhere hkey
    have hold : AtHand c tid t' h' dh' := ⟨htables ▸ hat'.table, hat'.hand,
      hhands h'.handId ▸ hat'.dealerHand⟩
    exact hold.origin

theorem Wrote.stored (hdh : c'.dealer.getHand tid hid = some dh) :
    c.dealer.getHand tid hid = some dh ∨ ∃ t h, h.handId = hid ∧ AtHand c' tid t h dh := by
  rw [hwrote.hands] at hdh
  split at hdh
  · rename_i hkey
    obtain ⟨rfl, rfl⟩ := hkey
    obtain ⟨h₁, hid, hat, -⟩ := hwrote.active hdh
    exact .inr ⟨t₁, h₁, hid, hat⟩
  · exact .inl hdh

theorem Wrote.hand_kept (ht' : c'.poker.getTable tid = some t') (hh' : t'.hand = some h')
    (hnone : c'.dealer.getHand tid h'.handId = none) : c.poker.getTable tid = some t' := by
  rw [hwrote.tables] at ht'
  split at ht'
  · rename_i hkey
    cases ht'
    obtain ⟨hid, dh₁, hrecord, -⟩ := hwrote.goesOn h' hh'
    rw [hwrote.hands, if_pos ⟨hkey, hid⟩, hrecord] at hnone
    cases hnone
  · exact ht'

end Acts

end OnChainPoker.Dealer
