import OnChainPoker.Dealer.ActiveHands

/-!
# What the deck of a hand holds

A new deck encrypts the cards in order.  Shuffles whose proofs claim the truth keep
the cards, and true shares of a position decrypt the card there.  So every position
has one card, which any sufficient set of its shares reveals.
-/

namespace OnChainPoker.Dealer

open Foundation Crypto
open Poker (Block Table Hand)
open Polynomial

variable {id threshold : Nat}

/-! ## Cards as points -/

section Cards

variable {S : Suite}

theorem cardPoint_injective (horder : 52 < S.order) : Set.InjOn (cardPoint S) {id | id < 52} := by
  intro id hid other hother hpoint
  have hscalar : ((id + 1 : ℕ) : S.Scalar) = (other + 1 : ℕ) := Suite.smul_base_injective hpoint
  have hmod := (ZMod.natCast_eq_natCast_iff' _ _ S.order).mp hscalar
  simp only [Set.mem_ofPred_eq] at hid hother
  rw [Nat.mod_eq_of_lt (by omega), Nat.mod_eq_of_lt (by omega)] at hmod
  omega

theorem cardIDOfBytes_spec {p : S.Point} (hfind : cardIDOfBytes S (S.pointBytes p) = some id) :
    id < 52 ∧ cardPoint S id = p := by
  have hmem := List.mem_of_find?_eq_some hfind
  have hsame := List.find?_some hfind
  refine ⟨by simpa using hmem, S.pointBytes_injective ?_⟩
  simpa using hsame

theorem cardIDOfBytes_cardPoint (horder : 52 < S.order) (hid : id < 52) :
    cardIDOfBytes S (S.pointBytes (cardPoint S id)) = some id := by
  obtain ⟨other, hfind⟩ : ∃ other,
      cardIDOfBytes S (S.pointBytes (cardPoint S id)) = some other := by
    rw [← Option.isSome_iff_exists, cardIDOfBytes, List.find?_isSome]
    exact ⟨id, by simpa using hid, by simp⟩
  obtain ⟨hother, hpoint⟩ := cardIDOfBytes_spec hfind
  rw [hfind, cardPoint_injective horder hother hid hpoint]

theorem pointToCardID_ok {p : S.Point} {deckSize id : Nat} (hsize : 0 < deckSize ∧ deckSize ≤ 52)
    (hok : pointToCardID p deckSize = .ok id) :
    id < deckSize ∧ cardPoint S id = p := by
  unfold pointToCardID at hok
  rw [if_neg (by omega)] at hok
  dsimp only at hok
  split at hok
  · rename_i other hfind
    split at hok
    · rename_i hlt
      cases hok
      exact ⟨hlt, (cardIDOfBytes_spec hfind).2⟩
    · cases hok
  · cases hok

theorem pointToCardID_cardPoint (horder : 52 < S.order) {deckSize id : Nat}
    (hsize : deckSize ≤ 52) (hid : id < deckSize) :
    pointToCardID (cardPoint S id) deckSize = .ok id := by
  unfold pointToCardID
  rw [if_neg (by omega), cardIDOfBytes_cardPoint horder (by omega)]
  exact if_pos hid

end Cards

/-! ## Shares of a position -/

section Shares

variable {S : Suite} {g : S.Scalar[X]} {e : DealerEpoch} {h : Hand} {dh : DealerHand}
  {pos id : Nat} {shares : List (ShareRec S)}

structure HandKey (S : Suite) (g : S.Scalar[X]) (e : DealerEpoch)
    (tableID handID : Nat) (dh : DealerHand) : Prop where
  degree : g.degree < e.threshold
  pkHand : S.pointFromBytesCanonical dh.pkHand = .ok (g.eval 0 • S.base)
  member : ∀ m ∈ e.members, handShareKey S dh tableID handID m =
    .ok (g.eval (m.index : S.Scalar) • S.base)

def ShareTrue (S : Suite) (g : S.Scalar[X]) (deck : List DealerCiphertext)
    (ps : DealerPubShare) : Prop :=
  ∃ card c1, deck[ps.pos]? = some card ∧
    S.pointFromBytesCanonical card.c1 = .ok c1 ∧
    S.pointFromBytesCanonical ps.share = .ok (g.eval (ps.index : S.Scalar) • c1)

def HoldsCard (S : Suite) (sk : S.Scalar) (dh : DealerHand) (pos id : Nat) : Prop :=
  id < dh.deckSize ∧ ∃ card ct, dh.deck[pos]? = some card ∧
    decodeDeckCiphertext S card = .ok ct ∧ ct.c2 - sk • ct.c1 = cardPoint S id

structure DeckHolds (S : Suite) (g : S.Scalar[X]) (e : DealerEpoch) (h : Hand)
    (dh : DealerHand) : Prop where
  cards : ∃ deck, dh.deck.mapM (decodeDeckCiphertext S) = .ok deck ∧
    EncryptsDeck S.Scalar S.base (g.eval 0 • S.base)
      ((List.range dh.deckSize).map (cardPoint S)) deck
  shares : ∀ ps ∈ dh.pubShares, ShareTrue S g dh.deck ps
  members : ∀ ps ∈ dh.pubShares,
    ∃ m ∈ e.members, m.validator = ps.validator ∧ m.index = ps.index
  distinct : dh.pubShares.Pairwise fun a b => a.pos = b.pos → a.validator ≠ b.validator
  reveals : ∀ r ∈ dh.reveals, HoldsCard S (g.eval 0) dh r.pos r.cardId
  undealt : h.phase = .shuffle → dh.pubShares = [] ∧ dh.reveals = []

variable {s : ShareRec S} {lambdas : List S.Scalar} {other : Nat}

theorem collectShares_mem {pubShares : List DealerPubShare}
    (hok : collectShares S pubShares pos = .ok shares) (hs : s ∈ shares) :
    ∃ ps ∈ pubShares, ps.pos = pos ∧ s.index = ps.index ∧
      S.pointFromBytesCanonical ps.share = .ok s.share := by
  obtain ⟨ps, hps, hread⟩ := mapM_mem hok hs
  simp only [ok_iff] at hread
  obtain ⟨p, hp, rfl⟩ := hread
  obtain ⟨hstored, hpos⟩ := List.mem_filter.mp hps
  exact ⟨ps, hstored, by simpa using hpos, rfl, hp⟩

theorem combine_shares (c1 : S.Point)
    (hlambdas : S.lagrangeAtZero (shares.map (·.index)) = .ok lambdas)
    (hdegree : g.degree < shares.length)
    (heach : ∀ s ∈ shares, s.share = g.eval (s.index : S.Scalar) • c1) :
    (List.zipWith (fun lambda (s : ShareRec S) => lambda • s.share)
      lambdas shares).sum = g.eval 0 • c1 := by
  rw [← List.length_map (·.index)] at hdegree
  rw [← Suite.lagrangeAtZero_combine hlambdas hdegree c1, List.zipWith_map_right]
  have hpoints : shares.map (·.share) = shares.map fun s => g.eval (s.index : S.Scalar) • c1 :=
    List.map_congr_left heach
  have hsame := congrArg (List.zipWith (fun lambda (p : S.Point) => lambda • p) lambdas) hpoints
  simp only [List.zipWith_map_right] at hsame
  rw [hsame]

def firstShares (threshold : Nat) (shares : List (ShareRec S)) : List (ShareRec S) :=
  (sortSlice (lessBy (·.index) (·.validator)) shares).take threshold

theorem firstShares_length (hmany : threshold ≤ shares.length) :
    (firstShares threshold shares).length = threshold := by
  rw [firstShares, List.length_take, (sortSlice_perm _ shares).length_eq, Nat.min_eq_left hmany]

theorem mem_of_mem_firstShares (hs : s ∈ firstShares threshold shares) : s ∈ shares :=
  mem_sortSlice.mp (List.mem_of_mem_take hs)

theorem DeckHolds.combine (hholds : DeckHolds S g e h dh) (hdegree : g.degree < threshold)
    (hcollect : collectShares S dh.pubShares pos = .ok shares) (hmany : threshold ≤ shares.length)
    (hlambdas : S.lagrangeAtZero ((firstShares threshold shares).map (·.index)) = .ok lambdas)
    {card : DealerCiphertext} {ct : S.ElGamalCiphertext} (hcard : dh.deck[pos]? = some card)
    (hct : decodeDeckCiphertext S card = .ok ct) :
    (List.zipWith (fun lambda (s : ShareRec S) => lambda • s.share) lambdas
      (firstShares threshold shares)).sum = g.eval 0 • ct.c1 := by
  refine combine_shares ct.c1 hlambdas ?_ fun s hs => ?_
  · rw [firstShares_length hmany]
    exact hdegree
  · obtain ⟨ps, hps, hpos, hindex, hshare⟩ := collectShares_mem hcollect (mem_of_mem_firstShares hs)
    obtain ⟨card', c1, hcard', hc1, htrue⟩ := hholds.shares ps hps
    rw [hpos] at hcard'
    cases hcard.symm.trans hcard'
    simp only [decodeDeckCiphertext, ok_iff] at hct
    obtain ⟨_, hc1', _, -, rfl⟩ := hct
    cases hc1.symm.trans hc1'
    rw [hindex]
    exact Except.ok.inj (hshare.symm.trans htrue)

theorem revealCard_holds (hdegree : g.degree < threshold) (hholds : DeckHolds S g e h dh)
    (hsize : 0 < dh.deckSize ∧ dh.deckSize ≤ 52)
    (hok : revealCard S dh threshold pos = .ok id) : HoldsCard S (g.eval 0) dh pos id := by
  simp only [revealCard, ok_iff, not_lt] at hok
  obtain ⟨shares, hcollect, -, hmany, lambdas, hlambdas, card, hcard, c2, hc2, hid⟩ := hok
  obtain ⟨deck, hdecode, -⟩ := hholds.cards
  obtain ⟨ct, -, hct⟩ := mapM_getElem? hdecode hcard
  have hcombined := hholds.combine hdegree hcollect hmany hlambdas hcard hct
  simp only [firstShares] at hcombined
  rw [hcombined] at hid
  have hparts := hct
  simp only [decodeDeckCiphertext, ok_iff] at hparts
  obtain ⟨_, -, _, hc2', rfl⟩ := hparts
  cases hc2.symm.trans hc2'
  obtain ⟨hlt, hpoint⟩ := pointToCardID_ok hsize hid
  exact ⟨hlt, card, _, hcard, hct, hpoint.symm⟩

theorem HoldsCard.unique (horder : 52 < S.order) (hsize : dh.deckSize ≤ 52) {sk : S.Scalar}
    (hcard : HoldsCard S sk dh pos id) (hother : HoldsCard S sk dh pos other) : id = other := by
  obtain ⟨hid, card, ct, hget, hdecode, hpoint⟩ := hcard
  obtain ⟨hid', card', ct', hget', hdecode', hpoint'⟩ := hother
  cases hget.symm.trans hget'
  cases hdecode.symm.trans hdecode'
  exact cardPoint_injective horder (lt_of_lt_of_le hid hsize)
    (lt_of_lt_of_le hid' hsize) (hpoint.symm.trans hpoint')

variable (hholds : DeckHolds S g e h dh)
include hholds

theorem DeckHolds.plaintexts : ∃ points, ((List.range dh.deckSize).map (cardPoint S)).Perm points ∧
      ∀ pos id, HoldsCard S (g.eval 0) dh pos id ↔
        id < dh.deckSize ∧ points[pos]? = some (cardPoint S id) := by
  obtain ⟨deck, hdecode, hdeck⟩ := hholds.cards
  refine ⟨_, hdeck.decrypt, fun pos id => and_congr_right fun _ => ?_⟩
  rw [List.getElem?_map, Option.map_eq_some_iff]
  constructor
  · rintro ⟨card, ct, hget, hread, hpoint⟩
    obtain ⟨ct', hget', hread'⟩ := mapM_getElem? hdecode hget
    cases hread.symm.trans hread'
    exact ⟨ct, hget', hpoint⟩
  · rintro ⟨ct, hget, hpoint⟩
    have hlength := (mapM_eq_ok_iff.mp hdecode).length_eq
    have hlt := (List.getElem?_eq_some_iff.mp hget).1
    have hcard : dh.deck[pos]? = some (dh.deck.get ⟨pos, by omega⟩) :=
      List.getElem?_eq_getElem (by omega)
    obtain ⟨ct', hget', hread'⟩ := mapM_getElem? hdecode hcard
    cases hget.symm.trans hget'
    exact ⟨_, ct, hcard, hread', hpoint⟩

theorem DeckHolds.card (hpos : pos < dh.deckSize) : ∃ id, HoldsCard S (g.eval 0) dh pos id := by
  obtain ⟨points, hperm, hiff⟩ := hholds.plaintexts
  have hlength : points.length = dh.deckSize := by
    rw [← hperm.length_eq, List.length_map, List.length_range]
  have hpoint : points[pos]? = some (points.get ⟨pos, by omega⟩) :=
    List.getElem?_eq_getElem (by omega)
  obtain ⟨id, hid, hcard⟩ := List.mem_map.mp (hperm.mem_iff.mpr (List.mem_of_getElem? hpoint))
  exact ⟨id, (hiff pos id).mpr ⟨by simpa using hid, hcard ▸ hpoint⟩⟩

theorem DeckHolds.injective (horder : 52 < S.order) (hsize : dh.deckSize ≤ 52)
    (hcard : HoldsCard S (g.eval 0) dh pos id)
    (hsame : HoldsCard S (g.eval 0) dh other id) : pos = other := by
  obtain ⟨points, hperm, hiff⟩ := hholds.plaintexts
  have hnodup : points.Nodup := by
    refine hperm.nodup_iff.mp (List.nodup_range.map_on ?_)
    intro a ha b hb hpoint
    rw [List.mem_range] at ha hb
    exact cardPoint_injective horder (lt_of_lt_of_le ha hsize) (lt_of_lt_of_le hb hsize) hpoint
  obtain ⟨hid, hget⟩ := (hiff pos id).mp hcard
  obtain ⟨-, hget'⟩ := (hiff other id).mp hsame
  have hlt := (List.getElem?_eq_some_iff.mp hget).1
  exact (List.getElem?_inj hlt hnodup).mp (hget.trans hget'.symm)

theorem DeckHolds.indices_nodup (hcommittee : CommitteeValid e.members) (pos : Nat) :
    ((dh.pubShares.filter (·.pos = pos)).map (·.index)).Nodup := by
  rw [List.Nodup, List.pairwise_map]
  refine (hholds.distinct.filter _).imp_of_mem ?_
  intro a b ha hb hdistinct hindex
  simp only [List.mem_filter, decide_eq_true_eq] at ha hb
  obtain ⟨m, hm, hname, hnumber⟩ := hholds.members a ha.1
  obtain ⟨m', hm', hname', hnumber'⟩ := hholds.members b hb.1
  have hsame : m = m' := List.inj_on_of_nodup_map hcommittee.indices hm hm'
    (by rw [hnumber, hnumber', hindex])
  refine hdistinct (ha.2.trans hb.2.symm) ?_
  rw [← hname, ← hname', hsame]

theorem DeckHolds.collect (pos : Nat) : ∃ shares, collectShares S dh.pubShares pos = .ok shares ∧
      shares.map (·.index) = (dh.pubShares.filter (·.pos = pos)).map (·.index) := by
  obtain ⟨shares, hcollect⟩ : ∃ shares, collectShares S dh.pubShares pos = .ok shares := by
    refine mapM_succeeds fun ps hps => ?_
    obtain ⟨_, _, -, -, hshare⟩ := hholds.shares ps (List.mem_of_mem_filter hps)
    rw [hshare]
    exact ⟨_, rfl⟩
  refine ⟨shares, hcollect, ?_⟩
  have hall := mapM_eq_ok_iff.mp hcollect
  refine List.forall₂_eq_eq_eq ▸ List.forall₂_map_left_iff.mpr
    (List.forall₂_map_right_iff.mpr (hall.flip.imp ?_))
  intro s ps hs
  simp only [ok_iff] at hs
  obtain ⟨_, -, rfl⟩ := hs
  rfl

theorem DeckHolds.coefficients (hcommittee : CommitteeValid e.members)
    (hindices : ∀ m ∈ e.members, m.index < S.order) (hthreshold : 0 < threshold)
    (hcollect : collectShares S dh.pubShares pos = .ok shares)
    (hread : shares.map (·.index) = (dh.pubShares.filter (·.pos = pos)).map (·.index))
    (hmany : threshold ≤ shares.length) :
    ∃ lambdas, S.lagrangeAtZero ((firstShares threshold shares).map (·.index)) = .ok lambdas := by
  have hmember : ∀ i ∈ (firstShares threshold shares).map (·.index),
      ∃ m ∈ e.members, m.index = i := by
    intro i hi
    obtain ⟨s, hs, rfl⟩ := List.mem_map.mp hi
    obtain ⟨ps, hps, -, hindex, -⟩ := collectShares_mem hcollect (mem_of_mem_firstShares hs)
    obtain ⟨m, hm, -, hnumber⟩ := hholds.members ps hps
    exact ⟨m, hm, hnumber.trans hindex.symm⟩
  apply Suite.lagrangeAtZero_succeeds
  · intro hnone
    have hlength := congrArg List.length hnone
    rw [List.length_map, firstShares_length hmany] at hlength
    simp only [List.length_nil] at hlength
    omega
  · intro i hi
    obtain ⟨m, hm, rfl⟩ := hmember i hi
    exact hcommittee.positive m hm
  · refine List.Nodup.sublist ((List.take_sublist _ _).map _) ?_
    rw [((sortSlice_perm _ shares).map _).nodup_iff, hread]
    exact hholds.indices_nodup hcommittee pos
  · apply Suite.indicesDistinct_of_lt
    intro i hi
    obtain ⟨m, hm, rfl⟩ := hmember i hi
    exact hindices m hm

omit hholds

theorem revealCard_succeeds (horder : 52 < S.order) (hcommittee : CommitteeValid e.members)
    (hindices : ∀ m ∈ e.members, m.index < S.order) (hthreshold : 0 < threshold)
    (hdegree : g.degree < threshold) (hholds : DeckHolds S g e h dh) (hsize : dh.deckSize ≤ 52)
    (hpos : pos < dh.deckSize) (hmany : threshold ≤ (dh.pubShares.filter (·.pos = pos)).length) :
    ∃ id, revealCard S dh threshold pos = .ok id := by
  obtain ⟨shares, hcollect, hread⟩ := hholds.collect pos
  have hlength : threshold ≤ shares.length := by
    rw [← List.length_map (·.index), hread, List.length_map]
    exact hmany
  obtain ⟨lambdas, hlambdas⟩ := hholds.coefficients hcommittee hindices hthreshold
    hcollect hread hlength
  obtain ⟨id, hid, card, ct, hcard, hct, hpoint⟩ := hholds.card hpos
  have hcombined := hholds.combine hdegree hcollect hlength hlambdas hcard hct
  have hparts := hct
  simp only [decodeDeckCiphertext, ok_iff] at hparts
  obtain ⟨_, -, _, hc2, rfl⟩ := hparts
  refine ⟨id, ?_⟩
  simp only [revealCard, ok_iff, not_lt]
  refine ⟨shares, hcollect, (), hlength, lambdas, hlambdas, card, hcard, _, hc2, ?_⟩
  simp only [firstShares] at hcombined
  rw [hcombined, hpoint]
  exact pointToCardID_cardPoint horder hsize hid

end Shares

/-! ## New decks and shuffled decks -/

section Decks

variable {S : Suite} {g : S.Scalar[X]} {e : DealerEpoch} {h : Hand} {dh : DealerHand}

theorem decode_encode_deck (deck : List S.ElGamalCiphertext) :
    (deck.map (encodeCiphertext S)).mapM (decodeDeckCiphertext S) = .ok deck := by
  rw [mapM_eq_ok_iff, List.forall₂_map_left_iff, List.forall₂_same]
  intro ct _
  simp [decodeDeckCiphertext, encodeCiphertext, mapError_ok_iff]

variable {k : S.Scalar} {pkHand : S.Point} {deck : List DealerCiphertext}

theorem initialCard_encrypts {i : Nat} {card : DealerCiphertext}
    (hok : initialCard S k pkHand i = .ok card) :
    ∃ ct, card = encodeCiphertext S ct ∧ Encrypts S.Scalar S.base pkHand (cardPoint S i) ct := by
  simp only [initialCard, Suite.elGamalEncrypt, ok_iff] at hok
  obtain ⟨r, -, _, ⟨-, -, rfl⟩, rfl⟩ := hok
  exact ⟨_, rfl, r, rfl, rfl⟩

theorem initialDeck_encrypts {ids : List Nat} (hok : ids.mapM (initialCard S k pkHand) = .ok deck) :
    ∃ cts, deck = cts.map (encodeCiphertext S) ∧
      List.Forall₂ (Encrypts S.Scalar S.base pkHand) (ids.map (cardPoint S)) cts := by
  have hall := mapM_eq_ok_iff.mp hok
  induction hall with
  | nil => exact ⟨[], rfl, .nil⟩
  | cons hhead hrest ih =>
    obtain ⟨ct, rfl, henc⟩ := initialCard_encrypts hhead
    obtain ⟨cts, rfl, htail⟩ := ih (mapM_eq_ok_iff.mpr hrest)
    exact ⟨ct :: cts, rfl, .cons henc htail⟩

theorem InitialHand.key_and_deck {tableID handID : Nat} {f : S.Scalar[X]}
    (hinitial : InitialHand S e tableID handID dh) (hshared : SharedKey S f e) :
    ∃ g, HandKey S g e tableID handID dh ∧ DeckHolds S g e h dh := by
  obtain ⟨k, pkEpoch, hk, hpk, hpkHand, hdeck⟩ := hinitial.key
  cases hpk.symm.trans hshared.key
  have hscale : ∀ x, (k • f).eval x • S.base = k • f.eval x • S.base := by
    intro x
    rw [eval_smul, smul_assoc]
  refine ⟨k • f, ⟨?_, ?_, ?_⟩, ?_⟩
  · exact (degree_smul_le k f).trans_lt hshared.degree
  · rw [hpkHand, hscale]
    exact S.pointFromBytesCanonical_pointBytes _
  · intro m hm
    simp only [handShareKey, decodePoint, hinitial.epochId, hk, hshared.shares m hm, hscale]
    rfl
  · obtain ⟨cts, hcts, henc⟩ := initialDeck_encrypts hdeck
    rw [← hscale] at henc
    refine ⟨⟨cts, ?_, _, List.Perm.refl _, henc⟩, ?_, ?_, ?_, ?_, ?_⟩
    · rw [hcts]
      exact decode_encode_deck cts
    · simp [hinitial.pubShares]
    · simp [hinitial.pubShares]
    · simp [hinitial.pubShares]
    · simp [hinitial.reveals]
    · exact fun _ => ⟨hinitial.pubShares, hinitial.reveals⟩

structure ShuffleProofTrue (S : Suite) (dh : DealerHand) (req : MsgSubmitShuffle) :
    Prop where
  claim : ∀ context pk deck,
    Suite.buildShuffleContext req.tableId req.handId req.round req.shuffler =
      .ok context →
    S.pointFromBytesCanonical dh.pkHand = .ok pk →
    dh.deck.mapM (decodeDeckCiphertext S) = .ok deck →
    Suite.ShuffleTrue pk deck req.proofShuffle (some context)

theorem DeckHolds.shuffle (hholds : DeckHolds S g e h dh)
    (hpk : S.pointFromBytesCanonical dh.pkHand = .ok (g.eval 0 • S.base))
    (hphase : h.phase = .shuffle) {req : MsgSubmitShuffle} {context : Bytes}
    (htrue : ShuffleProofTrue S dh req)
    (hcontext : Suite.buildShuffleContext req.tableId req.handId req.round
      req.shuffler = .ok context)
    (hverify : verifyShuffle S dh.pkHand dh.deck req.proofShuffle context = .ok deck)
    (step : Nat) (deadline : Int) :
    DeckHolds S g e h { dh with
      deck := deck
      shuffleStep := step
      shuffleDeadline := deadline } := by
  obtain ⟨cards, hdecode, henc⟩ := hholds.cards
  obtain ⟨hshares, hreveals⟩ := hholds.undealt hphase
  simp only [verifyShuffle, hpk, hdecode, ok_iff] at hverify
  obtain ⟨_, hsame, _, hsame', out, hshuffle, rfl⟩ := hverify
  cases hsame
  cases hsame'
  have hkept := Suite.shuffleVerifyV1_encrypts hshuffle
    (htrue.claim context _ cards hcontext hpk hdecode) henc
  refine ⟨⟨out, decode_encode_deck out, hkept⟩, ?_, ?_, ?_, ?_, hholds.undealt⟩
  · simp [hshares]
  · simp [hshares]
  · simp [hshares]
  · simp [hreveals]

end Decks

/-! ## Every run keeps the cards -/

variable {env : Env}

structure PubShareProofTrue (S : Suite) (tableID handID : Nat) (dh : DealerHand)
    (e : DealerEpoch) (req : MsgSubmitPubShare) : Prop where
  claim : ∀ mem card yHand c1 share, findEpochMember e req.validator = some mem →
    dh.deck[req.pos]? = some card →
    handShareKey S dh tableID handID mem = .ok yHand →
    S.pointFromBytesCanonical card.c1 = .ok c1 →
    S.pointFromBytesCanonical req.pubShare = .ok share →
    ∃ x : S.Scalar, x • S.base = yHand ∧ x • c1 = share

def ProofTrue (c : Chain env) : Msg env → Prop
  | .hand _ (.submitShuffle req) => ∀ t h dh, AtHand c req.tableId t h dh →
      ShuffleProofTrue env.suite dh req
  | .hand _ (.submitPubShare req) => ∀ t h dh e, AtHand c req.tableId t h dh →
      InEpoch c dh e → PubShareProofTrue env.suite t.id h.handId dh e req
  | _ => True

structure DeckSound (c : Chain env) (tid : Nat) (h : Hand) (dh : DealerHand)
    (e : DealerEpoch) (g : env.suite.Scalar[X]) : Prop where
  committee : CommitteeValid e.members
  threshold : 2 ≤ e.threshold
  key : HandKey env.suite g e tid h.handId dh
  holds : DeckHolds env.suite g e h dh
  epoch : ∀ e', InEpoch c dh e' → SlashGrows e e'

section Steps

variable {c c₀ : Chain env} {msg : Msg env} {tid : Nat} {t t' : Table} {h h' : Hand}
  {dh dh' : DealerHand} {e : DealerEpoch} {g : env.suite.Scalar[X]}

theorem DeckHolds.of_same {S : Suite} {g : S.Scalar[X]} (hholds : DeckHolds S g e h dh)
    (hdeck : dh'.deck = dh.deck) (hsize : dh'.deckSize = dh.deckSize)
    (hshares : dh'.pubShares = dh.pubShares) (hreveals : dh'.reveals = dh.reveals)
    (hphase : h'.phase = .shuffle → h.phase = .shuffle) :
    DeckHolds S g e h' dh' := by
  obtain ⟨hcards, hs, hm, hd, hr, hu⟩ := hholds
  constructor
  all_goals simp only [HoldsCard, hdeck, hsize, hshares, hreveals]
  · exact hcards
  · exact hs
  · exact hm
  · exact hd
  · exact hr
  · exact fun h' => hu (hphase h')

theorem revealPos_unset (hvalid : ChainValid c) (hat : AtHand c tid t h dh)
    (hphase : h.phase = .shuffle) : h.dealer.revealPos = Poker.unsetPos := by
  have hreveal := (hat.standing hvalid).reveal
  rw [Poker.RevealValid, if_pos hphase] at hreveal
  exact hreveal.1

theorem InEpoch.of_penalised (hin : InEpoch c dh e) (hpenalty : Penalised c₀ c) :
    ∃ e₀, InEpoch c₀ dh e₀ ∧ SlashGrows e₀ e := by
  cases hpenalty with
  | none => exact ⟨e, hin, .refl e⟩
  | some he₀ hgrows =>
    cases hin.current
    refine ⟨_, ⟨he₀, ?_⟩, hgrows⟩
    rw [← hin.epochId, hgrows.same]

theorem opening_of_follows (hfollows : Poker.Follows h h')
    (hphase : h'.phase = .shuffle) : h.phase = .shuffle := by
  obtain ⟨_, rfl⟩ := hfollows.opening hphase
  exact hphase

structure SameKey (dh dh' : DealerHand) : Prop where
  epochId : dh'.epochId = dh.epochId
  pkHand : dh'.pkHand = dh.pkHand
  initHeight : dh'.initHeight = dh.initHeight
  initHashSalt : dh'.initHashSalt = dh.initHashSalt

theorem DeckSound.update (hsound : DeckSound c tid h dh e g) (hsame : SameKey dh dh')
    (hid : h'.handId = h.handId) (hholds : DeckHolds env.suite g e h' dh') :
    DeckSound c tid h' dh' e g := by
  refine ⟨hsound.committee, hsound.threshold, ⟨hsound.key.degree, ?_, ?_⟩, hholds, ?_⟩
  · rw [hsame.pkHand]
    exact hsound.key.pkHand
  · intro m hm
    have hmember := hsound.key.member m hm
    simp only [handShareKey, hid, hsame.epochId, hsame.initHeight, hsame.initHashSalt] at hmember ⊢
    exact hmember
  · intro e' hin
    exact hsound.epoch e' ⟨hin.current, hin.epochId.trans hsame.epochId⟩

theorem shares_distinct_symm : ∀ {a b : DealerPubShare},
    (a.pos = b.pos → a.validator ≠ b.validator) → b.pos = a.pos → b.validator ≠ a.validator :=
  fun hdistinct hpos => (hdistinct hpos.symm).symm

theorem DeckSound.pubShare (hsound : DeckSound c tid h dh e g) {req : MsgSubmitPubShare}
    {epoch : DealerEpoch} {mem : DealerMember} {card : DealerCiphertext}
    {yHand c1 share : env.suite.Point} (hphase : h.phase ≠ .shuffle)
    (htrue : PubShareProofTrue env.suite tid h.handId dh epoch req)
    (hcard : dh.deck[req.pos]? = some card) (hin : InEpoch c dh epoch)
    (hfind : findEpochMember epoch mem.validator = some mem) (hname : req.validator = mem.validator)
    (hfresh : ∀ ps ∈ dh.pubShares, ps.pos = req.pos → ps.validator ≠ mem.validator)
    (hyHand : handShareKey env.suite dh tid h.handId mem = .ok yHand)
    (hc1 : env.suite.pointFromBytesCanonical card.c1 = .ok c1)
    (hshare : env.suite.pointFromBytesCanonical req.pubShare = .ok share) :
    DeckSound c tid h { dh with
      pubShares := sortPubShares (dh.pubShares ++
        [⟨req.pos, mem.validator, mem.index, req.pubShare, req.proofShare⟩]) } e g := by
  have hgrows := hsound.epoch epoch hin
  have hmem : mem ∈ e.members := by
    obtain ⟨hmember, -⟩ := findMember_some hfind
    rw [hgrows.same] at hmember
    exact hmember
  cases hyHand.symm.trans (hsound.key.member mem hmem)
  obtain ⟨x, hlog, hx⟩ := htrue.claim mem card _ c1 share (hname ▸ hfind) hcard hyHand hc1 hshare
  have hscalar := Suite.smul_base_injective hlog
  subst hscalar
  subst hx
  have hholds := hsound.holds
  refine hsound.update ⟨rfl, rfl, rfl, rfl⟩ rfl ?_
  refine ⟨hholds.cards, ?_, ?_, ?_, hholds.reveals, fun h' => absurd h' hphase⟩
  · intro ps hps
    rcases List.mem_append.mp (mem_sortSlice.mp hps) with hold | hnew
    · exact hholds.shares ps hold
    · rw [List.mem_singleton] at hnew
      subst hnew
      exact ⟨card, c1, hcard, hc1, hshare⟩
  · intro ps hps
    rcases List.mem_append.mp (mem_sortSlice.mp hps) with hold | hnew
    · exact hholds.members ps hold
    · rw [List.mem_singleton] at hnew
      subst hnew
      exact ⟨mem, hmem, rfl, rfl⟩
  · refine ((sortSlice_perm _ _).pairwise_iff shares_distinct_symm).mpr ?_
    rw [List.pairwise_append]
    refine ⟨hholds.distinct, List.pairwise_singleton _ _, ?_⟩
    intro a ha b hb hpos
    rw [List.mem_singleton] at hb
    subst hb
    exact hfresh a ha hpos

theorem DeckSound.reveal (hsound : DeckSound c tid h dh e g)
    (hsize : 0 < dh.deckSize ∧ dh.deckSize ≤ 52) (hphase : h.phase ≠ .shuffle)
    {epoch : DealerEpoch} {pos cardID : Nat} (hin : InEpoch c dh epoch)
    (hcard : revealCard env.suite dh epoch.threshold pos = .ok cardID) :
    DeckSound c tid h { dh with
      reveals := sortSlice (fun a b => decide (a.pos < b.pos))
        (dh.reveals ++ [⟨pos, cardID⟩]) } e g := by
  have hholds := hsound.holds
  have hthreshold : epoch.threshold = e.threshold := by rw [(hsound.epoch epoch hin).same]
  rw [hthreshold] at hcard
  refine hsound.update ⟨rfl, rfl, rfl, rfl⟩ rfl ?_
  refine ⟨hholds.cards, hholds.shares, hholds.members, hholds.distinct, ?_,
    fun h' => absurd h' hphase⟩
  intro r hr
  rcases List.mem_append.mp (mem_sortSlice.mp hr) with hold | hnew
  · exact hholds.reveals r hold
  · rw [List.mem_singleton] at hnew
    subst hnew
    have hread := revealCard_holds hsound.key.degree hholds hsize hcard
    exact hread

theorem deckSound_invariant : PairInvariant ProofTrue
    (fun (c : Chain env) tid _ h dh => ∃ e g, DeckSound c tid h dh e g) where
  opened := by
    intro c tid t t' h h' dh epoch hvalid hopened
    have hepoch := hvalid.sound.epoch epoch hopened.current
    obtain ⟨f, hshared⟩ := hepoch.key
    obtain ⟨hid, -⟩ := Poker.getTable_id hvalid.linked.solvent.1 hopened.table
    obtain ⟨g, hkey, hholds⟩ := hopened.initial.key_and_deck (h := h') hshared
    rw [hid] at hkey
    refine ⟨epoch, g, hepoch.committee, hepoch.threshold, ?_, hholds, ?_⟩
    · rw [hopened.hand']
      exact hkey
    · intro e' hin
      cases hopened.current.symm.trans hin.current
      exact .refl epoch
  step := by
    rintro c₀ c msg tid t t' h h' dh dh' hvalid htrue hpenalty hat ⟨e, g, hsound⟩ hstep
    have hsize := hvalid.linked.deck tid h.handId dh hat.dealerHand
    obtain ⟨hid, -⟩ := Poker.getTable_id hvalid.linked.solvent.1 hat.table
    have hat₀ := hat.of_penalised hpenalty
    refine ⟨e, g, ?_⟩
    cases hstep with
    | idle => exact hsound
    | play hon =>
      exact hsound.update ⟨rfl, rfl, rfl, rfl⟩ hon.follows.deck.handId
        (hsound.holds.of_same rfl rfl rfl rfl (opening_of_follows hon.follows))
    | shuffle hmsg htid _ hphase _ _ _ hcontext hverify _ =>
      subst hmsg
      subst htid
      exact hsound.update ⟨rfl, rfl, rfl, rfl⟩ rfl
        (hsound.holds.shuffle hsound.key.pkHand hphase (htrue t h dh hat₀) hcontext hverify _ _)
    | finalizeDeck _ _ _ _ _ | encShare _ | extend _ _ _ =>
      exact hsound.update ⟨rfl, rfl, rfl, rfl⟩ rfl (hsound.holds.of_same rfl rfl rfl rfl id)
    | advance _ _ hplay hleft _ _ _ =>
      exact hsound.update ⟨rfl, rfl, rfl, rfl⟩ hplay.follows.deck.handId
        (hsound.holds.of_same rfl rfl rfl rfl (fun hphase => absurd hphase hleft))
    | @pubShare _ _ epoch _ _ _ _ _ _ hmsg htid _ hpos _ hcard hin hfind hname hfresh hkey hc1
        hshare _ =>
      subst hmsg
      subst htid
      obtain ⟨e₀, hin₀, hgrows⟩ := hin.of_penalised hpenalty
      have hclaim := htrue t h dh e₀ hat₀ hin₀
      rw [hid] at hkey hclaim
      have hmembers : e₀.members = epoch.members := by rw [hgrows.same]
      have hphase : h.phase ≠ .shuffle := fun hphase =>
        hpos (revealPos_unset hvalid hat hphase)
      refine hsound.pubShare hphase ⟨?_⟩ hcard hin hfind hname hfresh hkey hc1 hshare
      simp only [findEpochMember, ← hmembers]
      exact hclaim.claim
    | reveal block hpos hin hcard hreveal hdeadlines _ =>
      have hplay := Poker.HandStep.reveal _ _ block hreveal hdeadlines
      have hphase : h.phase ≠ .shuffle := fun hphase =>
        hpos (revealPos_unset hvalid hat hphase)
      have hnext := hsound.reveal ⟨by omega, hsize.2.2⟩ hphase hin hcard
      exact hnext.update ⟨rfl, rfl, rfl, rfl⟩ hplay.follows.deck.handId
        (hnext.holds.of_same rfl rfl rfl rfl (opening_of_follows hplay.follows))
  later := by
    rintro c c' tid t h dh hvalid hdealt hlater ⟨e, g, hsound⟩
    refine ⟨e, g, hsound.committee, hsound.threshold, hsound.key, hsound.holds, ?_⟩
    intro e' hin'
    obtain ⟨e₁, hin, hgrows⟩ := hin'.before hdealt hlater
    exact (hsound.epoch e₁ hin).trans hgrows

end Steps

theorem DeckHolds.subperm {S : Suite} {g : S.Scalar[X]} {e : DealerEpoch} {h : Hand}
    {dh : DealerHand} (hholds : DeckHolds S g e h dh) {shares : List DealerPubShare}
    (hsub : shares.Subperm dh.pubShares) :
    DeckHolds S g e h { dh with pubShares := shares } := by
  obtain ⟨part, hperm, hpart⟩ := hsub
  have hmem : ∀ ps ∈ shares, ps ∈ dh.pubShares := fun ps hps =>
    hpart.subset (hperm.mem_iff.mpr hps)
  refine ⟨hholds.cards, fun ps hps => hholds.shares ps (hmem ps hps), fun ps hps => hholds.members
    ps (hmem ps hps), ?_, hholds.reveals, fun hphase => ?_⟩
  · exact (hperm.pairwise_iff shares_distinct_symm).mp (hholds.distinct.sublist hpart)
  · obtain ⟨hnone, hreveals⟩ := hholds.undealt hphase
    refine ⟨List.eq_nil_iff_forall_not_mem.mpr fun ps hps => ?_, hreveals⟩
    have hstored := hmem ps hps
    rw [hnone] at hstored
    cases hstored

/-- In every run in which the accepted proofs claim the truth, each position of a
deck has one card of the deck, no two have the same, and that card is what was
revealed there and what any sufficient part of the stored shares reveals. -/
theorem deck_integrity (env : Env) (horder : 52 < env.suite.order)
    (balances : env.poker.bank.Balances) (staking : env.staking.Staking)
    (params : Params) (messages : List (Msg env))
    (htrue : AcceptedMeet handle ProofTrue
      (Chain.genesis env balances staking params) messages)
    {c : Chain env} {tid : Nat} {t : Table} {h : Hand} {dh : DealerHand}
    {e : DealerEpoch}
    (hc : run handle (Chain.genesis env balances staking params) messages = c)
    (hat : AtHand c tid t h dh) (hin : InEpoch c dh e)
    (hindices : ∀ m ∈ e.members, m.index < env.suite.order) :
    ∃ card : Nat → Nat,
      (∀ pos < dh.deckSize, card pos < dh.deckSize) ∧
      (∀ pos < dh.deckSize, ∀ other < dh.deckSize, card pos = card other →
        pos = other) ∧
      (∀ r ∈ dh.reveals, r.cardId = card r.pos) ∧
      ∀ shares : List DealerPubShare, shares.Subperm dh.pubShares →
        ∀ pos < dh.deckSize,
          e.threshold ≤ (shares.filter (·.pos = pos)).length →
          revealCard env.suite { dh with pubShares := shares } e.threshold pos =
            .ok (card pos) := by
  subst hc
  have hreach := reachable_run balances staking params messages
  have hvalid := reachable_valid hreach
  obtain ⟨e₀, g, hsound⟩ := deckSound_invariant.run htrue hat
  obtain ⟨hlength, -, hmax⟩ := hvalid.linked.deck tid h.handId dh hat.dealerHand
  have hholds := hsound.holds
  have hsame := (hsound.epoch e hin).same
  have hmembers : e.members = e₀.members := by rw [hsame]
  have hthreshold : e.threshold = e₀.threshold := by rw [hsame]
  rw [hmembers] at hindices
  choose! card hcard using fun pos (hpos : pos < dh.deckSize) => hholds.card hpos
  refine ⟨card, fun pos hpos => (hcard pos hpos).1, ?_, ?_, ?_⟩
  · intro pos hpos other hother hequal
    exact hholds.injective horder hmax (hcard pos hpos) (hequal ▸ hcard other hother)
  · intro r hr
    have hread := hholds.reveals r hr
    have hpos : r.pos < dh.deckSize := by
      obtain ⟨-, stored, -, hstored, -⟩ := hread
      have hlt := (List.getElem?_eq_some_iff.mp hstored).1
      omega
    exact hread.unique horder hmax (hcard r.pos hpos)
  · intro shares hsub pos hpos hmany
    rw [hthreshold] at hmany ⊢
    have hpart := hholds.subperm hsub
    have hdegree := hsound.key.degree
    have hpositive := hsound.threshold
    obtain ⟨id, hok⟩ := revealCard_succeeds horder hsound.committee hindices
      (by omega) hdegree hpart hmax hpos hmany
    have hsize : 0 < dh.deckSize ∧ dh.deckSize ≤ 52 := by omega
    have hread := revealCard_holds hdegree hpart hsize hok
    rw [hok, HoldsCard.unique horder hmax hread (hcard pos hpos)]

def ShuffleHonest (c : Chain env) (req : MsgSubmitShuffle) : Prop :=
  ∃ t ∈ c.poker.getTable req.tableId, ∃ h ∈ t.hand,
    ∃ dh ∈ c.dealer.getHand req.tableId h.handId,
    ∃ context ∈ (Suite.buildShuffleContext req.tableId req.handId req.round
      req.shuffler).toOption,
    ∃ pk ∈ (env.suite.pointFromBytesCanonical dh.pkHand).toOption,
    ∃ deck ∈ (dh.deck.mapM (decodeDeckCiphertext env.suite)).toOption,
      Suite.ShuffleTrue pk deck req.proofShuffle (some context)

theorem proofTrue_submitShuffle {c : Chain env} {block : Block} {req : MsgSubmitShuffle}
    (hhonest : ShuffleHonest c req) : ProofTrue c (.hand block (.submitShuffle req)) := by
  obtain ⟨t, ht, h, hh, dh, hdh, context, hcontext, pk, hpk, deck, hdeck, htrue⟩ := hhonest
  intro t' h' dh' hat
  refine ⟨fun context' pk' deck' hcontext' hpk' hdeck' => ?_⟩
  cases hat.table.symm.trans ht
  cases hat.hand.symm.trans hh
  cases hat.dealerHand.symm.trans hdh
  rw [hcontext'] at hcontext
  rw [hpk'] at hpk
  rw [hdeck'] at hdeck
  cases hcontext
  cases hpk
  cases hdeck
  exact htrue

def PubShareHonest (c : Chain env) (x : env.suite.Scalar) (req : MsgSubmitPubShare) : Prop :=
  ∃ t ∈ c.poker.getTable req.tableId, ∃ h ∈ t.hand,
    ∃ dh ∈ c.dealer.getHand req.tableId h.handId, ∃ e ∈ c.dealer.epoch,
    ∃ mem ∈ findEpochMember e req.validator, ∃ card ∈ dh.deck[req.pos]?,
    (handShareKey env.suite dh t.id h.handId mem).toOption = some (env.suite.mulBase x) ∧
    ∃ c1 ∈ (env.suite.pointFromBytesCanonical card.c1).toOption,
      (env.suite.pointFromBytesCanonical req.pubShare).toOption = some (x • c1)

theorem proofTrue_submitPubShare {c : Chain env} {block : Block} {req : MsgSubmitPubShare}
    {x : env.suite.Scalar} (hhonest : PubShareHonest c x req) :
    ProofTrue c (.hand block (.submitPubShare req)) := by
  obtain ⟨t, ht, h, hh, dh, hdh, e, he, mem, hmem, card, hcard, hkey, c1, hc1, hshare⟩ := hhonest
  intro t' h' dh' e' hat hin
  refine ⟨fun mem' card' yHand c1' share hmem' hcard' hkey' hc1' hshare' => ⟨x, ?_⟩⟩
  cases hat.table.symm.trans ht
  cases hat.hand.symm.trans hh
  cases hat.dealerHand.symm.trans hdh
  cases hin.current.symm.trans he
  cases hmem'.symm.trans hmem
  cases hcard'.symm.trans hcard
  rw [hkey'] at hkey
  rw [hc1'] at hc1
  rw [hshare'] at hshare
  cases hkey
  cases hc1
  cases hshare
  exact ⟨rfl, rfl⟩

def finalDeckRun (deckSize : Nat) : List (Msg residueEnv) :=
  committeeRun ++ dealRun 1 deckSize ++ shufflesRun deckSize

def flopRun (deckSize : Nat) : List (Msg residueEnv) :=
  finalDeckRun deckSize ++ (holeSharesRun ++ preflopRun)

def ShufflesHonest (deckSize : Nat) : Prop :=
  ShuffleHonest (run handle residueGenesis (committeeRun ++ dealRun 1 deckSize))
      ⟨"A", 1, 1, 1, reencryptProof 1 1 "A" deckSize⟩ ∧
    ShuffleHonest (deliver handle (run handle residueGenesis (committeeRun ++ dealRun 1 deckSize))
      (shuffleMsgAt 10 1 1 "A" deckSize)) ⟨"B", 1, 1, 2, reencryptProof 1 2 "B" deckSize⟩

instance (deckSize : Nat) : Decidable (ShufflesHonest deckSize) := by
  unfold ShufflesHonest ShuffleHonest
  infer_instance

theorem dealRun_proofTrue (tableId deckSize : Nat) :
    AcceptedMeet handle ProofTrue residueGenesis (committeeRun ++ dealRun tableId deckSize) := by
  refine stepsMeet_of_mem fun m hm c _ => ?_
  simp only [committeeRun, dealRun, List.cons_append, List.nil_append,
    List.mem_cons, List.not_mem_nil, or_false] at hm
  rcases hm with rfl | rfl | rfl | rfl | rfl | rfl | rfl | rfl | rfl | rfl <;> trivial

theorem finalDeckRun_proofTrue {deckSize : Nat} (hhonest : ShufflesHonest deckSize) :
    AcceptedMeet handle ProofTrue residueGenesis (finalDeckRun deckSize) := by
  obtain ⟨hfirst, hsecond⟩ := hhonest
  exact StepsMeet.append (dealRun_proofTrue 1 deckSize)
    ⟨fun _ => proofTrue_submitShuffle hfirst, fun _ => proofTrue_submitShuffle hsecond,
      fun _ => trivial, trivial⟩

theorem flopRun_proofTrue {deckSize : Nat} (hhonest : ShufflesHonest deckSize) :
    AcceptedMeet handle ProofTrue residueGenesis (flopRun deckSize) := by
  refine StepsMeet.append (finalDeckRun_proofTrue hhonest) (stepsMeet_of_mem ?_)
  intro m hm c _
  simp only [holeSharesRun, preflopRun, List.flatMap_cons, List.flatMap_nil, List.map_cons,
    List.map_nil, List.cons_append, List.nil_append, List.mem_cons, List.not_mem_nil,
    or_false] at hm
  rcases hm with rfl | rfl | rfl | rfl | rfl | rfl | rfl | rfl | rfl | rfl <;> trivial

def pubShareOf (validator : String) (share secret : ZMod 53) : MsgSubmitPubShare :=
  ⟨validator, 1, 1, 4, residueBytes share, residueRelation secret⟩

/-- `A` and `B` show the first card of the flop. -/
def flopCardRun : List (Msg residueEnv) :=
  flopRun 10 ++ [handMsgAt 230 (.submitPubShare (pubShareOf "A" 13 22)),
    handMsgAt 230 (.submitPubShare (pubShareOf "B" 34 29)),
    handMsgAt 240 (.finalizeReveal ⟨"gm", 1, 1, 4⟩)]

instance (c : Chain residueEnv) (x : ZMod 53) (req : MsgSubmitPubShare) :
    Decidable (PubShareHonest c x req) := by
  unfold PubShareHonest
  infer_instance

theorem flopCardRun_proofTrue : AcceptedMeet handle ProofTrue residueGenesis flopCardRun := by
  have hhonest : ShufflesHonest 10 ∧
      PubShareHonest (run handle residueGenesis (flopRun 10)) (22 : ZMod 53)
        (pubShareOf "A" 13 22) ∧
      PubShareHonest (deliver handle (run handle residueGenesis (flopRun 10))
        (handMsgAt 230 (.submitPubShare (pubShareOf "A" 13 22)))) (29 : ZMod 53)
        (pubShareOf "B" 34 29) := by
    decide +kernel
  obtain ⟨hshuffles, hfirst, hsecond⟩ := hhonest
  exact StepsMeet.append (flopRun_proofTrue hshuffles) ⟨fun _ => proofTrue_submitPubShare hfirst,
    fun _ => proofTrue_submitPubShare hsecond, fun _ => trivial, trivial⟩

/-- The two stored shares reveal the card that is on record. -/
theorem flopCardRun_cards :
    ∃ dh e, ∃ card : Nat → Nat,
      (run handle residueGenesis flopCardRun).dealer.getHand 1 1 = some dh ∧
      (run handle residueGenesis flopCardRun).dealer.epoch = some e ∧
      dh.pubShares.length = 2 ∧ dh.deckSize = 10 ∧
      (∀ pos < 10, card pos < 10) ∧
      (∀ pos < 10, ∀ other < 10, card pos = card other → pos = other) ∧
      dh.reveals.map (·.cardId) = [card 4] ∧
      revealCard residueSuite dh e.threshold 4 = .ok (card 4) := by
  have hfacts : ∃ t ∈ (run handle residueGenesis flopCardRun).poker.getTable 1,
      ∃ h ∈ t.hand, h.handId = 1 ∧
      ∃ dh ∈ (run handle residueGenesis flopCardRun).dealer.getHand 1 1,
        dh.pubShares.length = 2 ∧ dh.deckSize = 10 ∧ dh.reveals.map (·.pos) = [4] ∧
      ∃ e ∈ (run handle residueGenesis flopCardRun).dealer.epoch, e.epochId = dh.epochId ∧
        e.threshold ≤ (dh.pubShares.filter (·.pos = 4)).length ∧
        ∀ m ∈ e.members, m.index < residueEnv.suite.order := by
    decide +kernel
  obtain ⟨t, ht, h, hh, hid, dh, hdh, hstored, hsize, hshown, e, he, hepoch, hmany, hindices⟩ :=
    hfacts
  have hat : AtHand (run handle residueGenesis flopCardRun) 1 t h dh :=
    ⟨ht, hh, by rw [hid]; exact hdh⟩
  have hin : InEpoch (run handle residueGenesis flopCardRun) dh e := ⟨he, hepoch⟩
  have htrue := flopCardRun_proofTrue
  unfold residueGenesis at htrue hat hin
  obtain ⟨card, hbound, hinj, hreveals, hshares⟩ := deck_integrity residueEnv (by decide)
    (0 : Nat) () residueParams _ htrue rfl hat hin hindices
  have hread := hshares _ (.refl _) 4 (by rw [hsize]; decide) hmany
  rw [hsize] at hbound hinj
  refine ⟨dh, e, card, hdh, he, hstored, hsize, hbound, hinj, ?_, hread⟩
  obtain ⟨r, hr, hpos⟩ := List.map_eq_singleton_iff.mp hshown
  rw [hr, List.map_singleton, hreveals r (by simp [hr]), hpos]

end OnChainPoker.Dealer
