import OnChainPoker.Poker.HandEffects
import OnChainPoker.Poker.Reveals

/-!
# What players do to a hand

The messages of players never touch the deck, the board or the awaited phase of
a hand, and nobody who is still in the hand loses the seat, the key or the hidden
cards by them.
-/

namespace OnChainPoker.Poker

open Foundation

variable {env : Env} {seats : Seats} {h h' : Hand} {block : Block} {s s' : State env} {t t' : Table}
  {tid : Nat}

structure PlaysOn (seats : Seats) (h : Hand) (seats' : Seats) (h' : Hand) :
    Prop where
  follows : Follows h h'
  board : h'.board = h.board
  phase : h.phase ≠ .betting → h'.phase = h.phase
  folded : h.phase ≠ .betting → h'.folded = h.folded
  live : ∀ i, inHandNotFolded h' i = true → inHandNotFolded h i = true
  seat : ∀ i, inHandNotFolded h' i = true → (seats' i).player = (seats i).player ∧
    (seats' i).pk = (seats i).pk ∧ (seats' i).hole = (seats i).hole

variable {seats' : Seats} {action : Action} {amount : Nat} {m : Msg env}

theorem PlaysOn.of_seats (hseat : ∀ i, inHandNotFolded h i = true →
      (seats' i).player = (seats i).player ∧ (seats' i).pk = (seats i).pk ∧
        (seats' i).hole = (seats i).hole) : PlaysOn seats h seats' h :=
  ⟨.refl h, rfl, fun _ => rfl, fun _ => rfl, fun _ hlive => hlive, hseat⟩

theorem PlaysOn.refl (seats : Seats) (h : Hand) : PlaysOn seats h seats h :=
  .of_seats fun _ _ => ⟨rfl, rfl, rfl⟩

theorem PlaysOn.replace {i : SeatIdx} {seat : Seat} (hout : inHandNotFolded h i = false) :
    PlaysOn seats h (Function.update seats i seat) h := by
  refine .of_seats fun j hlive => ?_
  have hj : j ≠ i := by
    rintro rfl
    rw [hout] at hlive
    cases hlive
  simp [hj]

theorem PlaysOn.trans {first second third : Seats} {h h' h'' : Hand}
    (hfirst : PlaysOn first h second h') (hsecond : PlaysOn second h' third h'') :
    PlaysOn first h third h'' := by
  have hphase : h.phase ≠ .betting → h'.phase ≠ .betting := by
    intro hne
    rw [hfirst.phase hne]
    exact hne
  constructor
  · exact hfirst.follows.trans hsecond.follows
  · exact hsecond.board.trans hfirst.board
  · exact fun hne => (hsecond.phase (hphase hne)).trans (hfirst.phase hne)
  · exact fun hne => (hsecond.folded (hphase hne)).trans (hfirst.folded hne)
  · exact fun i hlive => hfirst.live i (hsecond.live i hlive)
  · intro i hlive
    obtain ⟨hplayer, hpk, hhole⟩ := hsecond.seat i hlive
    obtain ⟨hplayer', hpk', hhole'⟩ := hfirst.seat i (hsecond.live i hlive)
    exact ⟨hplayer.trans hplayer', hpk.trans hpk', hhole.trans hhole'⟩

theorem applyAction_playsOn {params : TableParams}
    (hok : applyAction params seats h action amount block.unix = .ok (seats', some h')) :
    PlaysOn seats h seats' h' := by
  have hstep : HandStep params seats h seats' (some h') := .action _ _ block hok
  have hmoves := hstep.moves
  obtain ⟨actor, middleSeats, middle, hand, hphase, _, _, _, hperform,
    hadvance, hdeadlines⟩ := applyAction_ok hok
  have hround := performAction_sameRound hperform
  have hhole := performAction_hole hperform
  have hframe : h'.board = h.board ∧ ∀ i, (seats' i).hole = (seats i).hole := by
    obtain ⟨next, rfl, hset⟩ := setDeadlinesIfActive_some hdeadlines
    obtain ⟨_, _, _, rfl⟩ := setDeadlines_ok hset
    rcases maybeAdvance_some hadvance with
      ⟨_, _, rfl, rfl⟩ | ⟨_, _, settled, hexcess, rfl⟩
    · refine ⟨?_, hhole⟩
      rw [hround]
      rfl
    · obtain ⟨_, hkept⟩ := returnUncalledStreetExcess_frame hexcess
      refine ⟨?_, fun i => (hkept i).trans (hhole i)⟩
      rw [returnUncalledStreetExcess_sameRound hexcess, hround]
      rfl
  refine ⟨hstep.follows, hframe.1, fun hne => absurd hphase hne,
    fun hne => absurd hphase hne, hmoves.live, fun i _ => ?_⟩
  exact ⟨hmoves.keeps.owners.player i, hmoves.keeps.owners.pk i, hframe.2 i⟩

theorem PlaysOn.normalize (hseated : ∀ i, inHandNotFolded h i = true → (seats i).player ≠ "") :
    PlaysOn seats h (fun i => normalizeSeat (seats i)) h := by
  refine .of_seats fun i hlive => ⟨normalizeSeat_player _, ?_, normalizeSeat_hole _⟩
  simp [normalizeSeat, hseated i hlive]

/-! ## Messages -/

inductive Played (t t' : Table) : Prop
  | on {h h' : Hand} : t.hand = some h → t'.hand = some h' →
      PlaysOn t.seats h t'.seats h' → Played t t'
  | started {t₁ : Table} : t.hand = none → startHandOn t = .ok t₁ →
      t' = normalizeTable t₁ → Played t t'

theorem storeAfterAction_getTable (hok : storeAfterAction block s t = .ok s')
    (ht' : s'.getTable t.id = some t') (hh' : t'.hand = some h') :
    t.hand = some h' ∧ t' = normalizeTable t := by
  rcases storeAfterAction_ok hok with ⟨_, rfl⟩ | ⟨hnone, _, _, _, hreplaces, _⟩
  · cases (State.getTable_setTable s (normalizeTable t)).symm.trans ht'
    exact ⟨hh', normalizeTable_idem t⟩
  · cases ((hreplaces.getTable t.id).trans (if_pos rfl)).symm.trans ht'
    cases hnone.symm.trans hh'

def Msg.ofPlayer : Msg env → Bool
  | .abortHandRefundAllCommits _ _ => false
  | .applyDealerReveal _ _ _ _ _ => false
  | .advanceAfterHoleSharesReady _ _ _ => false
  | .dealerInitHand _ _ _ _ => false
  | .dealerFinalizeDeck _ _ => false
  | _ => true

theorem Played.of_seats (hh : t.hand = some h) (hon : PlaysOn t.seats h seats h)
    (hseated : ∀ i, inHandNotFolded h i = true →
      ((normalizeTable { t with seats := seats }).seats i).player ≠ "") :
    Played t (normalizeTable { t with seats := seats }) := by
  refine .on hh hh (hon.trans (.normalize fun i hlive => ?_))
  simpa [normalizeTable] using hseated i hlive

theorem Played.act {seats₀ : Seats} (hh : t.hand = some h) (hslash : PlaysOn t.seats h seats₀ h)
    (haction : applyAction t.params seats₀ h action amount block.unix = .ok (seats, some h'))
    (hseated : ∀ i, inHandNotFolded h' i = true → (normalizeSeat (seats i)).player ≠ "") :
    Played t (normalizeTable { t with seats := seats, hand := some h' }) := by
  refine .on hh rfl (hslash.trans ((applyAction_playsOn haction).trans
    (.normalize fun i hlive => ?_)))
  simpa using hseated i hlive

theorem Handled.played (hhandled : Handled s t m s') (hplayer : m.ofPlayer = true)
    (hbefore : TableStanding t) (ht' : s'.getTable t.id = some t') (hh' : t'.hand = some h')
    (hseated : ∀ i, inHandNotFolded h' i = true → (t'.seats i).player ≠ "") :
    Played t t' := by
  cases hhandled with
  | sit req i balances hvacant =>
    cases (State.getTable_setTable _ _).symm.trans ht'
    have hh : t.hand = some h' := hh'
    exact .of_seats hh (.replace ((hbefore.hand h' hh).vacant hvacant)) hseated
  | leave req i balances _ _ hout =>
    cases (State.getTable_setTable _ _).symm.trans ht'
    have hh : t.hand = some h' := hh'
    exact .of_seats hh (.replace (by simpa [hh] using hout)) hseated
  | rebuy req i balances _ hout =>
    cases (State.getTable_setTable _ _).symm.trans ht'
    have hh : t.hand = some h' := hh'
    refine .of_seats hh (.replace ?_) hseated
    have hout : h'.inHand i = false := by simpa [hh] using hout
    simp [inHandNotFolded, hout]
  | startHand block req hnone hstart =>
    rw [← startHandOn_id hstart] at ht'
    cases (State.getTable_setTable _ _).symm.trans ht'
    exact .started hnone hstart rfl
  | act block req hhand _ haction hstore =>
    obtain ⟨hsome, rfl⟩ := storeAfterAction_getTable hstore ht' hh'
    cases hsome
    exact .act hhand (.refl _ _) haction hseated
  | @deadline h h₁ block req hhand _ _ hdeadline =>
    cases (State.getTable_setTable _ _).symm.trans ht'
    cases hh'
    have hstep : HandStep t.params t.seats h t.seats (some h') := .deadline block hdeadline
    have hset : PlaysOn t.seats h t.seats h' := by
      obtain ⟨deadline, rfl⟩ := setActionDeadlineIfBetting_ok hdeadline
      exact ⟨hstep.follows, rfl, fun _ => rfl, fun _ => rfl, fun _ hlive => hlive,
        fun _ _ => ⟨rfl, rfl, rfl⟩⟩
    refine .on hhand rfl (hset.trans (.normalize fun i hlive => ?_))
    simpa [normalizeTable] using hseated i hlive
  | @tick _ actor _ _ _ _ block req hhand _ _ _ _ haction hstore =>
    obtain ⟨hsome, rfl⟩ := storeAfterAction_getTable hstore ht' hh'
    cases hsome
    refine .act hhand (.of_seats fun i _ => ?_) haction hseated
    by_cases hi : i = actor
    · subst hi
      simp [slashSeat]
    · simp [hi]
  | abort | reveal | advance | dealerInitHand | dealerFinalizeDeck => cases hplayer

section

variable (hids : IdsValid s) (hstanding : ∀ tid t, s.getTable tid = some t → TableStanding t)
  (hplayer : m.ofPlayer = true) (hok : handle s m = .ok s')
include hids hstanding hplayer hok

theorem handle_played (ht' : s'.getTable tid = some t') (hh' : t'.hand = some h') :
    s.getTable tid = some t' ∨ ∃ t, s.getTable tid = some t ∧ Played t t' := by
  cases (handle_effect hok).tableAt hids tid with
  | same _ hsame => exact .inl (hsame.symm.trans ht')
  | new _ _ _ _ hnew =>
    cases hnew.symm.trans ht'
    cases hh'
  | @changed t t₁ _ _ hm ht ht₁ htable =>
    obtain ⟨t₂, ht₂, hhandled⟩ := handle_handled hok hm
    cases ht.symm.trans ht₂
    have hbefore := hstanding tid t ht
    have hafter := InnerStep.normalize.standing (htable.standing ht hbefore)
    cases ht'.symm.trans ht₁
    refine .inr ⟨t, ht, hhandled.played hplayer hbefore ?_ hh' (hafter.hand h' hh').seated⟩
    rw [(getTable_id hids ht).1]
    exact ht'

theorem handle_kept (ht : s.getTable tid = some t) (hh : t.hand = some h)
    (hphase : h.phase ≠ .betting) :
    ∃ t' h', s'.getTable tid = some t' ∧ t'.hand = some h' ∧ PlaysOn t.seats h t'.seats h' := by
  have hactive : ∃ t' h', s'.getTable tid = some t' ∧ t'.hand = some h' := by
    cases (handle_effect hok).tableAt hids tid with
    | same _ hsame => exact ⟨t, h, hsame.trans ht, hh⟩
    | new _ _ _ hnone _ => cases hnone.symm.trans ht
    | changed hm ht₁ ht' _ =>
      obtain ⟨t₂, ht₂, hhandled⟩ := handle_handled hok hm
      cases ht.symm.trans ht₁
      cases ht.symm.trans ht₂
      have hid := (getTable_id hids ht).1
      subst hid
      cases hhandled with
      | sit | leave | rebuy => exact ⟨_, h, State.getTable_setTable _ _, hh⟩
      | startHand _ _ hnone _ => cases hnone.symm.trans hh
      | act _ _ hhand hbetting _ _ | deadline _ _ hhand hbetting _ _
      | tick _ _ hhand hbetting _ _ _ _ _ =>
        cases hh.symm.trans hhand
        exact absurd hbetting hphase
      | abort | reveal | advance | dealerInitHand | dealerFinalizeDeck => cases hplayer
  obtain ⟨t', h', ht', hh'⟩ := hactive
  refine ⟨t', h', ht', hh', ?_⟩
  rcases handle_played hids hstanding hplayer hok ht' hh' with hsame | ⟨t₁, ht₁, hplayed⟩
  · cases hsame.symm.trans ht
    cases hh.symm.trans hh'
    exact .refl _ _
  · cases ht.symm.trans ht₁
    cases hplayed with
    | on hh₁ hh₁' hon =>
      cases hh.symm.trans hh₁
      cases hh'.symm.trans hh₁'
      exact hon
    | started hnone _ _ =>
      rw [hnone] at hh
      cases hh

end

end OnChainPoker.Poker
