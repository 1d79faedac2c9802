import OnChainPoker.Poker.Settlement
import OnChainPoker.Poker.Steps

/-!
# The parts of a hand step

Inversion of the functions a hand step is made of: which fields deadlines,
street changes and reveals touch.  The invariants of a hand use these and never
unfold the functions.
-/

namespace OnChainPoker.Poker

open Foundation

variable {params : TableParams} {seats seats' : Seats} {h h' : Hand} {now : Int}
  {hand' : Option Hand}

/-! ## The first state of a hand -/

def openedHand (params : TableParams) (h : Hand) (bbSeat : SeatIdx) : Hand :=
  let h := { h with
    betTo := h.streetCommit bbSeat
    minRaiseSize := params.bigBlind }
  { h with actionOn := nextActiveToAct h (some bbSeat) }

variable {t t' : Table} {hand : Option Hand} {pos cardID boardLen : Nat} {street : Street}

theorem startHandOn_ok (hok : startHandOn t = .ok t') :
    ∃ sbSeat bbSeat seats h seats' h',
      blindSeats (clearHoles t.seats) (advanceButton t) = (some sbSeat, some bbSeat) ∧
      postBlindCommit (clearHoles t.seats)
          (freshHand t.nextHandId t.params (clearHoles t.seats)
            (advanceButton t) sbSeat bbSeat) sbSeat t.params.smallBlind =
        .ok (seats, h) ∧
      postBlindCommit seats h bbSeat t.params.bigBlind = .ok (seats', h') ∧
      t' = { t with
        seats := seats'
        nextHandId := t.nextHandId + 1
        buttonSeat := advanceButton t
        hand := some (openedHand t.params h' bbSeat) } := by
  simp only [startHandOn, ok_iff] at hok
  obtain ⟨_, _, sb, hsb, bb, hbb, nextHandID, hadd, ⟨seats, h⟩, hsmall,
    ⟨seats', h'⟩, hbig, rfl⟩ := hok
  have hadd := addUint64Checked_ok hadd
  subst hadd
  exact ⟨sb, bb, seats, h, seats', h', Prod.ext hsb hbb, hsmall, hbig, rfl⟩

theorem startHandOn_fresh (hok : startHandOn t = .ok t') :
    ∃ sb bb seats actionOn betTo allIn streetCommit totalCommit,
      SameOwners t.seats seats ∧
      (∀ i, (seats i).stack + totalCommit i = (t.seats i).stack) ∧
      (∀ i, (seats i).hole = fun _ => unknownCard) ∧
      t' = { t with
        seats := seats
        nextHandId := t.nextHandId + 1
        buttonSeat := advanceButton t
        hand := some
          { freshHand t.nextHandId t.params t.seats (advanceButton t) sb bb with
            actionOn := actionOn
            betTo := betTo
            allIn := allIn
            streetCommit := streetCommit
            totalCommit := totalCommit } } := by
  obtain ⟨sb, bb, seats, h, seats', h', -, hsmall, hbig, rfl⟩ := startHandOn_ok hok
  have hkeeps := (postBlindCommit_keeps hsmall).trans (postBlindCommit_keeps hbig)
  have hhole := commitChips_hole (postBlindCommit_ok hsmall).2
  have hhole' := commitChips_hole (postBlindCommit_ok hbig).2
  obtain ⟨_, rfl⟩ := commitChips_ok (postBlindCommit_ok hsmall).2
  obtain ⟨_, rfl⟩ := commitChips_ok (postBlindCommit_ok hbig).2
  exact ⟨sb, bb, seats', _, _, _, _, _, (sameOwners_clearHoles t.seats).trans hkeeps.owners,
    hkeeps.chips, fun i => (hhole' i).trans (hhole i), rfl⟩

theorem startHandOn_unplayed (hok : startHandOn t = .ok t') (hhand : t'.hand = some h) :
    h.phase = .shuffle ∧ h.dealer = freshDealerMeta ∧ ∀ i, h.folded i = false := by
  obtain ⟨_, _, _, _, _, _, _, _, -, -, -, rfl⟩ := startHandOn_fresh hok
  cases hhand
  exact ⟨rfl, rfl, fun _ => rfl⟩

/-! ## Deadlines -/

def Hand.withDeadlines (h : Hand) (revealPos : Nat)
    (revealDeadline actionDeadline : Int) : Hand :=
  { h with
    actionDeadline := actionDeadline
    dealer := { h.dealer with
      revealPos := revealPos
      revealDeadline := revealDeadline } }

theorem setRevealDeadlineIfAwaiting_ok
    (hok : setRevealDeadlineIfAwaiting params seats h now = .ok h') :
    ∃ pos deadline, h' = h.withDeadlines pos deadline h.actionDeadline := by
  simp only [setRevealDeadlineIfAwaiting, ok_iff] at hok
  obtain ⟨expected, _, hok⟩ := hok
  cases expected with
  | none => exact ⟨_, _, (pure_ok_iff.mp hok).symm⟩
  | some pos =>
    simp only [ok_iff] at hok
    obtain ⟨deadline, _, rfl⟩ := hok
    exact ⟨_, _, rfl⟩

theorem setActionDeadlineIfBetting_ok (hok : setActionDeadlineIfBetting params h now = .ok h') :
    ∃ deadline, h' = { h with actionDeadline := deadline } := by
  unfold setActionDeadlineIfBetting at hok
  split at hok
  · exact ⟨_, (pure_ok_iff.mp hok).symm⟩
  · simp only [ok_iff] at hok
    obtain ⟨deadline, _, rfl⟩ := hok
    exact ⟨_, rfl⟩

theorem setDeadlines_ok (hok : setDeadlines params seats h now = .ok h') :
    ∃ pos reveal action, h' = h.withDeadlines pos reveal action := by
  simp only [setDeadlines, ok_iff] at hok
  obtain ⟨middle, hreveal, haction⟩ := hok
  obtain ⟨pos, reveal, rfl⟩ := setRevealDeadlineIfAwaiting_ok hreveal
  obtain ⟨action, rfl⟩ := setActionDeadlineIfBetting_ok haction
  exact ⟨pos, reveal, action, rfl⟩

theorem setDeadlinesIfActive_ok {hand' : Option Hand}
    (hok : setDeadlinesIfActive params seats now hand = .ok hand') :
    (hand = none ∧ hand' = none) ∨
      ∃ h pos reveal action, hand = some h ∧ hand' = some (h.withDeadlines pos reveal action) := by
  cases hand with
  | none =>
    cases hok
    exact Or.inl ⟨rfl, rfl⟩
  | some h =>
    simp only [setDeadlinesIfActive, map_eq_ok] at hok
    obtain ⟨h', hset, rfl⟩ := hok
    obtain ⟨pos, reveal, action, rfl⟩ := setDeadlines_ok hset
    exact Or.inr ⟨h, pos, reveal, action, rfl, rfl⟩

theorem setDeadlinesIfActive_some
    (hok : setDeadlinesIfActive params seats now hand = .ok (some h')) :
    ∃ next, hand = some next ∧ setDeadlines params seats next now = .ok h' := by
  cases hand with
  | none => cases hok
  | some next =>
    simp only [setDeadlinesIfActive, map_eq_ok] at hok
    obtain ⟨_, hset, hsome⟩ := hok
    cases hsome
    exact ⟨next, rfl, hset⟩

/-! ## The end of an action -/

theorem maybeAdvance_ok (hok : maybeAdvance seats h = .ok (seats', hand')) :
    (countNotFolded h ≤ 1 ∧ completeByFolds seats h = .ok seats' ∧ hand' = none) ∨
    (1 < countNotFolded h ∧ streetComplete h = false ∧ seats' = seats ∧
      hand' = some { h with actionOn := nextActiveToAct h h.actionOn }) ∨
    (1 < countNotFolded h ∧ streetComplete h = true ∧
      ∃ h', returnUncalledStreetExcess seats h = .ok (seats', h') ∧
        hand' = some { h' with
          actionOn := none
          phase := awaitPhase h'.street }) := by
  unfold maybeAdvance at hok
  split at hok
  · rename_i hfew
    simp only [ok_iff, Prod.mk.injEq] at hok
    obtain ⟨paid, hcomplete, rfl, rfl⟩ := hok
    exact Or.inl ⟨hfew, hcomplete, rfl⟩
  · rename_i hmany
    split at hok
    · rename_i hopen
      cases hok
      exact Or.inr (Or.inl ⟨by omega, hopen, rfl, rfl⟩)
    · rename_i hcomplete
      simp only [ok_iff, Prod.mk.injEq] at hok
      obtain ⟨⟨paid, h'⟩, hexcess, rfl, rfl⟩ := hok
      exact Or.inr (Or.inr ⟨by omega, by simpa using hcomplete, h', hexcess, rfl⟩)

theorem maybeAdvance_some (hok : maybeAdvance seats h = .ok (seats', some h')) :
    (1 < countNotFolded h ∧ streetComplete h = false ∧ seats' = seats ∧
      h' = { h with actionOn := nextActiveToAct h h.actionOn }) ∨
    (1 < countNotFolded h ∧ streetComplete h = true ∧
      ∃ settled, returnUncalledStreetExcess seats h = .ok (seats', settled) ∧
        h' = { settled with actionOn := none, phase := awaitPhase settled.street }) := by
  rcases maybeAdvance_ok hok with
    ⟨_, _, hnone⟩ | ⟨hmany, hopen, hseats, hnext⟩ | ⟨hmany, hclosed, settled, hexcess, hnext⟩
  · cases hnone
  · exact Or.inl ⟨hmany, hopen, hseats, Option.some.inj hnext⟩
  · exact Or.inr ⟨hmany, hclosed, settled, hexcess, Option.some.inj hnext⟩

theorem applyAction_ok {action : Action} {amount : Nat}
    (hok : applyAction params seats h action amount now = .ok (seats', hand')) :
    ∃ actor middleSeats middle hand, h.phase = .betting ∧ h.actionOn = some actor ∧
      inHandNotFolded h actor = true ∧ h.allIn actor = false ∧
      performAction params seats h actor action amount = .ok (middleSeats, middle) ∧
      maybeAdvance middleSeats middle = .ok (seats', hand) ∧
      setDeadlinesIfActive params seats' now hand = .ok hand' := by
  simp only [applyAction, ok_iff, Prod.mk.injEq, not_or, ne_eq, not_not,
    Bool.not_eq_false, Bool.not_eq_true] at hok
  obtain ⟨_, hphase, actor, hactor, _, ⟨hlive, hallIn⟩, ⟨middleSeats, middle⟩,
    hperform, ⟨lastSeats, hand⟩, hadvance, hand'', hdeadlines, rfl, rfl⟩ := hok
  exact ⟨actor, middleSeats, middle, hand, hphase, hactor, hlive, hallIn,
    hperform, hadvance, hdeadlines⟩

/-! ## Reveals -/

def revealHole (seats : Seats) (seat : SeatIdx) (holeIdx : Fin 2)
    (cardID : Nat) : Seats :=
  Function.update seats seat
    { seats seat with
      hole := Function.update (seats seat).hole holeIdx cardID }

theorem revealHole_credits (seats : Seats) (seat : SeatIdx) (holeIdx : Fin 2) (cardID : Nat) :
    SameOwners seats (revealHole seats seat holeIdx cardID) ∧
      ∀ i, (revealHole seats seat holeIdx cardID i).stack = (seats i).stack := by
  refine ⟨sameOwners_update rfl rfl rfl, ?_⟩
  intro i
  by_cases hi : i = seat
  · subst hi
    simp [revealHole]
  · simp [revealHole, hi]

theorem applyBoardReveal_ok
    (hok : applyBoardReveal params seats h pos cardID boardLen street = .ok h') :
    h.dealer.deckFinalized = true ∧ pos = boardPos h ∧
      h' = if h.board.length + 1 = boardLen then
          enterStreet params seats { h with board := h.board ++ [cardID] } street
        else { h with board := h.board ++ [cardID] } := by
  simp only [applyBoardReveal, ok_iff, ne_eq, not_not, Bool.not_eq_false,
    List.length_append, List.length_singleton] at hok
  obtain ⟨_, hfinal, _, hpos, hhand⟩ := hok
  exact ⟨hfinal, hpos, hhand.symm⟩

theorem applyHoleReveal_ok (hok : applyHoleReveal seats h pos cardID = .ok (seats', hand')) :
    ∃ seat holeIdx, dealerPosToSeatHole h.dealer.holePos pos = some (seat, holeIdx) ∧
      inHandNotFolded h seat = true ∧
      ((∃ next, dealerNextShowdownHolePos (revealHole seats seat holeIdx cardID) h =
          .ok (some next) ∧
        seats' = revealHole seats seat holeIdx cardID ∧ hand' = some h) ∨
        (settleKnownShowdown (revealHole seats seat holeIdx cardID) h =
          .ok seats' ∧ hand' = none)) := by
  simp only [applyHoleReveal, ok_iff, Bool.not_eq_false] at hok
  obtain ⟨⟨seat, holeIdx⟩, hseat, _, hlive, next, hnext, hok⟩ := hok
  refine ⟨seat, holeIdx, hseat, hlive, ?_⟩
  cases next with
  | some p =>
    cases hok
    exact Or.inl ⟨p, hnext, rfl, rfl⟩
  | none =>
    simp only [ok_iff, Prod.mk.injEq] at hok
    obtain ⟨settled, hsettle, rfl, rfl⟩ := hok
    exact Or.inr ⟨hsettle, rfl⟩

/-- The board length and the street that a board reveal of the phase leads
to. -/
def boardTarget : HandPhase → Option (Nat × Street)
  | .awaitFlop => some (3, .flop)
  | .awaitTurn => some (4, .turn)
  | .awaitRiver => some (5, .river)
  | _ => none

theorem applyDealerRevealToPoker_ok
    (hok : applyDealerRevealToPoker params seats h pos cardID = .ok (seats', hand')) :
    (∃ boardLen street h', boardTarget h.phase = some (boardLen, street) ∧
      applyBoardReveal params seats h pos cardID boardLen street = .ok h' ∧
      seats' = seats ∧ hand' = some h') ∨
    (h.phase = .awaitShowdown ∧ applyHoleReveal seats h pos cardID = .ok (seats', hand')) := by
  unfold applyDealerRevealToPoker at hok
  split at hok
  · rename_i hphase
    simp only [ok_iff, Prod.mk.injEq] at hok
    obtain ⟨h', hreveal, rfl, rfl⟩ := hok
    exact Or.inl ⟨3, .flop, h', by rw [hphase]; rfl, hreveal, rfl, rfl⟩
  · rename_i hphase
    simp only [ok_iff, Prod.mk.injEq] at hok
    obtain ⟨h', hreveal, rfl, rfl⟩ := hok
    exact Or.inl ⟨4, .turn, h', by rw [hphase]; rfl, hreveal, rfl, rfl⟩
  · rename_i hphase
    simp only [ok_iff, Prod.mk.injEq] at hok
    obtain ⟨h', hreveal, rfl, rfl⟩ := hok
    exact Or.inl ⟨5, .river, h', by rw [hphase]; rfl, hreveal, rfl, rfl⟩
  · rename_i hphase
    exact Or.inr ⟨hphase, hok⟩
  · cases hok

/-! ## Hands that go on -/

structure Acted (params : TableParams) (seats : Seats) (h : Hand) (seats' : Seats)
    (h' : Hand) (actor : SeatIdx) (action : Action) (amount : Nat) : Prop where
  phase : h.phase = .betting
  onAction : h.actionOn = some actor
  live : inHandNotFolded h actor = true
  chips : h.allIn actor = false
  performed : performAction params seats h actor action amount = .ok (seats', h')
  players : 1 < countNotFolded h'

inductive HandChange (params : TableParams) (seats : Seats) (h : Hand) :
    Seats → Hand → Prop
  | turn {seats' : Seats} {middle : Hand} {actor : SeatIdx} {action : Action}
      {amount : Nat} :
      Acted params seats h seats' middle actor action amount →
      streetComplete middle = false →
      HandChange params seats h seats'
        { middle with actionOn := nextActiveToAct middle middle.actionOn }
  | close {middleSeats seats' : Seats} {middle settled : Hand} {actor : SeatIdx}
      {action : Action} {amount : Nat} :
      Acted params seats h middleSeats middle actor action amount →
      returnUncalledStreetExcess middleSeats middle = .ok (seats', settled) →
      HandChange params seats h seats'
        { settled with actionOn := none, phase := awaitPhase settled.street }
  | card {boardLen cardID : Nat} {street : Street} :
      boardTarget h.phase = some (boardLen, street) → h.board.length + 1 ≠ boardLen →
      HandChange params seats h seats { h with board := h.board ++ [cardID] }
  | await {cardID : Nat} {street : Street} :
      boardTarget h.phase = some (h.board.length + 1, street) →
      HandChange params seats h seats
        { h with
          board := h.board ++ [cardID]
          street := street
          phase := awaitPhase street
          actionOn := none }
  | resume {cardID : Nat} {street : Street} :
      boardTarget h.phase = some (h.board.length + 1, street) →
      2 ≤ countWithChips seats h →
      HandChange params seats h seats
        (resetPostflopBettingRound params
          { h with
            board := h.board ++ [cardID]
            street := street
            phase := .betting })
  | hole {cardID next : Nat} {seat : SeatIdx} {holeIdx : Fin 2} :
      h.phase = .awaitShowdown →
      dealerNextShowdownHolePos (revealHole seats seat holeIdx cardID) h =
        .ok (some next) →
      HandChange params seats h (revealHole seats seat holeIdx cardID) h
  | deal : h.phase = .shuffle → h.dealer.deckFinalized = true →
      HandChange params seats h seats
        { h with phase := if h.actionOn = none then .awaitFlop else .betting }

theorem applyBoardReveal_change (htarget : boardTarget h.phase = some (boardLen, street))
    (hok : applyBoardReveal params seats h pos cardID boardLen street = .ok h') :
    HandChange params seats h seats h' := by
  obtain ⟨_, _, rfl⟩ := applyBoardReveal_ok hok
  split
  · rename_i hfull
    subst hfull
    simp only [enterStreet]
    split
    · exact .await htarget
    · rename_i hchips
      exact .resume htarget (not_lt.mp hchips)
  · rename_i hmore
    exact .card htarget hmore

theorem applyDealerRevealToPoker_change
    (hok : applyDealerRevealToPoker params seats h pos cardID = .ok (seats', some h')) :
    HandChange params seats h seats' h' := by
  rcases applyDealerRevealToPoker_ok hok with
    ⟨boardLen, street, revealed, htarget, hboard, rfl, hnext⟩ | ⟨hphase, hhole⟩
  · cases hnext
    exact applyBoardReveal_change htarget hboard
  · obtain ⟨seat, holeIdx, _, _, ⟨next, hleft, rfl, hsame⟩ | ⟨_, hnone⟩⟩ :=
      applyHoleReveal_ok hhole
    · cases hsame
      exact .hole hphase hleft
    · cases hnone

theorem HandStep.set (hstep : HandStep params seats h seats' (some h')) :
    (seats' = seats ∧ ∃ block : Block,
      setActionDeadlineIfBetting params h block.unix = .ok h') ∨
    ∃ next, HandChange params seats h seats' next ∧ ∃ block : Block,
      setDeadlines params seats' next block.unix = .ok h' := by
  cases hstep with
  | action action amount block hok =>
    obtain ⟨actor, middleSeats, middle, hand, hphase, hactor, hlive, hallIn, hperform,
      hadvance, hdeadlines⟩ := applyAction_ok hok
    obtain ⟨next, rfl, hset⟩ := setDeadlinesIfActive_some hdeadlines
    refine .inr ⟨next, ?_, block, hset⟩
    rcases maybeAdvance_some hadvance with
      ⟨hmany, hopen, rfl, rfl⟩ | ⟨hmany, _, settled, hexcess, rfl⟩
    · exact .turn ⟨hphase, hactor, hlive, hallIn, hperform, hmany⟩ hopen
    · exact .close ⟨hphase, hactor, hlive, hallIn, hperform, hmany⟩ hexcess
  | deadline block hok => exact .inl ⟨rfl, block, hok⟩
  | reveal pos cardID block hreveal hdeadlines =>
    obtain ⟨next, rfl, hset⟩ := setDeadlinesIfActive_some hdeadlines
    exact .inr ⟨next, applyDealerRevealToPoker_change hreveal, block, hset⟩
  | advance block hphase hfinal hset => exact .inr ⟨_, .deal hphase hfinal, block, hset⟩

theorem HandStep.change (hstep : HandStep params seats h seats' (some h')) :
    (seats' = seats ∧ ∃ deadline, h' = { h with actionDeadline := deadline }) ∨
    ∃ next pos reveal action, HandChange params seats h seats' next ∧
      h' = next.withDeadlines pos reveal action := by
  rcases hstep.set with ⟨hseats, _, hok⟩ | ⟨next, hchange, _, hset⟩
  · exact .inl ⟨hseats, setActionDeadlineIfBetting_ok hok⟩
  · obtain ⟨pos, reveal, action, hnext⟩ := setDeadlines_ok hset
    exact .inr ⟨next, pos, reveal, action, hchange, hnext⟩

theorem enterStreet_totalCommit (params : TableParams) (seats : Seats)
    (h : Hand) (street : Street) :
    (enterStreet params seats h street).totalCommit = h.totalCommit := by
  simp only [enterStreet]
  split <;> rfl

end OnChainPoker.Poker
