import OnChainPoker.Poker.Distribution
import OnChainPoker.Poker.TableRounds

/-!
# Betting rounds under timeouts

`Tick` checks for a player who need not call and folds for everybody else.  On a
sound table each such action succeeds and leaves one seat fewer that needs to
act, so nine of them end any betting round.
-/

namespace OnChainPoker.Poker

open Foundation

variable {env : Env} {h h' : Hand} {params : TableParams} {seats seats' : Seats} {i : SeatIdx}
  {action : Action} {amount : Nat}

/-! ## Steps that cannot fail -/

theorem le_maxCommitThisStreet_of_filter {maximum : Nat} {maxSeat : SeatIdx}
    (honly : (List.finRange 9).filter (fun i => h.streetCommit i = maximum) = [maxSeat]) :
    h.streetCommit maxSeat = maximum := by
  have hmem : maxSeat ∈ (List.finRange 9).filter (fun i => h.streetCommit i = maximum) := by
    rw [honly]
    simp
  simpa using (List.mem_filter.mp hmem).2

theorem returnUncalledStreetExcess_succeeds (hbounded : ChipsBounded params seats h) :
    ∃ seats' h', returnUncalledStreetExcess seats h = .ok (seats', h') := by
  simp only [returnUncalledStreetExcess]
  split
  · exact ⟨_, _, rfl⟩
  · split
    · rename_i maxSeat honly
      have hmax := le_maxCommitThisStreet_of_filter honly
      have hstreet := hbounded.street maxSeat
      have hseat := hbounded.seat maxSeat
      rw [addUint64Checked_of_le _ (by omega), ok_bind,
        rejectIf_bind (by omega), rejectIf_bind (by omega)]
      exact ⟨_, _, rfl⟩
    · exact ⟨_, _, rfl⟩

theorem sum_checked_of_le {α : Type} {weight : α → Nat} (field : String) {cells : List α}
    {start : Nat} (hle : start + (cells.map weight).sum ≤ maxUint64) :
    cells.foldlM (fun pot i => addUint64Checked pot (weight i) field) start =
      .ok (start + (cells.map weight).sum) := by
  induction cells generalizing start with
  | nil => simp [pure, Except.pure]
  | cons i rest ih =>
    simp only [List.map_cons, List.sum_cons] at hle ⊢
    rw [List.foldlM_cons, addUint64Checked_of_le _ (by omega), ok_bind,
      ih (by omega), Nat.add_assoc]

theorem potTotal_of_le (hle : commitSum h ≤ maxUint64) : potTotal h = .ok (commitSum h) := by
  rw [commitSum, Fin.sum_univ_def] at hle ⊢
  have htotal : potTotal h = .ok (0 + ((List.finRange 9).map h.totalCommit).sum) :=
    sum_checked_of_le "pot total" (by omega)
  rwa [Nat.zero_add] at htotal

theorem returnUncalledStreetExcess_live
    (hok : returnUncalledStreetExcess seats h = .ok (seats', h')) (i : SeatIdx) :
    inHandNotFolded h' i = inHandNotFolded h i := by
  cases returnUncalledStreetExcess_cases hok with
  | same | refund => rfl

theorem completeByFolds_succeeds (hbounded : ChipsBounded params seats h) :
    ∃ seats', completeByFolds seats h = .ok seats' := by
  unfold completeByFolds
  split
  · exact ⟨_, rfl⟩
  · rename_i winner hfind
    have hlive : inHandNotFolded h winner = true := List.find?_some hfind
    obtain ⟨refunded, h', hexcess⟩ :=
      returnUncalledStreetExcess_succeeds hbounded
    have hmoves := returnUncalledStreetExcess_moves hexcess
    have hlive' : inHandNotFolded h' winner = true :=
      (returnUncalledStreetExcess_live hexcess winner).trans hlive
    have hworth : (refunded winner).stack + commitSum h' ≤
        handWorth refunded h' := stack_add_commitSum_le_handWorth hlive'
    have hmax := (hbounded.moves hmoves).hand
    have hall : (refunded winner).stack + commitSum h' ≤ maxUint64 := by omega
    have hpot : potTotal h' = .ok (commitSum h') :=
      potTotal_of_le (le_trans (Nat.le_add_left _ _) hall)
    have hadd := addUint64Checked_of_le "winner stack" hall
    simp only [hexcess, hpot, hadd, ok_bind]
    exact ⟨_, rfl⟩

theorem setActionDeadlineIfBetting_succeeds (hparams : ParamsValid params) (h : Hand)
    (block : Block) :
    ∃ h', setActionDeadlineIfBetting params h block.unix = .ok h' := by
  unfold setActionDeadlineIfBetting
  split
  · exact ⟨_, rfl⟩
  · have hsecs : tableActionTimeoutSecs params ≤ 600 := by
      have hmax := hparams.actionTimeout
      unfold tableActionTimeoutSecs defaultActionTimeoutSecs
      unfold maxActionTimeoutSecs at hmax
      split <;> omega
    have hfrom := block.unix_pos
    have huntil := block.unix_le
    rw [addInt64AndU64Checked_of_le _ (by omega) (by unfold maxInt64; omega)]
    exact ⟨_, rfl⟩

theorem seatHolePositions_succeeds (hdealt : DeckDealt h) (i : SeatIdx) :
    ∃ own, seatHolePositions h i = .ok own := by
  unfold seatHolePositions
  split
  · exact ⟨_, rfl⟩
  · rename_i hlive
    have hin : h.inHand i = true := by
      simp only [inHandNotFolded, Bool.not_eq_false, Bool.and_eq_true] at hlive
      exact hlive.1
    have hset := hdealt.2.2 i
    rw [rejectIf_bind (by simp [hset _ hin])]
    exact ⟨_, rfl⟩

theorem dealerNextShowdownHolePos_succeeds (hdealt : DeckDealt h) (seats : Seats) :
    ∃ next, dealerNextShowdownHolePos seats h = .ok next := by
  have hloop : ∃ pos, (List.finRange 9).foldlM (fun pos seat => do
      let own ← seatHolePositions h seat
      pure (pos ++ own)) [] = .ok pos ∧ True := by
    refine foldlM_succeeds (fun _ => True) ?_ trivial
    intro seat _ pos _
    obtain ⟨own, hown⟩ := seatHolePositions_succeeds hdealt seat
    rw [hown, ok_bind]
    exact ⟨_, rfl, trivial⟩
  obtain ⟨pos, hpos, _⟩ := hloop
  simp only [dealerNextShowdownHolePos, dealerEligibleShowdownHolePositions]
  rw [hpos]
  exact ⟨_, rfl⟩

theorem expectBoardPos_succeeds (hdealt : DeckDealt h) (hboard : h.board.length ≤ 4) :
    ∃ pos, expectBoardPos h = .ok pos := by
  obtain ⟨hroom, hmax, _⟩ := hdealt
  have hpos : boardPos h = h.dealer.cursor + h.board.length := by exact Nat.mod_eq_of_lt (by omega)
  unfold expectBoardPos
  rw [rejectIf_of_not (by omega)]
  exact ⟨_, rfl⟩

theorem dealerExpectedRevealPos_succeeds (hdealt : DeckDealt h)
    (hfinal : h.dealer.deckFinalized = true) (hboard : BoardValid h) (seats : Seats) :
    ∃ pos, dealerExpectedRevealPos seats h = .ok pos := by
  have hsize : h.dealer.deckSize ≠ 0 := by
    have hroom := hdealt.1
    omega
  unfold dealerExpectedRevealPos
  rw [rejectIf_bind (by simp [hfinal]), rejectIf_bind hsize]
  cases hphase : h.phase with
  | shuffle | betting => exact ⟨_, rfl⟩
  | awaitFlop | awaitTurn | awaitRiver =>
    simp only [BoardValid, hphase] at hboard
    dsimp only
    rw [rejectIf_bind (by omega)]
    exact expectBoardPos_succeeds hdealt (by omega)
  | awaitShowdown =>
    simp only [BoardValid, hphase] at hboard
    dsimp only
    rw [rejectIf_bind (by omega)]
    exact dealerNextShowdownHolePos_succeeds hdealt seats
  | showdown => exact ⟨_, rfl⟩

theorem setDeadlines_succeeds (hparams : ParamsValid params) (hdealt : DeckDealt h)
    (hfinal : h.dealer.deckFinalized = true) (hboard : BoardValid h) (seats : Seats)
    (block : Block) :
    ∃ h', setDeadlines params seats h block.unix = .ok h' := by
  obtain ⟨pos, hpos⟩ := dealerExpectedRevealPos_succeeds hdealt hfinal hboard seats
  have hsecs : tableDealerTimeoutSecs params ≤ 1800 := by
    have hmax := hparams.dealerTimeout
    unfold tableDealerTimeoutSecs defaultDealerTimeoutSecs
    unfold maxDealerTimeoutSecs at hmax
    split <;> omega
  have hreveal : ∃ h', setRevealDeadlineIfAwaiting params seats h block.unix = .ok h' := by
    unfold setRevealDeadlineIfAwaiting
    rw [hpos, ok_bind]
    cases pos with
    | none => exact ⟨_, rfl⟩
    | some pos =>
      have hfrom := block.unix_pos
      have huntil := block.unix_le
      rw [addInt64AndU64Checked_of_le _ (by omega) (by unfold maxInt64; omega)]
      exact ⟨_, rfl⟩
  obtain ⟨h', hreveal⟩ := hreveal
  unfold setDeadlines
  rw [hreveal, ok_bind]
  exact setActionDeadlineIfBetting_succeeds hparams h' block

/-! ## Who needs to act -/

def Action.isQuiet : Action → Bool
  | .fold | .check | .call => true
  | _ => false

theorem needsToAct_congr (hin : h'.inHand i = h.inHand i) (hfolded : h'.folded i = h.folded i)
    (hallIn : h'.allIn i = h.allIn i) (hacted : h'.lastIntervalActed i = h.lastIntervalActed i)
    (hinterval : h'.intervalId = h.intervalId) (hcommit : h'.streetCommit i = h.streetCommit i)
    (hbetTo : h'.betTo = h.betTo) :
    needsToAct h' i = needsToAct h i := by
  unfold needsToAct
  rw [hin, hfolded, hallIn, hacted, hinterval, hcommit, hbetTo]

variable {seat : SeatIdx} {hand : Option Hand} {now : Int} {middle : Hand}

theorem performAction_needs_of_ne {i : SeatIdx} (hquiet : action.isQuiet = true) (hi : i ≠ seat)
    (hok : performAction params seats h seat action amount = .ok (seats', h')) :
    needsToAct h' i = needsToAct h i := by
  have hother : ∀ {α : Type} (f : SeatIdx → α) (value : α), Function.update f seat value i = f i :=
    fun f value => Function.update_of_ne hi value f
  cases performAction_cases hok with
  | fold => exact needsToAct_congr rfl (hother _ _) rfl (hother _ _) rfl rfl rfl
  | check _ => exact needsToAct_congr rfl rfl rfl (hother _ _) rfl rfl rfl
  | call _ hcommit =>
    obtain ⟨_, rfl⟩ := commitChips_ok hcommit
    refine needsToAct_congr rfl rfl ?_ (hother _ _) rfl (hother _ _) rfl
    split
    · exact hother _ _
    · rfl
  | bet _ | raise _ => cases hquiet

theorem performAction_needs_self (haction : action = .check ∨ action = .fold)
    (hlevel : h.streetCommit seat ≤ h.betTo)
    (hok : performAction params seats h seat action amount = .ok (seats', h')) :
    needsToAct h' seat = false := by
  rcases haction with rfl | rfl
  · simp only [performAction, applyCheck, ok_iff, Prod.mk.injEq, ne_eq, not_not] at hok
    obtain ⟨_, ⟨_, hcall, rfl⟩, rfl, rfl⟩ := hok
    have heq : h.streetCommit seat = h.betTo := by
      unfold toCall at hcall
      omega
    simp [needsToAct, markActed, heq]
  · cases hok
    simp [needsToAct, applyFold, markActed]

def waiting (h : Hand) : Finset SeatIdx :=
  Finset.univ.filter fun i => needsToAct h i = true

theorem performAction_waiting (haction : action = .check ∨ action = .fold)
    (hlevel : h.streetCommit seat ≤ h.betTo) (hneeds : needsToAct h seat = true)
    (hok : performAction params seats h seat action amount = .ok (seats', h')) :
    (waiting h').card < (waiting h).card := by
  have hself := performAction_needs_self haction hlevel hok
  have hquiet : action.isQuiet = true := by rcases haction with rfl | rfl <;> rfl
  apply Finset.card_lt_card
  rw [Finset.ssubset_iff_of_subset]
  · exact ⟨seat, by simp [waiting, hneeds], by simp [waiting, hself]⟩
  · intro i hi
    simp only [waiting, Finset.mem_filter, Finset.mem_univ, true_and] at hi ⊢
    have hne : i ≠ seat := by
      rintro rfl
      rw [hself] at hi
      cases hi
    rwa [performAction_needs_of_ne hquiet hne hok] at hi

/-! ## The action of a timeout -/

def tickAction (params : TableParams) (seats : Seats) (h : Hand)
    (block : Block) : Except String (Seats × Option Hand) := do
  let actor ← require h.actionOn "invalid actionOn seat"
  applyAction params
    (Function.update seats actor (slashSeat params (seats actor))) h
    (defaultAction h actor) 0 block.unix

theorem defaultAction_succeeds (params : TableParams) (seats : Seats) (h : Hand) (seat : SeatIdx) :
    ∃ h', performAction params seats h seat (defaultAction h seat) 0 = .ok (seats, h') := by
  unfold defaultAction
  split
  · rename_i hcall
    simp only [performAction, applyCheck]
    rw [rejectIf_of_not (by simp [hcall])]
    exact ⟨_, rfl⟩
  · exact ⟨_, rfl⟩

theorem defaultAction_cases (h : Hand) (seat : SeatIdx) :
    defaultAction h seat = .check ∨ defaultAction h seat = .fold := by
  unfold defaultAction
  split
  · exact Or.inl rfl
  · exact Or.inr rfl

theorem maybeAdvance_succeeds (hbounded : ChipsBounded params seats h) :
    ∃ seats' hand', maybeAdvance seats h = .ok (seats', hand') := by
  unfold maybeAdvance
  split
  · obtain ⟨paid, hpaid⟩ := completeByFolds_succeeds hbounded
    rw [hpaid]
    exact ⟨_, _, rfl⟩
  · split
    · exact ⟨_, _, rfl⟩
    · obtain ⟨paid, h', hexcess⟩ :=
        returnUncalledStreetExcess_succeeds hbounded
      rw [hexcess]
      exact ⟨_, _, rfl⟩

theorem maybeAdvance_betting (hadvance : maybeAdvance seats h = .ok (seats', hand))
    (hdeadlines : setDeadlinesIfActive params seats' now hand = .ok (some h')) :
    (h'.phase ≠ .betting ∧ h'.actionOn = none) ∨ ((∀ i, needsToAct h' i = needsToAct h i) ∧
        ∀ i, h'.actionOn = some i → needsToAct h i = true) := by
  obtain ⟨next, rfl, hset⟩ := setDeadlinesIfActive_some hdeadlines
  obtain ⟨_, _, _, rfl⟩ := setDeadlines_ok hset
  rcases maybeAdvance_some hadvance with
    ⟨_, _, _, rfl⟩ | ⟨_, _, settled, _, rfl⟩
  · exact Or.inr ⟨fun _ => rfl, fun i hi => nextActiveToAct_needs hi⟩
  · refine Or.inl ⟨?_, rfl⟩
    intro hphase
    exact awaitPhase_not_inRound settled.street rfl (Or.inr hphase)

theorem setDeadlinesIfActive_succeeds (hparams : ParamsValid params) (hphase : h.phase = .betting)
    (hboard : BoardValid h) (hdeck : DeckValid h) (hround : SameRound h middle)
    (hadvance : maybeAdvance seats middle = .ok (seats', hand)) (block : Block) :
    ∃ hand', setDeadlinesIfActive params seats' block.unix hand = .ok hand' := by
  have hfinal : h.dealer.deckFinalized = true := hdeck.finalized (by simp [hphase])
  have hdealt := hdeck.dealt hfinal
  have hset : ∀ next : Hand, SameDeck h next → BoardValid next →
      ∃ hand', setDeadlinesIfActive params seats' block.unix (some next) = .ok hand' := by
    intro next hsame hvalid
    obtain ⟨h', hset⟩ := setDeadlines_succeeds hparams (hdealt.of_same hsame)
      (hsame.deckFinalized.trans hfinal) hvalid seats' block
    exact ⟨some h', by rw [setDeadlinesIfActive, hset]; rfl⟩
  have hmiddle := hround.sameDeck
  rcases maybeAdvance_ok hadvance with
    ⟨_, _, rfl⟩ | ⟨_, _, _, rfl⟩ | ⟨_, _, settled, hexcess, rfl⟩
  · exact ⟨none, rfl⟩
  · refine hset _ ⟨hmiddle.1, hmiddle.2, hmiddle.3, hmiddle.4, hmiddle.5, hmiddle.6⟩ ?_
    rw [hround]
    exact hboard
  · have hreturn := hround.trans (returnUncalledStreetExcess_sameRound hexcess)
    have hsettled := hreturn.sameDeck
    refine hset _ ⟨hsettled.1, hsettled.2, hsettled.3, hsettled.4, hsettled.5, hsettled.6⟩ ?_
    exact hboard.of_await hphase (by rw [hreturn]) (by rw [hreturn]) (by rw [hreturn])

/-- An action that its seat can perform goes through, together with what follows
it: the end of the street or of the hand, and the deadlines. -/
theorem applyAction_succeeds {params bounds : TableParams} (hparams : ParamsValid params)
    {seats middleSeats : Seats} {actor : SeatIdx} (hphase : h.phase = .betting)
    (hactor : h.actionOn = some actor) (hneeds : needsToAct h actor = true)
    (hperform : performAction params seats h actor action amount = .ok (middleSeats, middle))
    (hbounded : ChipsBounded bounds middleSeats middle) (hboard : BoardValid h)
    (hdeck : DeckValid h) (block : Block) :
    ∃ seats' hand hand', maybeAdvance middleSeats middle = .ok (seats', hand) ∧
      setDeadlinesIfActive params seats' block.unix hand = .ok hand' ∧
      applyAction params seats h action amount block.unix = .ok (seats', hand') := by
  obtain ⟨hlive, hallIn⟩ := needsToAct_eligible hneeds
  obtain ⟨seats', hand, hadvance⟩ := maybeAdvance_succeeds hbounded
  obtain ⟨hand', hdeadlines⟩ := setDeadlinesIfActive_succeeds hparams hphase
    hboard hdeck (performAction_sameRound hperform) hadvance block
  refine ⟨seats', hand, hand', hadvance, hdeadlines, ?_⟩
  unfold applyAction
  rw [rejectIf_bind (by simp [hphase]), hactor]
  simp only [require, ok_bind]
  rw [rejectIf_bind (by simp [hlive, hallIn]), hperform, ok_bind]
  rw [hadvance, ok_bind]
  rw [hdeadlines]
  rfl

/-- While a sound hand is bet on, the action of a timeout succeeds; if the hand
is bet on afterwards, it is sound and fewer seats need to act. -/
theorem tickAction_progress (hparams : ParamsValid params)
    (hsound : HandSound params seats h) (hphase : h.phase = .betting) (block : Block) :
    ∃ seats' hand', tickAction params seats h block = .ok (seats', hand') ∧
      ∀ h', hand' = some h' → HandSound params seats' h' ∧
        (h'.phase = .betting → (waiting h').card < (waiting h).card) := by
  obtain ⟨actor, hactor⟩ := Option.ne_none_iff_exists'.mp (hsound.round.opened hphase)
  have hneeds := hsound.round.onAction (Or.inr hphase) actor hactor
  obtain ⟨hlive, hallIn⟩ := needsToAct_eligible hneeds
  have hlevel := hsound.round.level (Or.inr hphase) actor hlive hallIn
  generalize hslashed : Function.update seats actor (slashSeat params (seats actor)) = slashed
  have hsound' : HandSound params slashed h := by
    subst hslashed
    exact hsound.reseated (.slash actor _)
  obtain ⟨middle, hperform⟩ := defaultAction_succeeds params slashed h actor
  have hmoves := performAction_moves hlive hperform
  obtain ⟨seats', hand, hand', hadvance, hdeadlines, hok⟩ :=
    applyAction_succeeds hparams hphase hactor hneeds hperform
      (hsound'.chips.moves hmoves) hsound.board hsound.deck block
  refine ⟨seats', hand', ?_, ?_⟩
  · unfold tickAction
    rw [hactor]
    simp only [require, ok_bind, hslashed]
    exact hok
  · rintro h' rfl
    refine ⟨HandStep.sound hsound' (.action _ _ block hok), ?_⟩
    intro hbetting
    have hfewer := performAction_waiting (defaultAction_cases h actor) hlevel hneeds hperform
    rcases maybeAdvance_betting hadvance hdeadlines with ⟨hout, _⟩ | ⟨hsame, _⟩
    · exact absurd hbetting hout
    · simpa only [waiting, hsame] using hfewer

def tickRun (params : TableParams) :
    List Block → Seats → Hand → Except String (Seats × Option Hand)
  | [], seats, h => pure (seats, some h)
  | block :: rest, seats, h =>
    if h.phase ≠ .betting then pure (seats, some h)
    else do
      let (seats, hand) ← tickAction params seats h block
      match hand with
      | none => pure (seats, none)
      | some h => tickRun params rest seats h

theorem tickRun_ends (hparams : ParamsValid params) (blocks : List Block)
    (hsound : HandSound params seats h)
    (hfew : h.phase = .betting → (waiting h).card ≤ blocks.length) :
    ∃ seats' hand', tickRun params blocks seats h = .ok (seats', hand') ∧
      ∀ h' ∈ hand', h'.phase ≠ .betting := by
  -- One seat fewer needs to act after each block, and the seat on action does.
  induction blocks generalizing seats h with
  | nil =>
    refine ⟨seats, some h, rfl, ?_⟩
    rintro _ ⟨⟩ hphase
    have hzero := hfew hphase
    obtain ⟨actor, hactor⟩ := Option.ne_none_iff_exists'.mp (hsound.round.opened hphase)
    have hneeds := hsound.round.onAction (Or.inr hphase) actor hactor
    have hmem : actor ∈ waiting h := by simp [waiting, hneeds]
    have hpos := Finset.card_pos.mpr ⟨actor, hmem⟩
    simp only [List.length_nil] at hzero
    omega
  | cons block rest ih =>
    unfold tickRun
    by_cases hphase : h.phase = .betting
    · obtain ⟨seats', hand', haction, hnext⟩ := tickAction_progress hparams hsound hphase block
      rw [if_neg (by simp [hphase]), haction, ok_bind]
      cases hand' with
      | none => exact ⟨seats', none, rfl, by simp⟩
      | some h' =>
        obtain ⟨hsound', hless⟩ := hnext h' rfl
        refine ih hsound' fun hbetting => ?_
        have hstart := hfew hphase
        have hlt := hless hbetting
        simp only [List.length_cons] at hstart
        omega
    · rw [if_pos hphase]
      refine ⟨seats, some h, rfl, ?_⟩
      rintro _ ⟨⟩
      exact hphase

/-! ## Quiet play -/

inductive QuietRun (params : TableParams) (seats : Seats) (h : Hand) :
    Seats → Hand → Prop
  | refl : QuietRun params seats h seats h
  | step {seats' seats'' : Seats} {h' h'' : Hand} (action : Action)
      (amount : Nat) (block : Block) :
      QuietRun params seats h seats' h' → action.isQuiet = true →
      applyAction params seats' h' action amount block.unix = .ok (seats'', some h'') →
      QuietRun params seats h seats'' h''

def Rests (h : Hand) (i : SeatIdx) : Prop :=
  (h.phase ≠ .betting ∧ h.actionOn = none) ∨
    (needsToAct h i = false ∧ ∀ j, h.actionOn = some j → needsToAct h j = true)

theorem Rests.not_onAction (hrests : Rests h i) : h.actionOn ≠ some i := by
  intro hi
  rcases hrests with ⟨_, hnone⟩ | ⟨hrest, hneeds⟩
  · rw [hnone] at hi
    cases hi
  · rw [hneeds i hi] at hrest
    cases hrest

theorem rests_of_advance (hrest : needsToAct h i = false)
    (hadvance : maybeAdvance seats h = .ok (seats', hand))
    (hdeadlines : setDeadlinesIfActive params seats' now hand = .ok (some h')) :
    Rests h' i := by
  rcases maybeAdvance_betting hadvance hdeadlines with hout | ⟨hsame, hneeds⟩
  · exact Or.inl hout
  · refine Or.inr ⟨by rw [hsame, hrest], ?_⟩
    intro j hj
    rw [hsame]
    exact hneeds j hj

theorem QuietRun.rests (hrun : QuietRun params seats h seats' h') (hstart : Rests h i) :
    Rests h' i := by
  induction hrun with
  | refl => exact hstart
  | step action amount block _ hquiet hok ih =>
    obtain ⟨actor, _, middle, _, hphase, hactor, _, _, hperform, hadvance,
      hdeadlines⟩ := applyAction_ok hok
    rcases ih with ⟨hout, _⟩ | ⟨hrest, hneeds⟩
    · exact absurd hphase hout
    · have hne : i ≠ actor := by
        rintro rfl
        rw [hneeds i hactor] at hrest
        cases hrest
      have hsame := performAction_needs_of_ne hquiet hne hperform
      exact rests_of_advance (hsame.trans hrest) hadvance hdeadlines

/-! ## Reachable betting rounds -/

/-- In a run whose hands are started with covered blinds, chips in range and a
large enough deck, nine timeouts end every betting round, and a seat that has
checked or folded is not on action again before somebody bets or raises. -/
theorem timeouts_end_betting (env : Env) (balances : env.bank.Balances)
    (messages : List (Msg env))
    (hmeet : AcceptedMeet handle KeepsRounds (State.genesis env balances) messages)
    {tid : Nat} {t : Table} {h : Hand}
    (hget : (run handle (State.genesis env balances) messages).getTable tid =
      some t) (hhand : t.hand = some h) (hphase : h.phase = .betting) :
    (∀ blocks : List Block, blocks.length = 9 →
      ∃ seats' hand', tickRun t.params blocks t.seats h = .ok (seats', hand') ∧
        ∀ h' ∈ hand', h'.phase ≠ .betting) ∧
    (∀ i action amount (block : Block) seats' h', h.actionOn = some i →
      action = .check ∨ action = .fold →
      applyAction t.params t.seats h action amount block.unix = .ok (seats', some h') →
      ∀ seats'' h'', QuietRun t.params seats' h' seats'' h'' →
        h''.actionOn ≠ some i) := by
  obtain ⟨hparams, hhands⟩ := reachable_sound hmeet hget
  have hsound := hhands h hhand
  refine ⟨?_, ?_⟩
  · intro blocks hlength
    refine tickRun_ends hparams blocks hsound fun _ => ?_
    rw [hlength]
    exact Finset.card_le_univ _
  · intro i action amount block seats' h' hactor haction hok seats'' h'' hrun
    obtain ⟨actor, _, middle, _, _, hactor', hlive, hallIn, hperform, hadvance,
      hdeadlines⟩ := applyAction_ok hok
    rw [hactor] at hactor'
    cases hactor'
    have hlevel := hsound.round.level (Or.inr hphase) i hlive hallIn
    have hrest := performAction_needs_self haction hlevel hperform
    exact (hrun.rests (rests_of_advance hrest hadvance hdeadlines)).not_onAction

def bettingTable (s : State env) (tid : Nat) : Option (Table × Hand) := do
  let t ← s.getTable tid
  let h ← t.hand
  if h.phase = .betting then some (t, h) else none

theorem bettingTable_some {s : State env} {tid : Nat} {t : Table}
    (hsome : bettingTable s tid = some (t, h)) :
    s.getTable tid = some t ∧ t.hand = some h ∧ h.phase = .betting := by
  simp only [bettingTable, Option.bind_eq_bind, Option.bind_eq_some_iff] at hsome
  obtain ⟨t', hget, h', hhand, hsome⟩ := hsome
  split at hsome
  · rename_i hphase
    cases hsome
    exact ⟨hget, hhand, hphase⟩
  · cases hsome

/-- Heads-up with blinds 10 and 20: the big blind has only 5 chips. -/
def shortBigBlindRun : List (Msg ledgerEnv) :=
  dealtTo { sampleTable with smallBlind := 10, bigBlind := 20 } [("A", 100), ("B", 5)]

/-- The small blind has put in more than the bet level, checks on every timeout
and is on action again each time. -/
theorem shortBigBlind_loops :
    ∃ t h seats' h',
      (run handle (State.genesis ledgerEnv (0 : Nat))
        shortBigBlindRun).getTable 1 = some t ∧
      t.hand = some h ∧ h.phase = .betting ∧ h.actionOn = some 0 ∧
      tickRun t.params (List.replicate 9 sampleBlock) t.seats h =
        .ok (seats', some h') ∧
      h'.phase = .betting ∧ h'.actionOn = some 0 := by
  have hrun : (bettingTable (run handle (State.genesis ledgerEnv (0 : Nat))
      shortBigBlindRun) 1).any (fun th =>
        decide (th.2.actionOn = some (0 : SeatIdx)) &&
        (tickRun th.1.params (List.replicate 9 sampleBlock) th.1.seats th.2).toOption.any
          fun r => r.2.any fun h' =>
            decide (h'.phase = .betting ∧ h'.actionOn = some (0 : SeatIdx))) = true := by
    decide +kernel
  obtain ⟨⟨t, h⟩, hsome, hfacts⟩ := (Option.any_eq_true _ _).mp hrun
  obtain ⟨hget, hhand, hphase⟩ := bettingTable_some hsome
  simp only [Bool.and_eq_true, decide_eq_true_eq] at hfacts
  obtain ⟨hactor, hticks⟩ := hfacts
  obtain ⟨⟨seats', next⟩, hticks, hnext⟩ := (Option.any_eq_true _ _).mp hticks
  obtain ⟨h', rfl, hfacts⟩ := (Option.any_eq_true _ _).mp hnext
  exact ⟨t, h, seats', h', hget, hhand, hphase, hactor, toOption_eq_some.mp hticks,
    of_decide_eq_true hfacts⟩

def calledRun : List (Msg ledgerEnv) :=
  dealtTo sampleTable [("A", 100), ("B", 100), ("C", 100)] ++
    [.act sampleBlock ⟨"A", 1, "call", 0⟩]

theorem called_round_ends :
    ∃ t h seats' hand',
      (run handle (State.genesis ledgerEnv (0 : Nat)) calledRun).getTable 1 = some t ∧
      t.hand = some h ∧ h.phase = .betting ∧
      tickRun t.params (List.replicate 9 sampleBlock) t.seats h =
        .ok (seats', hand') ∧ ∀ h' ∈ hand', h'.phase ≠ .betting := by
  have hmeet : AcceptedMeet handle KeepsRounds
      (State.genesis ledgerEnv (0 : Nat)) calledRun := by
    unfold AcceptedMeet
    decide +kernel
  have hbetting : (bettingTable (run handle (State.genesis ledgerEnv (0 : Nat))
      calledRun) 1).isSome = true := by
    decide +kernel
  obtain ⟨⟨t, h⟩, hsome⟩ := Option.isSome_iff_exists.mp hbetting
  obtain ⟨hget, hhand, hphase⟩ := bettingTable_some hsome
  obtain ⟨seats', hand', hticks, hleft⟩ :=
    (timeouts_end_betting ledgerEnv (0 : Nat) calledRun hmeet hget hhand
      hphase).1 (List.replicate 9 sampleBlock) rfl
  exact ⟨t, h, seats', hand', hget, hhand, hphase, hticks, hleft⟩

end OnChainPoker.Poker
