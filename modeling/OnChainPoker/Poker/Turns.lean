import OnChainPoker.Poker.Deals
import OnChainPoker.Poker.RevealProgress

/-!
# Phases and turns

Between messages the phase, the street, the board and the awaited position of a
hand agree, and a hand that is being bet on waits for a player who can act: in
the hand, with chips, and still in the seat of the deal.  Neither needs any
assumption on the blinds.
-/

namespace OnChainPoker.Poker

open Foundation

variable {env : Env} {h h' : Hand} {params : TableParams} {seats seats' : Seats}
  {amount cardID pos : Nat} {seat : SeatIdx} {t t' : Table}

/-! ## Phases -/

theorem unsetPos_of_idle (hvalid : RevealValid seats h)
    (hphase : h.inRound) : h.dealer.revealPos = unsetPos := by
  rcases hphase with hshuffle | hbetting
  · rw [RevealValid, if_pos hshuffle] at hvalid
    exact hvalid.1
  · obtain ⟨expected, hexpected, hpos, _⟩ := hvalid.expected (by simp [hbetting])
    rw [hpos]
    obtain ⟨_, ⟨htarget, _⟩ | ⟨hshow, _⟩ | ⟨_, hnone⟩⟩ := dealerExpectedRevealPos_ok hexpected
    · simp [hbetting, boardTarget] at htarget
    · rw [hbetting] at hshow
      cases hshow
    · rw [hnone]
      rfl

theorem settled_in_showdown (hok : applyDealerRevealToPoker params seats h pos cardID =
      .ok (seats', none)) : h.phase = .awaitShowdown := by
  rcases applyDealerRevealToPoker_ok hok with
    ⟨_, _, _, _, _, _, hsome⟩ | ⟨hphase, _⟩
  · cases hsome
  · exact hphase

/-- In every run, with an active hand: the board has the cards of the phase and
the street, the awaited position is the one `dealerExpectedRevealPos` computes,
at least two players have not folded, and a hand is settled on a full board
only. -/
theorem phase_street_board (env : Env) (balances : env.bank.Balances)
    (messages : List (Msg env)) {tid : Nat} {t : Table} {h : Hand}
    (hget : (run handle (State.genesis env balances) messages).getTable tid =
      some t) (hhand : t.hand = some h) :
    (h.phase = .shuffle → h.street = .preflop ∧ h.board = []) ∧
    (h.phase = .betting → h.board.length = boardLength h.street) ∧
    (h.phase = .awaitFlop → h.board.length ≤ 2) ∧
    (h.phase = .awaitTurn → h.board.length = 3) ∧
    (h.phase = .awaitRiver → h.board.length = 4) ∧
    (h.phase = .awaitShowdown → h.board.length = 5) ∧
    h.phase ≠ .showdown ∧
    (h.phase.awaits = true →
      dealerExpectedRevealPos t.seats h = .ok (some h.dealer.revealPos)) ∧
    (h.phase = .shuffle ∨ h.phase = .betting → h.dealer.revealPos = 255) ∧
    2 ≤ countNotFolded h ∧
    (∀ pos cardID seats',
      applyDealerRevealToPoker t.params t.seats h pos cardID =
        .ok (seats', none) → h.board.length = 5) := by
  have hstanding := (reachable_standing hget).hand h hhand
  have hboard := hstanding.board
  have hfull : h.phase = .awaitShowdown → h.board.length = 5 := by
    intro hphase
    simp only [BoardValid, hphase] at hboard
    exact hboard.2
  refine ⟨?_, ?_, ?_, ?_, ?_, hfull, ?_, fun hphase => (hstanding.awaited hphase).1,
    unsetPos_of_idle hstanding.reveal, hstanding.contested.players,
    fun _ _ _ hok => hfull (settled_in_showdown hok)⟩
  all_goals
    intro hphase
    simp only [BoardValid, hphase] at hboard
  · exact hboard
  · exact hboard
  · exact hboard.2
  · exact hboard.2
  · exact hboard.2

theorem foldAndLeave_phase :
    ∃ t h, (run handle (State.genesis ledgerEnv (0 : Nat)) foldAndLeaveRun).getTable
        1 = some t ∧ t.hand = some h ∧ h.phase = .betting ∧
      h.board.length = boardLength h.street ∧ h.dealer.revealPos = 255 ∧
      2 ≤ countNotFolded h := by
  have hloaded :
      ((run handle (State.genesis ledgerEnv (0 : Nat)) foldAndLeaveRun).getTable
        1).any (fun t => t.hand.any fun h => decide (h.phase = .betting)) = true := by
    decide +kernel
  obtain ⟨t, hget, hhand⟩ := (Option.any_eq_true _ _).mp hloaded
  obtain ⟨h, hhand, hphase⟩ := (Option.any_eq_true _ _).mp hhand
  have hphase := of_decide_eq_true hphase
  obtain ⟨_, hboard, _, _, _, _, _, _, hpos, hplayers, _⟩ :=
    phase_street_board ledgerEnv (0 : Nat) foldAndLeaveRun hget hhand
  exact ⟨t, h, hget, hhand, hphase, hboard hphase, hpos (Or.inr hphase), hplayers⟩

/-! ## Marks of being all-in -/

def AllInExact (seats : Seats) (h : Hand) : Prop :=
  ∀ i, inHandNotFolded h i = true → (h.allIn i = true ↔ (seats i).stack = 0)

theorem AllInExact.empty (hexact : AllInExact seats h) : AllInEmpty seats h :=
  fun i hlive => (hexact i hlive).mp

theorem AllInExact.congr (hexact : AllInExact seats h)
    (hlive : ∀ i, inHandNotFolded h' i = true → inHandNotFolded h i = true)
    (hallIn : h'.allIn = h.allIn) (hstack : ∀ i, inHandNotFolded h i = true →
      (seats' i).stack = (seats i).stack) : AllInExact seats' h' := by
  intro i hi
  rw [hallIn, hstack i (hlive i hi)]
  exact hexact i (hlive i hi)

theorem commitChips_exact (hexact : AllInExact seats h)
    (hok : commitChips seats h seat amount = .ok (seats', h')) : AllInExact seats' h' := by
  obtain ⟨rfl, rfl⟩ := commitChips_ok hok
  intro i hlive
  have hbefore := hexact i hlive
  by_cases hi : i = seat
  · subst hi
    by_cases hzero : (seats i).stack - amount = 0
    · simp [hzero]
    · simp only [hzero, if_false, Function.update_self, iff_false]
      intro hallIn
      have hempty := hbefore.mp hallIn
      omega
  · rw [Function.update_of_ne hi]
    split
    · simpa [hi] using hbefore
    · exact hbefore

theorem performAction_exact {action : Action} (hlive : inHandNotFolded h seat = true)
    (hexact : AllInExact seats h)
    (hok : performAction params seats h seat action amount = .ok (seats', h')) :
    AllInExact seats' h' := by
  have hkept := (performAction_moves hlive hok).live
  cases performAction_cases hok with
  | fold => exact hexact.congr hkept rfl fun _ _ => rfl
  | check _ => exact hexact
  | call _ hcommit =>
    have hpaid := commitChips_exact hexact hcommit
    exact hpaid
  | bet hbet | raise hbet =>
    obtain ⟨_, _, _, _, _, hcommit⟩ := applyBetTo_ok hbet
    exact commitChips_exact (by exact hexact) hcommit

theorem returnUncalledStreetExcess_exact (hexact : AllInExact seats h)
    (hok : returnUncalledStreetExcess seats h = .ok (seats', h')) :
    AllInExact seats' h' := by
  cases returnUncalledStreetExcess_cases hok with
  | same => exact hexact
  | refund maxSeat hpos _ _ =>
    intro i hlive
    by_cases hi : i = maxSeat
    · subst hi
      simp only [Function.update_self, Bool.false_eq_true, false_iff]
      omega
    · simpa [hi] using hexact i hlive

/-! ## Whose turn it is -/

structure TurnValid (seats : Seats) (h : Hand) : Prop where
  allIn : AllInExact seats h
  onAction : h.inRound → ∀ i, h.actionOn = some i → needsToAct h i = true
  opened : h.phase = .betting → h.actionOn ≠ none
  deadline : h.phase = .betting → 0 < h.actionDeadline
  seated : ∀ i, inHandNotFolded h i = true → (seats i).player ≠ ""

theorem setActionDeadline_pos {block : Block}
    (hok : setActionDeadlineIfBetting params h block.unix = .ok h')
    (hphase : h'.phase = .betting) (hopen : h'.actionOn ≠ none) :
    0 < h'.actionDeadline := by
  unfold setActionDeadlineIfBetting at hok
  split at hok
  · rename_i hout
    cases hok
    exact absurd hout (not_or.mpr ⟨not_not.mpr hphase, hopen⟩)
  · simp only [ok_iff] at hok
    obtain ⟨deadline, hadd, rfl⟩ := hok
    have hadd := addInt64AndU64Checked_ok hadd
    have hnow := block.unix_pos
    simp only
    omega

theorem HandStep.deadline_pos (hstep : HandStep params seats h seats' (some h'))
    (hphase : h'.phase = .betting) (hopen : h'.actionOn ≠ none) : 0 < h'.actionDeadline := by
  rcases hstep.set with ⟨rfl, _, hok⟩ | ⟨next, _, _, hset⟩
  · exact setActionDeadline_pos hok hphase hopen
  · simp only [setDeadlines, ok_iff] at hset
    obtain ⟨_, _, hok⟩ := hset
    exact setActionDeadline_pos hok hphase hopen

def TurnOpen (h : Hand) : Prop :=
  (h.inRound → ∀ i, h.actionOn = some i → needsToAct h i = true) ∧
    (h.phase = .betting → h.actionOn ≠ none)

theorem TurnOpen.of_not_inRound (hout : ¬ h.inRound) : TurnOpen h :=
  ⟨fun hin => absurd hin hout, fun hbetting => absurd (Or.inr hbetting) hout⟩

theorem TurnValid.reseated (hvalid : TurnValid seats h)
    (hkept : SeatsKept params h seats seats') : TurnValid seats' h := by
  constructor
  case allIn =>
    exact hvalid.allIn.congr (fun _ hi => hi) rfl fun i hi => (hkept.live i hi).2.1
  case onAction => exact hvalid.onAction
  case opened => exact hvalid.opened
  case deadline => exact hvalid.deadline
  case seated =>
    intro i hlive
    rw [(hkept.live i hlive).1]
    exact hvalid.seated i hlive

section

variable (hvalid : TurnValid seats h)
include hvalid

theorem HandChange.turnOpen (hchange : HandChange params seats h seats' h') :
    AllInExact seats' h' ∧ TurnOpen h' := by
  have hexact := hvalid.allIn
  have hround := fun hbefore => hchange.round hbefore
  cases hchange with
  | @turn _ middle _ _ _ hacted hincomplete =>
    obtain ⟨i, hneeds⟩ := (streetComplete_eq_false_iff middle).mp hincomplete
    have hmiddle := performAction_exact hacted.live hexact hacted.performed
    exact ⟨hmiddle, fun _ j hj => nextActiveToAct_needs hj,
      fun _ => nextActiveToAct_ne_none _ hneeds⟩
  | @close _ _ _ settled _ _ _ hacted hexcess =>
    have hmiddle := performAction_exact hacted.live hexact hacted.performed
    have hsettled := returnUncalledStreetExcess_exact hmiddle hexcess
    exact ⟨hsettled, .of_not_inRound (awaitPhase_not_inRound settled.street rfl)⟩
  | card htarget _ | await htarget | resume htarget _ =>
    have hnext := hround (.of_not_inRound hexact.empty (boardTarget_not_inRound htarget))
    exact ⟨hexact, hnext.onAction, hnext.opened⟩
  | @hole cardID _ seat holeIdx hphase _ =>
    have hstack := (revealHole_credits seats seat holeIdx cardID).2
    exact ⟨hexact.congr (fun _ hi => hi) rfl fun i _ => hstack i,
      .of_not_inRound (awaitPhase_not_inRound .river hphase)⟩
  | deal hphase _ =>
    have hneeds := hvalid.onAction (Or.inl hphase)
    refine ⟨hexact, fun _ => hneeds, ?_⟩
    intro hbetting hnone
    simp only at hbetting hnone
    rw [if_pos hnone] at hbetting
    cases hbetting

theorem HandStep.turnOpen (hstep : HandStep params seats h seats' (some h')) :
    AllInExact seats' h' ∧ TurnOpen h' := by
  rcases hstep.change with ⟨rfl, _, rfl⟩ | ⟨next, _, _, _, hchange, rfl⟩
  · exact ⟨hvalid.allIn, hvalid.onAction, hvalid.opened⟩
  · have hnext := hchange.turnOpen hvalid
    exact hnext

theorem HandStep.turn (hstep : HandStep params seats h seats' (some h')) : TurnValid seats' h' := by
  have hmoves := hstep.moves
  obtain ⟨hexact, honAction, hopened⟩ := hstep.turnOpen hvalid
  constructor
  case allIn => exact hexact
  case onAction => exact honAction
  case opened => exact hopened
  case deadline => exact fun hphase => hstep.deadline_pos hphase (hopened hphase)
  case seated =>
    intro i hlive
    rw [hmoves.keeps.owners.player i]
    exact hvalid.seated i (hmoves.live i hlive)

theorem TurnValid.withDealer (dealer : DealerMeta) : TurnValid seats { h with dealer := dealer } :=
  ⟨hvalid.allIn, hvalid.onAction, hvalid.opened, hvalid.deadline, hvalid.seated⟩

end

theorem freshHand_exact (handId : Nat) (params : TableParams) (seats : Seats)
    (button : Option SeatIdx) (sb bb : SeatIdx) :
    AllInExact seats (freshHand handId params seats button sb bb) := by
  intro i hlive
  have hpos : 0 < (seats i).stack := by
    simp only [inHandNotFolded, freshHand, Bool.and_eq_true, decide_eq_true_eq] at hlive
    exact hlive.1
  constructor
  · intro hmarked
    cases hmarked
  · intro hzero
    omega

theorem startHandOn_turn (hok : startHandOn t = .ok t')
    (hvacant : ∀ i, (t.seats i).player = "" → (t.seats i).stack = 0)
    (hhand : t'.hand = some h) : TurnValid t'.seats h := by
  have hkept := startHandOn_kept hok hvacant h hhand
  obtain ⟨hphase, -, -⟩ := startHandOn_unplayed hok hhand
  obtain ⟨sb, bb, seats, h₁, seats', h₂, _, hsmall, hbig, rfl⟩ := startHandOn_ok hok
  cases hhand
  have hidle : ¬ (openedHand t.params h₂ bb).phase = .betting := by simp [hphase]
  have hexact : AllInExact seats' h₂ :=
    commitChips_exact (commitChips_exact (freshHand_exact _ _ _ _ _ _)
      (postBlindCommit_ok hsmall).2) (postBlindCommit_ok hbig).2
  constructor
  case allIn => exact hexact
  case onAction => exact fun _ i hi => nextActiveToAct_needs hi
  case opened => exact fun hbetting => absurd hbetting hidle
  case deadline => exact fun hbetting => absurd hbetting hidle
  case seated =>
    intro i hlive
    have hin : (openedHand t.params h₂ bb).inHand i = true := by
      simp only [inHandNotFolded, Bool.and_eq_true] at hlive
      exact hlive.1
    exact hkept.occupied hin rfl

def TableTurns (t : Table) : Prop := ∀ h, t.hand = some h → TurnValid t.seats h

theorem turnValid_kept : KeptByHands fun _ => TurnValid :=
  ⟨HandStep.turn, fun hvalid hkept => hvalid.reseated (hkept hvalid.seated)⟩

theorem TableEffect.turns {m : Msg env} {deposit withdrawal : Nat}
    (heffect : TableEffect t m t' deposit withdrawal)
    (hvacant : ∀ i, (t.seats i).player = "" → (t.seats i).stack = 0)
    (hturns : TableTurns t) : TableTurns t' :=
  heffect.hands turnValid_kept hturns
    (fun _ _ _ _ hstart hh => startHandOn_turn hstart hvacant hh)
    fun _ dealer _ hvalid _ _ => hvalid.withDealer dealer

theorem reachable_turns {balances : env.bank.Balances} {messages : List (Msg env)} {tid : Nat}
    (hget : (run handle (State.genesis env balances) messages).getTable tid = some t) :
    TableTurns t :=
  run_tables (P := TableTurns) (fun _ _ _ _ hnone => (nomatch hnone))
    (fun _ hturns => InnerStep.normalize.hands turnValid_kept hturns)
    (fun _ _ hget hturns heffect => heffect.turns (getTable_vacant hget) hturns)
    (stepsMeet_of_forall (fun _ _ _ => trivial) messages) hget

end OnChainPoker.Poker
