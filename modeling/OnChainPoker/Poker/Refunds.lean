import OnChainPoker.Foundation.Circle
import OnChainPoker.Poker.Turns

/-!
# Uncalled chips

At the end of a street the seat that alone has put in the most gets the excess
back.  Where the big blind covers the small blind, such a seat was still in the
hand when the last action was taken, so its player is there to be paid: whoever
folds has put in no more than the bet level, and the level is held by a player
who does not fold before the street ends.
-/

namespace OnChainPoker.Poker

open Foundation

variable {env : Env} {params : TableParams} {seats seats' : Seats} {h h' : Hand}
  {actor i seat : SeatIdx} {action : Action} {amount : Nat} {t : Table}

/-! ## What an action changes -/

theorem performAction_quiet (hquiet : action.isQuiet = true)
    (hok : performAction params seats h seat action amount = .ok (seats', h')) :
    h'.betTo = h.betTo ∧ h'.intervalId = h.intervalId ∧ h'.bigBlindSeat = h.bigBlindSeat ∧
      ∀ i, i ≠ seat → h'.folded i = h.folded i ∧ h'.allIn i = h.allIn i ∧
        h'.lastIntervalActed i = h.lastIntervalActed i ∧
        h'.streetCommit i = h.streetCommit i := by
  cases performAction_cases hok with
  | fold =>
    refine ⟨rfl, rfl, rfl, fun i hi => ⟨?_, rfl, ?_, rfl⟩⟩
    · exact Function.update_of_ne hi _ _
    · exact Function.update_of_ne hi _ _
  | check _ =>
    refine ⟨rfl, rfl, rfl, fun i hi => ⟨rfl, rfl, ?_, rfl⟩⟩
    exact Function.update_of_ne hi _ _
  | call _ hcommit =>
    obtain ⟨_, rfl⟩ := commitChips_ok hcommit
    refine ⟨rfl, rfl, rfl, fun i hi => ⟨rfl, ?_, ?_, ?_⟩⟩
    · simp only [markActed]
      split
      · exact Function.update_of_ne hi _ _
      · rfl
    · exact Function.update_of_ne hi _ _
    · exact Function.update_of_ne hi _ _
  | bet _ | raise _ => cases hquiet

theorem performAction_loud (hloud : action.isQuiet = false)
    (hok : performAction params seats h seat action amount = .ok (seats', h')) :
    h.betTo < h'.betTo ∧ h'.streetCommit seat = h'.betTo ∧
      h'.lastIntervalActed seat = int32 h'.intervalId ∧
      ∀ i, i ≠ seat → h'.streetCommit i = h.streetCommit i := by
  cases performAction_cases hok with
  | fold | check _ | call _ _ => cases hloud
  | bet hbet | raise hbet =>
    obtain ⟨_, _, hmore, hraises, _, hcommit⟩ := applyBetTo_ok hbet
    obtain ⟨_, rfl⟩ := commitChips_ok hcommit
    refine ⟨hraises, ?_, ?_, ?_⟩
    · simp only [markActed, Function.update_self]
      omega
    · simp [markActed]
    · intro i hi
      simp [markActed, hi]

theorem performAction_live (hstays : i ≠ seat ∨ action ≠ .fold)
    (hok : performAction params seats h seat action amount = .ok (seats', h')) :
    inHandNotFolded h' i = inHandNotFolded h i := by
  cases performAction_cases hok with
  | fold =>
    have hi := hstays.resolve_right (by simp)
    simp [inHandNotFolded, applyFold, markActed, hi]
  | check _ => rfl
  | call _ hcommit =>
    obtain ⟨_, rfl⟩ := commitChips_ok hcommit
    rfl
  | bet hbet | raise hbet =>
    obtain ⟨_, _, _, _, _, hcommit⟩ := applyBetTo_ok hbet
    obtain ⟨_, rfl⟩ := commitChips_ok hcommit
    rfl

theorem performAction_levels
    (hok : performAction params seats h seat action amount = .ok (seats', h')) :
    h.betTo ≤ h'.betTo ∧ ∀ i, i ≠ seat → h'.streetCommit i = h.streetCommit i := by
  cases hquiet : action.isQuiet with
  | true =>
    obtain ⟨hbetTo, _, _, hothers⟩ := performAction_quiet hquiet hok
    exact ⟨hbetTo.ge, fun i hi => (hothers i hi).2.2.2⟩
  | false =>
    obtain ⟨hlt, _, _, hothers⟩ := performAction_loud hquiet hok
    exact ⟨hlt.le, hothers⟩

theorem performAction_commit_le (hlevel : h.streetCommit seat ≤ h.betTo)
    (hok : performAction params seats h seat action amount = .ok (seats', h'))
    (i : SeatIdx) : h.streetCommit i ≤ h'.streetCommit i := by
  by_cases hi : i = seat
  · subst hi
    cases action with
    | fold => cases hok; exact Nat.le_refl _
    | check =>
      simp only [performAction, applyCheck, ok_iff, Prod.mk.injEq] at hok
      obtain ⟨_, ⟨_, _, rfl⟩, rfl, rfl⟩ := hok
      exact Nat.le_refl _
    | call =>
      simp only [performAction, applyCall, ok_iff, Prod.mk.injEq] at hok
      obtain ⟨_, _, ⟨_, paid⟩, hcommit, rfl, rfl⟩ := hok
      obtain ⟨_, rfl⟩ := commitChips_ok hcommit
      simp [markActed]
    | bet | raise =>
      have hleads := performAction_loud rfl hok
      omega
    | other text => cases hok
  · exact ((performAction_levels hok).2 i hi).ge

theorem performAction_quiet_rests (hquiet : action.isQuiet = true)
    (hlevel : h.streetCommit seat ≤ h.betTo)
    (hok : performAction params seats h seat action amount = .ok (seats', h')) :
    needsToAct h' seat = false := by
  cases action with
  | fold => exact performAction_needs_self (Or.inr rfl) hlevel hok
  | check => exact performAction_needs_self (Or.inl rfl) hlevel hok
  | call =>
    simp only [performAction, applyCall, ok_iff, Prod.mk.injEq] at hok
    obtain ⟨_, _, ⟨_, paid⟩, hcommit, rfl, rfl⟩ := hok
    obtain ⟨rfl, rfl⟩ := commitChips_ok hcommit
    -- either the whole call is paid or the stack is empty
    by_cases hshort : (seats seat).stack - min (toCall h seat) (seats seat).stack = 0
    · simp [needsToAct, markActed, hshort]
    · have hpaid : min (toCall h seat) (seats seat).stack = toCall h seat := by
        omega
      have heq : h.streetCommit seat + toCall h seat = h.betTo := by
        unfold toCall
        omega
      simp [needsToAct, markActed, hpaid, heq]
  | bet | raise | other text => cases hquiet

/-! ## Who holds the bet level -/

def FoldedBelow (h : Hand) : Prop :=
  ∀ i, inHandNotFolded h i = false → h.streetCommit i ≤ h.betTo

/-- Of those who need to act the seat on action comes first after the big blind,
so the big blind comes last. -/
def BlindLast (h : Hand) : Prop :=
  ∀ actor i, h.actionOn = some actor → needsToAct h i = true →
    Circle.gap h.bigBlindSeat actor ≤ Circle.gap h.bigBlindSeat i

/-- The bet level is held by a player who will not fold before the street ends:
one who is all-in, one who has acted since the last full raise, or the big blind
with everybody else before them. -/
def Backed (h : Hand) : Prop :=
  0 < h.betTo → ∃ i, inHandNotFolded h i = true ∧ h.betTo ≤ h.streetCommit i ∧
    (h.allIn i = true ∨ h.lastIntervalActed i = int32 h.intervalId ∨
      (i = h.bigBlindSeat ∧ BlindLast h))

structure BetValid (h : Hand) : Prop where
  level : h.inRound → LevelCovers h
  folded : h.inRound → FoldedBelow h
  backed : h.inRound → Backed h

theorem BetValid.of_not_inRound (hout : ¬ h.inRound) : BetValid h :=
  ⟨fun hin => absurd hin hout, fun hin => absurd hin hout, fun hin => absurd hin hout⟩

theorem blindLast_next (hlater : ∀ i, needsToAct h i = true →
      Circle.gap h.bigBlindSeat actor < Circle.gap h.bigBlindSeat i) :
    BlindLast { h with actionOn := nextActiveToAct h (some actor) } := by
  intro next i hnext hneeds
  have hfirst : Circle.next (needsToAct h) actor = some next := hnext
  obtain ⟨hnextNeeds, hnearest⟩ := Circle.next_eq_some_iff.mp hfirst
  have hi := Circle.gap_add (hlater i hneeds)
  have hn := Circle.gap_add (hlater next hnextNeeds)
  have hle := hnearest i hneeds
  simp only
  omega

theorem holder_on_action (hlevel : LevelCovers h) (hactor : h.actionOn = some actor)
    (hneeds : needsToAct h actor = true) (hholds : h.betTo ≤ h.streetCommit actor)
    (hreason : h.allIn actor = true ∨ h.lastIntervalActed actor = int32 h.intervalId ∨
      (actor = h.bigBlindSeat ∧ BlindLast h)) (hi : i ≠ actor) :
    needsToAct h i = false := by
  obtain ⟨hlive, hallIn⟩ := needsToAct_eligible hneeds
  have heq : h.streetCommit actor = h.betTo := Nat.le_antisymm (hlevel actor hlive hallIn) hholds
  have hin : h.inHand actor = true ∧ h.folded actor = false := by
    simpa [inHandNotFolded] using hlive
  rcases hreason with hmarked | hacted | ⟨rfl, hlast⟩
  · rw [hmarked] at hallIn
    cases hallIn
  · simp [needsToAct, hin, hallIn, hacted, heq] at hneeds
  · cases hother : needsToAct h i with
    | false => rfl
    | true =>
      have hle := hlast _ i hactor hother
      have hlt := Circle.gap_lt h.bigBlindSeat i
      have hself := Circle.gap_self h.bigBlindSeat
      have hsame : Circle.gap h.bigBlindSeat i =
          Circle.gap h.bigBlindSeat h.bigBlindSeat := by omega
      exact absurd (Circle.gap_injective _ hsame) hi

theorem performAction_quiet_backed (hquiet : action.isQuiet = true) (hlevel : LevelCovers h)
    (hbacked : Backed h) (hactor : h.actionOn = some actor) (hneeds : needsToAct h actor = true)
    (hok : performAction params seats h actor action amount = .ok (seats', h'))
    (hopen : streetComplete h' = false) :
    Backed { h' with actionOn := nextActiveToAct h' (some actor) } := by
  intro hpos
  obtain ⟨hlive, hallIn⟩ := needsToAct_eligible hneeds
  have hlevelActor := hlevel actor hlive hallIn
  obtain ⟨hbetTo, hinterval, hblind, hothers⟩ := performAction_quiet hquiet hok
  have hmoves := performAction_moves hlive hok
  have hrest := performAction_quiet_rests hquiet hlevelActor hok
  have hneedsOther : ∀ i, needsToAct h' i = true → i ≠ actor ∧ needsToAct h i = true := by
    intro i hi
    have hne : i ≠ actor := by
      rintro rfl
      rw [hrest] at hi
      cases hi
    exact ⟨hne, by rwa [performAction_needs_of_ne hquiet hne hok] at hi⟩
  obtain ⟨i, hi, hholds, hreason⟩ := hbacked (by rwa [← hbetTo])
  have hne : i ≠ actor := by
    rintro rfl
    -- then nobody else needs to act, and the street would be over
    obtain ⟨j, hj⟩ := (streetComplete_eq_false_iff h').mp hopen
    obtain ⟨hji, hjneeds⟩ := hneedsOther j hj
    rw [holder_on_action hlevel hactor hneeds hholds hreason hji] at hjneeds
    cases hjneeds
  obtain ⟨hfolded, hmarked, hacted, hcommit⟩ := hothers i hne
  refine ⟨i, ?_, ?_, ?_⟩
  · simp only [inHandNotFolded] at hi ⊢
    rwa [hmoves.inHand, hfolded]
  · simp only
    rwa [hbetTo, hcommit]
  · rcases hreason with hmark | hact | ⟨hbb, hlast⟩
    · exact Or.inl (hmarked.trans hmark)
    · have hact' : h'.lastIntervalActed i = int32 h'.intervalId := by
        rw [hacted, hinterval]
        exact hact
      exact Or.inr (Or.inl hact')
    · have hlater : ∀ j, needsToAct h' j = true →
          Circle.gap h'.bigBlindSeat actor < Circle.gap h'.bigBlindSeat j := by
        intro j hj
        obtain ⟨hja, hjneeds⟩ := hneedsOther j hj
        rw [hblind]
        apply lt_of_le_of_ne (hlast actor j hactor hjneeds)
        intro hsame
        have hsame := Circle.gap_injective h.bigBlindSeat hsame
        exact hja hsame.symm
      have hnext := blindLast_next hlater
      exact Or.inr (Or.inr ⟨hbb.trans hblind.symm, hnext⟩)

theorem performAction_backed (hlevel : LevelCovers h) (hbacked : Backed h)
    (hactor : h.actionOn = some actor) (hneeds : needsToAct h actor = true)
    (hok : performAction params seats h actor action amount = .ok (seats', h'))
    (hopen : streetComplete h' = false) :
    Backed { h' with actionOn := nextActiveToAct h' (some actor) } := by
  cases hquiet : action.isQuiet with
  | true => exact performAction_quiet_backed hquiet hlevel hbacked hactor hneeds hok hopen
  | false =>
    obtain ⟨_, hholds, hacted, _⟩ := performAction_loud hquiet hok
    intro _
    have hstays : action ≠ .fold := by
      rintro rfl
      cases hquiet
    refine ⟨actor, ?_, hholds.ge, Or.inr (Or.inl hacted)⟩
    exact (performAction_live (Or.inr hstays) hok).trans (needsToAct_eligible hneeds).1

theorem performAction_foldedBelow (hlevel : h.streetCommit actor ≤ h.betTo)
    (hbelow : FoldedBelow h) (hlive : inHandNotFolded h actor = true)
    (hok : performAction params seats h actor action amount = .ok (seats', h')) :
    FoldedBelow h' := by
  obtain ⟨hbetTo, hothers⟩ := performAction_levels hok
  intro i hout
  by_cases hi : i = actor
  · subst hi
    by_cases hfold : action = .fold
    · subst hfold
      cases hok
      exact hlevel
    · rw [performAction_live (Or.inr hfold) hok, hlive] at hout
      cases hout
  · rw [performAction_live (Or.inl hi) hok] at hout
    rw [hothers i hi]
    exact (hbelow i hout).trans hbetTo

/-! ## Steps and runs -/

theorem HandStep.bets (hturn : TurnValid seats h) (hbets : BetValid h)
    (hstep : HandStep params seats h seats' (some h')) : BetValid h' := by
  rcases hstep.change with ⟨rfl, _, rfl⟩ | ⟨next, _, _, _, hchange, rfl⟩
  · exact ⟨hbets.level, hbets.folded, hbets.backed⟩
  suffices hnext : BetValid next from ⟨hnext.level, hnext.folded, hnext.backed⟩
  cases hchange with
  | @turn _ middle actor _ _ hacted hincomplete =>
    have hin : h.inRound := Or.inr hacted.phase
    have hlevel := hbets.level hin
    have hneeds := hturn.onAction hin actor hacted.onAction
    obtain ⟨_, hlevel'⟩ := performAction_round hturn.allIn.empty hlevel hacted.performed
    have hbelow := performAction_foldedBelow (hlevel actor hacted.live hacted.chips)
      (hbets.folded hin) hacted.live hacted.performed
    have hmiddle : middle.actionOn = some actor := by
      rw [performAction_sameRound hacted.performed]
      exact hacted.onAction
    have hbacked := performAction_backed hlevel (hbets.backed hin) hacted.onAction hneeds
      hacted.performed hincomplete
    rw [← hmiddle] at hbacked
    exact ⟨fun _ => hlevel', fun _ => hbelow, fun _ => hbacked⟩
  | close | await => exact .of_not_inRound (awaitPhase_not_inRound _ rfl)
  | card htarget _ =>
    have hout := boardTarget_not_inRound htarget
    exact .of_not_inRound hout
  | resume =>
    constructor
    case level => exact fun _ _ _ _ => Nat.zero_le _
    case folded => exact fun _ _ _ => Nat.zero_le _
    case backed => exact fun _ hpos => absurd hpos (Nat.lt_irrefl 0)
  | hole hphase _ => exact .of_not_inRound (awaitPhase_not_inRound .river hphase)
  | deal hphase _ =>
    have hin : h.inRound := Or.inl hphase
    have hlevel := hbets.level hin
    have hfolded := hbets.folded hin
    have hbacked := hbets.backed hin
    exact ⟨fun _ => hlevel, fun _ => hfolded, fun _ => hbacked⟩

variable {t' : Table} {s : State env} {m : Msg env} {tid : Nat}

theorem startHandOn_bets (hok : startHandOn t = .ok t') (hparams : ParamsValid t.params)
    (hcovered : BlindsCovered t) (hhand : t'.hand = some h) : BetValid h := by
  obtain ⟨sb, bb, seats, h₁, seats', h₂, hseats, hsmall, hbig, rfl⟩ := startHandOn_ok hok
  cases hhand
  have hcovers : t.params.smallBlind < (clearHoles t.seats sb).stack →
      t.params.smallBlind ≤ (clearHoles t.seats bb).stack :=
    hcovered sb bb hseats
  have hlevel := fun hzero => blinds_level hparams.blinds hcovers hzero hsmall hbig
  specialize hlevel fun _ => rfl
  obtain ⟨hsb, hsmall⟩ := postBlindCommit_ok hsmall
  obtain ⟨hbb, hbig⟩ := postBlindCommit_ok hbig
  obtain ⟨_, rfl⟩ := commitChips_ok hsmall
  obtain ⟨_, rfl⟩ := commitChips_ok hbig
  generalize hfresh : freshHand t.nextHandId t.params (clearHoles t.seats)
    (advanceButton t) sb bb = fresh at *
  have hfolded : ∀ i, fresh.folded i = false := by
    subst hfresh
    exact fun _ => rfl
  have hzero : ∀ i, fresh.streetCommit i = 0 := by
    subst hfresh
    exact fun _ => rfl
  have hblind : fresh.bigBlindSeat = bb := by
    subst hfresh
    rfl
  constructor
  case level => exact fun _ i _ hallIn => hlevel i hallIn
  case folded =>
    intro _ i hout
    have hin : fresh.inHand i = false := by simpa [inHandNotFolded, openedHand, hfolded] using hout
    have hsmallSeat : i ≠ sb := by
      rintro rfl
      cases hin.symm.trans hsb
    have hbigSeat : i ≠ bb := by
      rintro rfl
      cases hin.symm.trans hbb
    simp [openedHand, hsmallSeat, hbigSeat, hzero]
  case backed =>
    intro _ _
    refine ⟨bb, ?_, Nat.le_refl _, Or.inr (Or.inr ⟨hblind.symm, ?_⟩)⟩
    · have hin : fresh.inHand bb = true := hbb
      simp [inHandNotFolded, openedHand, hin, hfolded]
    · intro actor i hactor hneeds
      have hfirst := Circle.next_eq_some_iff.mp hactor
      rw [hblind]
      exact hfirst.2 i hneeds

/-- Every hand is started with a big blind that covers the small one. -/
def KeepsBlinds (s : State env) : Msg env → Prop
  | .startHand _ req => ∀ t ∈ s.getTable req.tableId, BlindsCovered t
  | _ => True

instance (s : State env) (m : Msg env) : Decidable (KeepsBlinds s m) := by
  unfold KeepsBlinds
  exact match m with
  | .createTable .. | .sit .. | .startHand .. | .act .. | .tick .. | .leave .. | .rebuy ..
  | .abortHandRefundAllCommits .. | .applyDealerReveal .. | .advanceAfterHoleSharesReady ..
  | .dealerInitHand .. | .dealerFinalizeDeck .. | .otherTransaction .. => inferInstance

structure TableBets (t : Table) : Prop where
  standing : TableStanding t
  turns : TableTurns t
  bets : ∀ h, t.hand = some h → BetValid h

theorem betValid_kept : KeptByHands fun _ seats h => TurnValid seats h ∧ BetValid h := by
  constructor
  · rintro _ _ _ _ _ ⟨hturn, hbets⟩ hstep
    exact ⟨hstep.turn hturn, hstep.bets hturn hbets⟩
  · rintro _ _ _ _ ⟨hturn, hbets⟩ hkept
    exact ⟨hturn.reseated (hkept hturn.seated), hbets⟩

theorem TableEffect.bets {deposit withdrawal : Nat} (hkeeps : KeepsBlinds s m)
    (hmsg : m.tableId = some tid) (hget : s.getTable tid = some t) (hbets : TableBets t)
    (heffect : TableEffect t m t' deposit withdrawal) :
    TableBets t' := by
  have hhands := heffect.hands betValid_kept (fun h hh => ⟨hbets.turns h hh, hbets.bets h hh⟩) ?_ ?_
  · exact ⟨heffect.standing hget hbets.standing, fun h hh => (hhands h hh).1,
      fun h hh => (hhands h hh).2⟩
  · rintro block req h rfl hstart hh
    cases hmsg
    exact ⟨startHandOn_turn hstart (getTable_vacant hget) hh,
      startHandOn_bets hstart hbets.standing.params (hkeeps t hget) hh⟩
  · rintro h dealer - ⟨hturn, hbets⟩ - -
    exact ⟨hturn.withDealer dealer, hbets.level, hbets.folded, hbets.backed⟩

theorem reachable_bets {balances : env.bank.Balances} {messages : List (Msg env)}
    (hmeet : AcceptedMeet handle KeepsBlinds (State.genesis env balances) messages)
    (hget : (run handle (State.genesis env balances) messages).getTable tid = some t) :
    TableBets t := by
  apply run_tables (P := TableBets) _ _ _ hmeet hget
  · intro id req hcfg
    exact ⟨⟨newTable_paramsValid hcfg, fun _ hne => absurd rfl hne, fun _ hnone => (nomatch hnone)⟩,
      fun _ hnone => (nomatch hnone), fun _ hnone => (nomatch hnone)⟩
  · exact fun t hbets => ⟨InnerStep.normalize.standing hbets.standing,
      InnerStep.normalize.hands turnValid_kept hbets.turns, hbets.bets⟩
  · exact fun hkeeps hmsg hget hbets heffect => heffect.bets hkeeps hmsg hget hbets

/-! ## The refund -/

theorem refunded_alone (hok : returnUncalledStreetExcess seats h = .ok (seats', h'))
    (hmore : (seats i).stack < (seats' i).stack) {j : SeatIdx} (hj : j ≠ i) :
    h.streetCommit j < h.streetCommit i := by
  cases returnUncalledStreetExcess_cases hok with
  | same => exact absurd hmore (Nat.lt_irrefl _)
  | refund maxSeat _ honly _ =>
    have hi : i = maxSeat := by
      by_contra hne
      rw [Function.update_of_ne hne] at hmore
      exact Nat.lt_irrefl _ hmore
    subst hi
    have hmax := le_maxCommitThisStreet_of_filter honly
    have hle := streetCommit_le_max h j
    have hne : h.streetCommit j ≠ maxCommitThisStreet h := by
      intro heq
      have hmem : j ∈ (List.finRange 9).filter
          fun k => h.streetCommit k = maxCommitThisStreet h := by
        simp [heq]
      rw [honly, List.mem_singleton] at hmem
      exact hj hmem
    omega

/-- What `returnUncalledStreetExcess` credits to a seat when an action ends the
street or the hand. -/
def actionRefund (params : TableParams) (seats : Seats) (h : Hand)
    (action : Action) (amount : Nat) (i : SeatIdx) : Nat :=
  h.actionOn.elim 0 fun actor =>
    match performAction params seats h actor action amount with
    | .error _ => 0
    | .ok (seats, h) =>
      if countNotFolded h = 0 ∨ (2 ≤ countNotFolded h ∧ streetComplete h = false) then 0
      else
        match returnUncalledStreetExcess seats h with
        | .error _ => 0
        | .ok (seats', _) => (seats' i).stack - (seats i).stack

def refundAt (s : State env) (m : Msg env) (i : SeatIdx) : Nat :=
  match m with
  | .act _ req => (bettingTable s req.tableId).elim 0 fun th =>
    actionRefund th.1.params th.1.seats th.2 (Action.ofString req.action) req.amount i
  | .tick _ req => (bettingTable s req.tableId).elim 0 fun th =>
    th.2.actionOn.elim 0 fun actor =>
      actionRefund th.1.params
        (Function.update th.1.seats actor (slashSeat th.1.params (th.1.seats actor)))
        th.2 (defaultAction th.2 actor) 0 i
  | _ => 0

theorem actionRefund_pos (hpos : 0 < actionRefund params seats h action amount i) :
    ∃ actor seats' middle, h.actionOn = some actor ∧
      performAction params seats h actor action amount = .ok (seats', middle) ∧
      ∀ j, j ≠ i → middle.streetCommit j < middle.streetCommit i := by
  unfold actionRefund at hpos
  cases hactor : h.actionOn with
  | none => simp [hactor] at hpos
  | some actor =>
    rw [hactor, Option.elim_some] at hpos
    split at hpos
    · exact absurd hpos (Nat.lt_irrefl 0)
    · rename_i seats' middle hperform
      split at hpos
      · exact absurd hpos (Nat.lt_irrefl 0)
      · split at hpos
        · exact absurd hpos (Nat.lt_irrefl 0)
        · rename_i hreturn
          refine ⟨actor, seats', middle, rfl, hperform, fun j hj => ?_⟩
          exact refunded_alone hreturn (by omega) hj

theorem refunded_live {seats seats₀ : Seats} (hphase : h.phase = .betting)
    (hturn : TurnValid seats₀ h) (hbets : BetValid h)
    (hpos : 0 < actionRefund params seats h action amount i) :
    inHandNotFolded h i = true := by
  obtain ⟨actor, seats', middle, hactor, hperform, halone⟩ := actionRefund_pos hpos
  have hin : h.inRound := Or.inr hphase
  have hneeds := hturn.onAction hin actor hactor
  obtain ⟨hlive, hallIn⟩ := needsToAct_eligible hneeds
  have hlevel := hbets.level hin actor hlive hallIn
  cases hi : inHandNotFolded h i with
  | true => rfl
  | false =>
    exfalso
    have hne : i ≠ actor := by
      rintro rfl
      rw [hlive] at hi
      cases hi
    have hbelow := hbets.folded hin i hi
    have hsame := (performAction_levels hperform).2 i hne
    by_cases hzero : h.betTo = 0
    · have hlt := halone actor (Ne.symm hne)
      omega
    · -- somebody still in the hand has put in at least as much
      obtain ⟨j, hj, hholds, _⟩ := hbets.backed hin (Nat.pos_of_ne_zero hzero)
      have hji : j ≠ i := by
        rintro rfl
        rw [hj] at hi
        cases hi
      have hlt := halone j hji
      have hle := performAction_commit_le hlevel hperform j
      omega

theorem refundAt_pos (hm : m.tableId = some tid) (hget : s.getTable tid = some t)
    (hpos : 0 < refundAt s m i) :
    ∃ h seats action amount, t.hand = some h ∧ h.phase = .betting ∧
      0 < actionRefund t.params seats h action amount i := by
  have hfind : ∀ {refund : Table × Hand → Nat},
      0 < (bettingTable s tid).elim 0 refund →
      ∃ h, t.hand = some h ∧ h.phase = .betting ∧ 0 < refund (t, h) := by
    intro refund hrefund
    cases hbetting : bettingTable s tid with
    | none => simp [hbetting] at hrefund
    | some th =>
      obtain ⟨t', h⟩ := th
      obtain ⟨hget', hhand, hphase⟩ := bettingTable_some hbetting
      rw [hget] at hget'
      cases hget'
      rw [hbetting, Option.elim_some] at hrefund
      exact ⟨h, hhand, hphase, hrefund⟩
  cases m with
  | act block req =>
    cases hm
    obtain ⟨h, hhand, hphase, hrefund⟩ := hfind hpos
    exact ⟨h, _, _, _, hhand, hphase, hrefund⟩
  | tick block req =>
    cases hm
    obtain ⟨h, hhand, hphase, hrefund⟩ := hfind hpos
    cases hactor : h.actionOn with
    | none => simp [hactor] at hrefund
    | some actor =>
      simp only [hactor, Option.elim_some] at hrefund
      exact ⟨h, _, _, _, hhand, hphase, hrefund⟩
  | _ => exact absurd hpos (Nat.lt_irrefl 0)

/-- In a run whose hands are started with a big blind that covers the small one,
chips that nobody called go back to the player who put them in: the seat is
occupied, by the player of the deal, who has not left. -/
theorem refund_to_owner (env : Env) (tid : Nat) (balances : env.bank.Balances)
    (messages : List (Msg env))
    (hmeet : AcceptedMeet handle KeepsBlinds (State.genesis env balances) messages)
    {t : Table}
    (hget : (dealRun env tid balances messages).1.getTable tid = some t)
    (m : Msg env) (hm : m.tableId = some tid) {i : SeatIdx}
    (hrefund : 0 < refundAt (dealRun env tid balances messages).1 m i) :
    let deal := (dealRun env tid balances messages).2
    (t.seats i).player ≠ "" ∧ deal.left i = false ∧
      (t.seats i).player = (deal.seats i).player := by
  intro deal
  obtain ⟨h, seats, action, amount, hhand, hphase, hpos⟩ := refundAt_pos hm hget hrefund
  have hkept := reachable_kept hget h hhand
  have hget' : (run handle (State.genesis env balances) messages).getTable tid =
      some t := by
    rw [← historyRun_state Deal.after Deal.none tid]
    exact hget
  have hbets := reachable_bets hmeet hget'
  have hturn := hbets.turns h hhand
  have hlive := refunded_live hphase hturn (hbets.bets h hhand) hpos
  have hin : h.inHand i = true := by
    simp only [inHandNotFolded, Bool.and_eq_true] at hlive
    exact hlive.1
  have hstays := hkept.stayed i hlive
  exact ⟨hturn.seated i hlive, hstays, hkept.occupant i hin hstays⟩

def uncalledRaiseRun : List (Msg ledgerEnv) :=
  dealtTo sampleTable [("A", 100), ("B", 100), ("C", 100)] ++
    [.act sampleBlock ⟨"A", 1, "raise", 20⟩, .act sampleBlock ⟨"B", 1, "fold", 0⟩]

theorem uncalledRaise_owner :
    ∃ t, (dealRun ledgerEnv 1 (0 : Nat) uncalledRaiseRun).1.getTable 1 = some t ∧
      refundAt (dealRun ledgerEnv 1 (0 : Nat) uncalledRaiseRun).1
        (.act sampleBlock ⟨"C", 1, "fold", 0⟩) 0 = 18 ∧
      (t.seats 0).player ≠ "" ∧
      (t.seats 0).player =
        ((dealRun ledgerEnv 1 (0 : Nat) uncalledRaiseRun).2.seats 0).player := by
  have hmeet : AcceptedMeet handle KeepsBlinds (State.genesis ledgerEnv (0 : Nat))
      uncalledRaiseRun := by
    unfold AcceptedMeet
    decide +kernel
  have hloaded : ((dealRun ledgerEnv 1 (0 : Nat) uncalledRaiseRun).1.getTable
      1).isSome = true := by
    decide +kernel
  have hrefund : refundAt (dealRun ledgerEnv 1 (0 : Nat) uncalledRaiseRun).1
      (.act sampleBlock ⟨"C", 1, "fold", 0⟩) 0 = 18 := by
    decide +kernel
  obtain ⟨t, hget⟩ := Option.isSome_iff_exists.mp hloaded
  obtain ⟨hne, _, howner⟩ := refund_to_owner ledgerEnv 1 (0 : Nat) uncalledRaiseRun
    hmeet hget (.act sampleBlock ⟨"C", 1, "fold", 0⟩) rfl
    (by rw [hrefund]; decide)
  exact ⟨t, hget, hrefund, hne, howner⟩

/-- Blinds 10 and 20; the big blind C has 5 chips, so the bet level is 5 with 10
chips of the small blind B on the table.  D calls, the button A goes all-in with
7, B folds and leaves. -/
def departedExcessRun : List (Msg ledgerEnv) :=
  dealtTo { sampleTable with smallBlind := 10, bigBlind := 20 }
    [("A", 7), ("B", 100), ("C", 5), ("D", 100)] ++
    [.act sampleBlock ⟨"D", 1, "call", 0⟩, .act sampleBlock ⟨"A", 1, "raise", 7⟩,
      .act sampleBlock ⟨"B", 1, "fold", 0⟩, .leave ⟨"B", 1⟩]

/-- The street ends with D's call, and the empty seat of B gets 3 chips, which
are erased when the table is stored. -/
theorem departedExcess_lost :
    ∃ t s' t' h',
      (dealRun ledgerEnv 1 (0 : Nat) departedExcessRun).1.getTable 1 = some t ∧
      refundAt (dealRun ledgerEnv 1 (0 : Nat) departedExcessRun).1
        (.act sampleBlock ⟨"D", 1, "call", 0⟩) 1 = 3 ∧
      (t.seats 1).player = "" ∧
      (dealRun ledgerEnv 1 (0 : Nat) departedExcessRun).2.left 1 = true ∧
      ((dealRun ledgerEnv 1 (0 : Nat) departedExcessRun).2.seats 1).player = "B" ∧
      handle (dealRun ledgerEnv 1 (0 : Nat) departedExcessRun).1
        (.act sampleBlock ⟨"D", 1, "call", 0⟩) = .ok s' ∧
      s'.getTable 1 = some t' ∧ t'.hand = some h' ∧
      (t'.seats 1).stack = 0 ∧ h'.totalCommit 1 = 7 := by
  have hbefore : ((dealRun ledgerEnv 1 (0 : Nat) departedExcessRun).1.getTable
      1).any (fun t => decide ((t.seats 1).player = "")) = true := by
    decide +kernel
  have hafter : (handle (dealRun ledgerEnv 1 (0 : Nat) departedExcessRun).1
      (.act sampleBlock ⟨"D", 1, "call", 0⟩)).toOption.any (fun s' =>
        (s'.getTable 1).any fun t' => t'.hand.any fun h' =>
          decide ((t'.seats 1).stack = 0 ∧ h'.totalCommit 1 = 7)) = true := by
    decide +kernel
  have hrefund : refundAt (dealRun ledgerEnv 1 (0 : Nat) departedExcessRun).1
        (.act sampleBlock ⟨"D", 1, "call", 0⟩) 1 = 3 ∧
      (dealRun ledgerEnv 1 (0 : Nat) departedExcessRun).2.left 1 = true ∧
      ((dealRun ledgerEnv 1 (0 : Nat) departedExcessRun).2.seats 1).player = "B" := by
    decide +kernel
  obtain ⟨t, hget, hplayer⟩ := (Option.any_eq_true _ _).mp hbefore
  obtain ⟨s', hok, hafter⟩ := (Option.any_eq_true _ _).mp hafter
  obtain ⟨t', hget', hafter⟩ := (Option.any_eq_true _ _).mp hafter
  obtain ⟨h', hhand, hfacts⟩ := (Option.any_eq_true _ _).mp hafter
  obtain ⟨hstack, hcommit⟩ := of_decide_eq_true hfacts
  exact ⟨t, s', t', h', hget, hrefund.1, of_decide_eq_true hplayer, hrefund.2.1,
    hrefund.2.2, toOption_eq_some.mp hok, hget', hhand, hstack, hcommit⟩

end OnChainPoker.Poker
