import OnChainPoker.Poker.BettingRound

/-!
# Tables whose betting rounds are sound

A table whose hands are started with chips within the range of the counters,
with a big blind that can cover the small blind, and with a deck large enough
for its players keeps the invariants of the betting round in every run.
-/

namespace OnChainPoker.Poker

open Foundation

variable {env : Env} {params : TableParams} {seats' : Seats} {h h' : Hand} {t t' : Table}

structure ParamsValid (params : TableParams) : Prop where
  blinds : params.smallBlind ≤ params.bigBlind
  actionTimeout : params.actionTimeoutSecs ≤ maxActionTimeoutSecs
  dealerTimeout : params.dealerTimeoutSecs ≤ maxDealerTimeoutSecs
  password : params.passwordHash ≠ [] → params.passwordHash.length = passwordCommitmentBytes

theorem newTable_paramsValid {id : Nat} {req : MsgCreateTable}
    (hok : checkTableCfg req = .ok ()) : ParamsValid (newTable id req).params := by
  simp only [checkTableCfg, checkPassword, exceedsLimit, ok_iff, not_or, not_lt,
    not_and, not_not] at hok
  obtain ⟨_, _, _, _, _, hblinds, _, _, _, _, _, _, _, _, _, _, _, ⟨_, _, _, hlength, _⟩,
    _, haction, _, hdealer, _⟩ := hok
  exact ⟨hblinds.2.2, haction, hdealer, hlength⟩

structure HandSound (params : TableParams) (seats : Seats) (h : Hand) :
    Prop where
  board : BoardValid h
  deck : DeckValid h
  chips : ChipsBounded params seats h
  round : RoundValid seats h
  seated : ∀ i, inHandNotFolded h i = true → (seats i).player ≠ ""

variable {seats : Seats} {tid : Nat}

theorem HandSound.reseated (hsound : HandSound params seats h)
    (hkept : SeatsKept params h seats seats') : HandSound params seats' h := by
  refine ⟨hsound.board, hsound.deck, hsound.chips.reseated hkept.stack, ?_, ?_⟩
  · refine ⟨?_, hsound.round.level, hsound.round.onAction, hsound.round.opened⟩
    intro i hlive hallIn
    rw [(hkept.live i hlive).2.1]
    exact hsound.round.allIn i hlive hallIn
  · intro i hlive
    rw [(hkept.live i hlive).1]
    exact hsound.seated i hlive

section

variable {seats : Seats} (hsound : HandSound params seats h)
include hsound

theorem HandStep.sound
    (hstep : HandStep params seats h seats' (some h')) : HandSound params seats' h' := by
  have hmoves := hstep.moves
  refine ⟨hstep.board hsound.board, hstep.deck hsound.deck,
    hsound.chips.moves hmoves, hstep.round hsound.round, ?_⟩
  intro i hlive
  rw [hmoves.keeps.owners.player i]
  exact hsound.seated i (hmoves.live i hlive)

theorem HandSound.withDealer {dealer : DealerMeta} (hdeck : DeckValid { h with dealer:= dealer }) :
    HandSound params seats { h with dealer := dealer } :=
  ⟨hsound.board, hdeck, hsound.chips.moves
    (handMoves_of_same _ rfl rfl rfl fun _ => Nat.le_refl _),
    ⟨hsound.round.1, hsound.round.2, hsound.round.3, hsound.round.4⟩,
    hsound.seated⟩

end

/-! ## The blinds -/

theorem postBlindCommit_moves {seat : SeatIdx} {amount : Nat} (hfolded : h.folded seat = false)
    (hok : postBlindCommit seats h seat amount = .ok (seats', h')) :
    HandMoves seats h seats' h' := by
  obtain ⟨hin, hcommit⟩ := postBlindCommit_ok hok
  exact commitChips_moves (by simp [inHandNotFolded, hin, hfolded]) (Nat.min_le_right _ _) hcommit

/-- The big blind covers the small blind, unless the small blind is all-in. -/
def BlindsCovered (t : Table) : Prop :=
  ∀ sb bb, blindSeats (clearHoles t.seats) (advanceButton t) = (some sb, some bb) →
    t.params.smallBlind < (t.seats sb).stack →
    t.params.smallBlind ≤ (t.seats bb).stack

def ChipsFit (t : Table) : Prop := stackSum t.seats + t.params.maxBuyIn ≤ maxUint64

theorem blinds_level {seats'' : Seats} {h h' h'' : Hand} {sb bb : SeatIdx}
    (hparams : params.smallBlind ≤ params.bigBlind)
    (hcovered : params.smallBlind < (seats sb).stack → params.smallBlind ≤ (seats bb).stack)
    (hzero : ∀ i, h.streetCommit i = 0)
    (hsmall : postBlindCommit seats h sb params.smallBlind = .ok (seats', h'))
    (hbig : postBlindCommit seats' h' bb params.bigBlind = .ok (seats'', h'')) (i : SeatIdx)
    (hallIn : h''.allIn i = false) :
    h''.streetCommit i ≤ h''.streetCommit bb := by
  obtain ⟨rfl, rfl⟩ := commitChips_ok (postBlindCommit_ok hsmall).2
  obtain ⟨rfl, rfl⟩ := commitChips_ok (postBlindCommit_ok hbig).2
  by_cases hbb : i = bb
  · rw [hbb]
  by_cases hsb : i = sb
  · subst hsb
    have hne : bb ≠ i := fun h => hbb h.symm
    have hstack : (seats i).stack - min params.smallBlind (seats i).stack ≠ 0 := by
      intro hempty
      simp only [hempty, if_true] at hallIn
      split at hallIn <;> simp [hbb] at hallIn
    have hmore := hcovered (by omega)
    simp only [Function.update_of_ne hbb, Function.update_of_ne hne, Function.update_self, hzero]
    omega
  · simp [hbb, hsb, hzero]

theorem freshHand_chipsBounded (hfit : ChipsFit t) (handId : Nat)
    (button : Option SeatIdx) (sb bb : SeatIdx) :
    ChipsBounded t.params (clearHoles t.seats)
      (freshHand handId t.params (clearHoles t.seats) button sb bb) := by
  have hworth : handWorth (clearHoles t.seats)
      (freshHand handId t.params (clearHoles t.seats) button sb bb) ≤
      stackSum t.seats := by
    apply Finset.sum_le_sum
    intro i _
    have hzero : (freshHand handId t.params (clearHoles t.seats) button sb
      bb).totalCommit i = 0 := rfl
    rw [hzero, Nat.zero_add]
    by_cases hlive : inHandNotFolded (freshHand handId t.params
        (clearHoles t.seats) button sb bb) i = true
    · rw [if_pos hlive]
      exact Nat.le_refl _
    · rw [if_neg hlive]
      exact Nat.zero_le _
  unfold ChipsFit at hfit
  refine ⟨fun i => Nat.le_refl _, ?_, by omega⟩
  intro i
  have hstack : (t.seats i).stack ≤ stackSum t.seats :=
    Finset.single_le_sum (f := fun i => (t.seats i).stack)
      (fun _ _ => Nat.zero_le _) (Finset.mem_univ i)
  simp only [clearHoles, freshHand]
  omega

theorem startHandOn_sound (hok : startHandOn t = .ok t')
    (hvacant : ∀ i, (t.seats i).player = "" → (t.seats i).stack = 0)
    (hparams : ParamsValid t.params) (hfit : ChipsFit t) (hcovered : BlindsCovered t) :
    t'.params = t.params ∧ ∀ h, t'.hand = some h → HandSound t'.params t'.seats h := by
  obtain ⟨sb, bb, seats, h, seats', h', hseats, hsmall, hbig, rfl⟩ := startHandOn_ok hok
  refine ⟨rfl, ?_⟩
  intro opened hopened
  have hvalid := startHandOn_board hok hopened
  obtain ⟨hphase, hdealer, -⟩ := startHandOn_unplayed hok hopened
  cases hopened
  generalize hfresh : freshHand t.nextHandId t.params (clearHoles t.seats)
    (advanceButton t) sb bb = fresh at hsmall
  have hmoves : HandMoves (clearHoles t.seats) fresh seats' h' := by
    have hfirst := postBlindCommit_moves (by subst hfresh; rfl) hsmall
    obtain ⟨_, hmiddle⟩ := commitChips_ok (postBlindCommit_ok hsmall).2
    exact hfirst.trans (postBlindCommit_moves (by subst hmiddle hfresh; rfl) hbig)
  have hlast : HandMoves seats' h' seats' (openedHand t.params h' bb) :=
    handMoves_of_same seats' rfl rfl rfl fun i => Nat.le_refl _
  have hbounded : ChipsBounded t.params (clearHoles t.seats) fresh := by
    subst hfresh
    exact freshHand_chipsBounded hfit _ _ _ _
  have hempty : AllInEmpty (clearHoles t.seats) fresh := by
    subst hfresh
    intro i _ hallIn
    cases hallIn
  have hall := hmoves.trans hlast
  refine ⟨hvalid, ?_, hbounded.moves hall, ⟨?_, ?_, ?_, ?_⟩, ?_⟩
  · simp [DeckValid, hdealer, hphase, freshDealerMeta]
  · have hmiddle := commitChips_allInEmpty hempty (postBlindCommit_ok hsmall).2
    have hposted := commitChips_allInEmpty hmiddle (postBlindCommit_ok hbig).2
    exact hposted
  · intro _ i _ hallIn
    have hzero : ∀ j, fresh.streetCommit j = 0 := by
      subst hfresh
      exact fun _ => rfl
    have hcovers : t.params.smallBlind < (clearHoles t.seats sb).stack →
        t.params.smallBlind ≤ (clearHoles t.seats bb).stack :=
      hcovered sb bb hseats
    exact blinds_level hparams.blinds hcovers hzero hsmall hbig i hallIn
  · intro _ i hi
    exact nextActiveToAct_needs hi
  · intro hbetting
    cases hphase.symm.trans hbetting
  · intro i hlive hplayer
    have hin := hall.live i hlive
    rw [hall.keeps.owners.player i] at hplayer
    have hzero := hvacant i hplayer
    subst hfresh
    simp [inHandNotFolded, freshHand, clearHoles, hzero] at hin

/-! ## Runs -/

def TableSound (t : Table) : Prop :=
  ParamsValid t.params ∧ ∀ h, t.hand = some h → HandSound t.params t.seats h

theorem handSound_kept : KeptByHands HandSound :=
  ⟨HandStep.sound, fun hsound hkept => hsound.reseated (hkept hsound.seated)⟩

/-- A hand is started with covered blinds and chips in range, and its deck has
room for the hole cards and the board. -/
def KeepsRounds (s : State env) : Msg env → Prop
  | .startHand _ req => ∀ t ∈ s.getTable req.tableId,
      BlindsCovered t ∧ ChipsFit t
  | .dealerInitHand tableID _ _ deckSize => ∀ t ∈ s.getTable tableID,
      ∀ h ∈ t.hand, 2 * (holeDealOrder h).length + 5 ≤ deckSize
  | _ => True

instance (t : Table) : Decidable (BlindsCovered t) := by
  unfold BlindsCovered
  infer_instance

instance (t : Table) : Decidable (ChipsFit t) := by
  unfold ChipsFit
  infer_instance

instance (s : State env) (m : Msg env) : Decidable (KeepsRounds s m) := by
  unfold KeepsRounds
  exact match m with
  | .createTable .. | .sit .. | .startHand .. | .act .. | .tick .. | .leave .. | .rebuy ..
  | .abortHandRefundAllCommits .. | .applyDealerReveal .. | .advanceAfterHoleSharesReady ..
  | .dealerInitHand .. | .dealerFinalizeDeck .. | .otherTransaction .. => inferInstance

theorem TableEffect.sound {s : State env} {m : Msg env} {deposit withdrawal : Nat}
    (hkeeps : KeepsRounds s m) (hmsg : m.tableId = some tid) (hget : s.getTable tid = some t)
    (hsound : TableSound t) (heffect : TableEffect t m t' deposit withdrawal) : TableSound t' := by
  obtain ⟨hparams, hhand⟩ := hsound
  refine ⟨heffect.params_eq ▸ hparams, heffect.hands handSound_kept hhand ?_ ?_⟩
  · rintro block req h rfl hstart hh
    cases hmsg
    obtain ⟨hcovered, hfit⟩ := hkeeps t hget
    exact (startHandOn_sound hstart (getTable_vacant hget) hparams hfit hcovered).2 h hh
  · intro h dealer hold hsound hphase hset
    cases hset with
    | init _ hmax =>
      cases hmsg
      have hroom := hkeeps t hget _ hold
      refine hsound.withDealer ?_
      exact ⟨hphase, Or.inr ⟨hroom, hmax⟩⟩
    | finalize hsize hopen => exact hsound.withDealer (hsound.deck.finalize hsize hopen)

theorem reachable_sound {balances : env.bank.Balances} {messages : List (Msg env)}
    (hmeet : AcceptedMeet handle KeepsRounds (State.genesis env balances) messages)
    (hget : (run handle (State.genesis env balances) messages).getTable tid = some t) :
    TableSound t :=
  run_tables (P := TableSound)
    (fun _ _ hcfg => ⟨newTable_paramsValid hcfg, fun _ hnone => by cases hnone⟩)
    (fun _ hsound => ⟨hsound.1, InnerStep.normalize.hands handSound_kept hsound.2⟩)
    (fun hkeeps hmsg hget hsound heffect =>
      heffect.sound hkeeps hmsg hget hsound) hmeet hget

end OnChainPoker.Poker
