import OnChainPoker.Poker.HandSteps

/-!
# Invariants of tables

`run_tables` is the induction over runs: a property of tables that holds of new
tables and that every accepted message keeps holds of every stored table.  The
frame lemmas say which fields the betting operations leave alone.
-/

namespace OnChainPoker.Poker

open Foundation

variable {env : Env} {t t' : Table} {seats seats' : Seats} {h h' : Hand} {seat : SeatIdx}
  {amount : Nat} {params : TableParams}

variable {balances : env.bank.Balances} {messages : List (Msg env)}
  {tid deposit withdrawal : Nat} {m : Msg env}

theorem run_tables {allowed : State env → Msg env → Prop} {P : Table → Prop}
    (hnew : ∀ id req, checkTableCfg req = .ok () → P (newTable id req))
    (hnormal : ∀ t, P t → P (normalizeTable t))
    (hstep : ∀ {s : State env} {m : Msg env} {tid : Nat} {t t' : Table}
      {deposit withdrawal : Nat}, allowed s m → m.tableId = some tid →
      s.getTable tid = some t → P t → TableEffect t m t' deposit withdrawal →
      P t') (hmeet : AcceptedMeet handle allowed (State.genesis env balances) messages)
    (hget : (run handle (State.genesis env balances) messages).getTable tid = some t) :
    P t := by
  have hstored := run_invariant_of_steps
    (fun s : State env => ∀ key value, s.tables.lookup key = some value → P value) hmeet
    (by simp [State.genesis]) ?_
  · simp only [State.getTable, Option.map_eq_some_iff] at hget
    obtain ⟨stored, hlookup, rfl⟩ := hget
    exact hnormal stored (hstored tid stored hlookup)
  · intro s m s' hallowed hall hok key value hlookup
    cases handle_effect hok with
    | createTable req _ hcfg _ _ htables =>
      rw [htables] at hlookup
      by_cases hkey : key = s.nextTableId
      · subst hkey
        rw [AList.lookup_insert] at hlookup
        cases hlookup
        exact hnormal _ (hnew _ req hcfg)
      · rw [AList.lookup_insert_ne hkey] at hlookup
        exact hall key value hlookup
    | @onTable tid t t' _ _ hmsg hget htable hreplaces _ =>
      rw [hreplaces.tables] at hlookup
      by_cases hkey : key = t'.id
      · subst hkey
        rw [AList.lookup_insert] at hlookup
        cases hlookup
        have hold : P t := by
          simp only [State.getTable, Option.map_eq_some_iff] at hget
          obtain ⟨stored, hstored, rfl⟩ := hget
          exact hnormal stored (hall tid stored hstored)
        exact hnormal _ (hstep (hallowed (isOk_iff.mpr ⟨s', hok⟩)) hmsg hget hold htable)
      · rw [AList.lookup_insert_ne hkey] at hlookup
        exact hall key value hlookup
    | otherTransaction _ _ _ htables _ =>
      rw [htables] at hlookup
      exact hall key value hlookup

/-! ## Frames -/

def SameRound (h h' : Hand) : Prop :=
  h' = { h with
    betTo := h'.betTo
    minRaiseSize := h'.minRaiseSize
    intervalId := h'.intervalId
    folded := h'.folded
    allIn := h'.allIn
    streetCommit := h'.streetCommit
    totalCommit := h'.totalCommit
    lastIntervalActed := h'.lastIntervalActed }

theorem SameRound.trans {h h' h'' : Hand} (hfirst : SameRound h h')
    (hsecond : SameRound h' h'') : SameRound h h'' := by
  unfold SameRound at *
  rw [hsecond, hfirst]

theorem performAction_sameRound {action : Action}
    (hok : performAction params seats h seat action amount = .ok (seats', h')) :
    SameRound h h' := by
  cases performAction_cases hok with
  | fold | check _ => rfl
  | call _ hcommit =>
    obtain ⟨_, rfl⟩ := commitChips_ok hcommit
    rfl
  | bet hbet | raise hbet =>
    obtain ⟨_, _, _, _, _, hcommit⟩ := applyBetTo_ok hbet
    obtain ⟨_, rfl⟩ := commitChips_ok hcommit
    rfl

theorem returnUncalledStreetExcess_sameRound
    (hok : returnUncalledStreetExcess seats h = .ok (seats', h')) : SameRound h h' := by
  cases returnUncalledStreetExcess_cases hok with
  | same | refund => rfl

/-! ## The board -/

def boardLength : Street → Nat
  | .preflop => 0
  | .flop => 3
  | .turn => 4
  | .river => 5

def BoardValid (h : Hand) : Prop :=
  match h.phase with
  | .shuffle => h.street = .preflop ∧ h.board = []
  | .betting => h.board.length = boardLength h.street
  | .awaitFlop => h.street = .preflop ∧ h.board.length ≤ 2
  | .awaitTurn => h.street = .flop ∧ h.board.length = 3
  | .awaitRiver => h.street = .turn ∧ h.board.length = 4
  | .awaitShowdown => h.street = .river ∧ h.board.length = 5
  | .showdown => False

theorem BoardValid.of_await (hphase : h.phase = .betting) (hvalid : BoardValid h)
    (hawait : h'.phase = awaitPhase h.street) (hstreet : h'.street = h.street)
    (hboard : h'.board = h.board) : BoardValid h' := by
  cases hs : h.street <;>
    simp_all [BoardValid, awaitPhase, boardLength]

theorem boardTarget_street {phase : HandPhase} {boardLen : Nat} {street : Street}
    (htarget : boardTarget phase = some (boardLen, street)) :
    street ≠ .preflop ∧ boardLen = boardLength street := by
  unfold boardTarget at htarget
  split at htarget <;> cases htarget <;> simp [boardLength]

theorem HandChange.board (hvalid : BoardValid h)
    (hchange : HandChange params seats h seats' h') : BoardValid h' := by
  cases hchange with
  | turn hacted =>
    rw [performAction_sameRound hacted.performed]
    exact hvalid
  | close hacted hexcess =>
    have hround := (performAction_sameRound hacted.performed).trans
      (returnUncalledStreetExcess_sameRound hexcess)
    exact hvalid.of_await hacted.phase (by rw [hround]) (by rw [hround]) (by rw [hround])
  | card htarget hmore =>
    -- a board that is one card short has been completed, except on the flop
    unfold boardTarget at htarget
    split at htarget <;> simp_all [BoardValid]
    omega
  | @await _ street htarget =>
    obtain ⟨hstreet, hlen⟩ := boardTarget_street htarget
    cases street <;> simp_all [BoardValid, awaitPhase, boardLength]
  | resume htarget _ =>
    simpa [BoardValid, resetPostflopBettingRound] using (boardTarget_street htarget).2
  | hole => exact hvalid
  | deal hphase _ =>
    simp only [BoardValid, hphase] at hvalid
    by_cases hclosed : h.actionOn = none
    · simp [BoardValid, hclosed, hvalid]
    · simp [BoardValid, hclosed, hvalid, boardLength]

theorem HandStep.board (hvalid : BoardValid h)
    (hstep : HandStep params seats h seats' (some h')) : BoardValid h' := by
  rcases hstep.change with ⟨-, _, rfl⟩ | ⟨next, _, _, _, hchange, rfl⟩
  · exact hvalid
  · have hnext := hchange.board hvalid
    exact hnext

theorem startHandOn_board (hok : startHandOn t = .ok t') (hhand : t'.hand = some h) :
    BoardValid h := by
  obtain ⟨_, _, _, _, _, _, _, _, -, -, -, rfl⟩ := startHandOn_fresh hok
  cases hhand
  exact ⟨rfl, rfl⟩

/-! ## Hands and their seats -/

structure SeatsKept (params : TableParams) (h : Hand) (seats seats' : Seats) : Prop where
  live : ∀ i, inHandNotFolded h i = true → (seats' i).player = (seats i).player ∧
    (seats' i).stack = (seats i).stack ∧ (seats' i).hole = (seats i).hole
  stack : ∀ i, (seats' i).stack ≤ (seats i).stack ∨
    (inHandNotFolded h i = false ∧ (seats' i).stack ≤ params.maxBuyIn)

theorem SeatsKept.update {i : SeatIdx} {seat : Seat} (hout : inHandNotFolded h i = false)
    (hstack : seat.stack ≤ params.maxBuyIn) :
    SeatsKept params h seats (Function.update seats i seat) := by
  constructor
  · intro j hlive
    have hne : j ≠ i := by
      rintro rfl
      rw [hout] at hlive
      cases hlive
    simp [hne]
  · intro j
    by_cases hj : j = i
    · subst hj
      rw [Function.update_self]
      exact .inr ⟨hout, hstack⟩
    · rw [Function.update_of_ne hj]
      exact .inl le_rfl

theorem SeatsKept.slash (i : SeatIdx) (amount : Nat) : SeatsKept params h seats
    (Function.update seats i { seats i with bond := (seats i).bond - amount }) := by
  have hsame := sameStacks_slash seats i amount
  refine ⟨fun j _ => ⟨(hsame j).1, (hsame j).2, ?_⟩, fun j => .inl (hsame j).2.le⟩
  by_cases hj : j = i
  · subst hj
    simp
  · simp [hj]

theorem SeatsKept.normalize (hseated : ∀ i, inHandNotFolded h i = true → (seats i).player ≠ "") :
    SeatsKept params h seats fun i => normalizeSeat (seats i) := by
  refine ⟨fun i hlive => by simp [normalizeSeat, hseated i hlive], fun i => .inl ?_⟩
  unfold normalizeSeat
  split <;> simp

/-- What hand steps and changes of the other seats keep. -/
structure KeptByHands (P : TableParams → Seats → Hand → Prop) : Prop where
  play : ∀ {params : TableParams} {seats seats' : Seats} {h h' : Hand},
    P params seats h → HandStep params seats h seats' (some h') → P params seats' h'
  reseat : ∀ {params : TableParams} {seats seats' : Seats} {h : Hand}, P params seats h →
    ((∀ i, inHandNotFolded h i = true → (seats i).player ≠ "") →
      SeatsKept params h seats seats') → P params seats' h

inductive DeckSet (h : Hand) : Msg env → DealerMeta → Prop
  | init {tableID handID epochId deckSize : Nat} : 2 ≤ deckSize → deckSize ≤ 52 →
      DeckSet h (.dealerInitHand tableID handID epochId deckSize)
        (initDealerMeta epochId deckSize)
  | finalize {tableID handID : Nat} : h.dealer.deckSize ≠ 0 →
      h.dealer.deckFinalized = false → DeckSet h (.dealerFinalizeDeck tableID handID)
        (finalizeDealerMeta h h.dealer.deckSize)

theorem InnerStep.params_eq (hstep : InnerStep t t' deposit withdrawal) : t'.params = t.params := by
  cases hstep <;> rfl

theorem TableEffect.params_eq (heffect : TableEffect t m t' deposit withdrawal) :
    t'.params = t.params := by
  cases heffect with
  | startHand block req _ hstart =>
    obtain ⟨_, _, _, _, _, _, _, _, -, -, -, rfl⟩ := startHandOn_fresh hstart
    rfl
  | inner _ hrun =>
    exact hrun.keeps (P := (·.params = t.params)) (fun hold hstep => hstep.params_eq.trans hold)
      rfl
  | _ => rfl

section Rule

variable {P : TableParams → Seats → Hand → Prop} (hkept : KeptByHands P) {deposit withdrawal : Nat}
include hkept

theorem InnerStep.hands (hold : ∀ h, t.hand = some h → P t.params t.seats h)
    (hstep : InnerStep t t' deposit withdrawal) :
    ∀ h, t'.hand = some h → P t'.params t'.seats h := by
  intro h' hh'
  cases hstep with
  | play hhand hstep =>
    cases hh'
    exact hkept.play (hold _ hhand) hstep
  | abort _ _ => cases hh'
  | rebuy i amount _ hout hmax =>
    have hh : t.hand = some h' := hh'
    refine hkept.reseat (hold h' hh) fun _ => .update ?_ hmax
    rw [hh, Option.any_some] at hout
    simp [inHandNotFolded, hout]
  | slash i amount _ => exact hkept.reseat (hold h' hh') fun _ => .slash i _
  | eject i hnone _ => cases hnone.symm.trans hh'
  | normalize => exact hkept.reseat (hold h' hh') .normalize

theorem TableEffect.hands {m : Msg env} (heffect : TableEffect t m t' deposit withdrawal)
    (hold : ∀ h, t.hand = some h → P t.params t.seats h)
    (hstart : ∀ block req h, m = .startHand block req → startHandOn t = .ok t' →
      t'.hand = some h → P t'.params t'.seats h)
    (hdeck : ∀ h dealer, t.hand = some h → P t.params t.seats h → h.phase = .shuffle →
      DeckSet h m dealer → P t.params t.seats { h with dealer := dealer }) :
    ∀ h, t'.hand = some h → P t'.params t'.seats h := by
  intro h' hh'
  cases heffect with
  | sit req i seat hvacant _ _ _ hmax _ _ =>
    refine hkept.reseat (hold h' hh') fun hseated => .update ?_ hmax
    cases hlive : inHandNotFolded h' i with
    | false => rfl
    | true => exact absurd hvacant (hseated i hlive)
  | leave req i _ _ hout =>
    have hh : t.hand = some h' := hh'
    exact hkept.reseat (hold h' hh) fun _ => .update (by simpa [hh] using hout) (Nat.zero_le _)
  | startHand block req _ hstarted => exact hstart block req h' rfl hstarted hh'
  | dealerInitHand _ _ _ _ hhand hphase _ htwo hmax =>
    cases hh'
    exact hdeck _ _ hhand (hold _ hhand) hphase (.init htwo hmax)
  | dealerFinalizeDeck _ _ hhand hphase hsize hopen =>
    cases hh'
    exact hdeck _ _ hhand (hold _ hhand) hphase (.finalize hsize hopen)
  | inner _ hrun => exact hrun.keeps (fun hold hstep => hstep.hands hkept hold) hold h' hh'

end Rule

theorem TableEffect.board (heffect : TableEffect t m t' deposit withdrawal)
    (hold : ∀ h, t.hand = some h → BoardValid h) :
    ∀ h, t'.hand = some h → BoardValid h :=
  heffect.hands (P := fun _ _ => BoardValid) ⟨HandStep.board, fun hvalid _ => hvalid⟩ hold
    (fun _ _ _ _ hstart => startHandOn_board hstart) fun _ _ _ hvalid _ _ => hvalid

theorem reachable_board
    (hget : (run handle (State.genesis env balances) messages).getTable tid = some t)
    (hhand : t.hand = some h) : BoardValid h :=
  run_tables (P := fun t => ∀ h, t.hand = some h → BoardValid h)
    (fun _ _ _ _ hnone => by cases hnone) (fun _ hold => hold)
    (fun _ _ _ hold heffect => heffect.board hold)
    (stepsMeet_of_forall (fun _ _ _ => trivial) messages)
    hget h hhand

end OnChainPoker.Poker
