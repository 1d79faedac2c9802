import OnChainPoker.Poker.Seats
import OnChainPoker.Poker.Reveals

/-!
# Chips in play belong to their seat

A deal remembers the seats as they were just before `StartHand` and which of
their occupants have left since.  As long as the occupant stays, the stack and
the total commitment of a seat add up to the stack it was dealt in with.

The last part is about machine arithmetic: the functions that move chips are
written a second time with every subtraction checked, and compute the same.
-/

namespace OnChainPoker.Poker

open Foundation

variable {env : Env} {tid : Nat} {balances : env.bank.Balances} {messages : List (Msg env)}
  {t t' : Table} {deal : Deal} {seats : Seats} {h : Hand}

/-! ## Histories of a table -/

section History

variable {History : Type*}

def recordTable (after : History → Table → Msg env → History) (tid : Nat)
    (s : State env) (m : Msg env) (history : History) : History :=
  if m.tableId = some tid then
    (s.getTable tid).elim history fun t => after history t m
  else history

def historyRun (after : History → Table → Msg env → History) (start : History)
    (tid : Nat) (balances : env.bank.Balances) (messages : List (Msg env)) :
    State env × History :=
  run (withHistory handle (recordTable after tid))
    (State.genesis env balances, start) messages

theorem historyRun_state (after : History → Table → Msg env → History) (start : History) (tid : Nat)
    (balances : env.bank.Balances) (messages : List (Msg env)) :
    (historyRun after start tid balances messages).1 =
      run handle (State.genesis env balances) messages :=
  run_withHistory start messages

variable {after : History → Table → Msg env → History}
  {allowed : State env → Msg env → Prop} {P : History → Table → Prop} {start : History}

/-- Nothing is recorded before the table exists; what holds of a new table and is
kept by every accepted message of the table holds of the table and its history. -/
theorem historyRun_invariant (hnew : ∀ id req, checkTableCfg req = .ok () →
      P start (normalizeTable (newTable id req)))
    (hstep : ∀ {history : History} {s s' : State env} {m : Msg env} {t t' : Table}
      {deposit withdrawal : Nat}, Reachable s → allowed s m → handle s m = .ok s' →
      m.tableId = some tid → s.getTable tid = some t →
      s'.getTable tid = some (normalizeTable t') →
      TableEffect t m t' deposit withdrawal → P history t →
      P (after history t m) (normalizeTable t'))
    (hmeet : StepsMeet handle allowed (State.genesis env balances) messages) :
    ((historyRun after start tid balances messages).1.getTable tid = none →
      (historyRun after start tid balances messages).2 = start) ∧
    ∀ t, (historyRun after start tid balances messages).1.getTable tid = some t →
      P (historyRun after start tid balances messages).2 t := by
  have hinv := run_invariant_of_steps
    (fun s : State env × History =>
      Reachable s.1 ∧ (s.1.getTable tid = none → s.2 = start) ∧
        ∀ t, s.1.getTable tid = some t → P s.2 t)
    (hmeet.withHistory (recordTable after tid) start)
    ⟨⟨_, [], ⟨balances, rfl⟩, .refl⟩, fun _ => rfl, by simp [State.getTable, State.genesis]⟩ ?_
  · exact hinv.2
  · rintro ⟨s, history⟩ m ⟨s', history'⟩ hallowed ⟨hreach, hstart, hall⟩ hok
    obtain ⟨hhandle, rfl⟩ := withHistory_ok hok
    refine ⟨hreach.step hhandle, ?_⟩
    cases (handle_effect hhandle).tableAt (reachable_solvent hreach).1 tid with
    | same hother hsame =>
      have hsame : s'.getTable tid = s.getTable tid := hsame
      simp only [recordTable, if_neg hother, hsame]
      exact ⟨hstart, hall⟩
    | new req hmsg hcfg hnone hget' =>
      subst hmsg
      have hget' : s'.getTable tid = _ := hget'
      have hhistory : history = start := hstart hnone
      simp only [hget', recordTable, Msg.tableId, hhistory]
      refine ⟨fun hnone => (by cases hnone), ?_⟩
      rintro _ ⟨⟩
      exact hnew _ req hcfg
    | changed hmsg hget hget' htable =>
      simp only [recordTable, hmsg, hget, if_true, Option.elim]
      refine ⟨fun hnone => (by cases hget'.symm.trans hnone), fun stored hload => ?_⟩
      cases hload.symm.trans hget'
      exact hstep hreach hallowed hhandle hmsg hget hget' htable (hall _ hget)

theorem historyRun_absent
    (hnone : (historyRun after start tid balances messages).1.getTable tid = none) :
    (historyRun after start tid balances messages).2 = start :=
  (historyRun_invariant (P := fun _ _ => True) (fun _ _ _ => trivial)
    (fun _ _ _ _ _ _ _ _ => trivial)
    (stepsMeet_of_forall (fun _ _ => trivial) messages)).1 hnone

theorem run_history (hnew : ∀ id req, checkTableCfg req = .ok () → P start (newTable id req))
    (hnormal : ∀ history t, P history t → P history (normalizeTable t))
    (hstep : ∀ {history : History} {s : State env} {m : Msg env} {t t' : Table}
      {deposit withdrawal : Nat}, Reachable s → allowed s m →
      s.getTable tid = some t → P history t →
      TableEffect t m t' deposit withdrawal → P (after history t m) t')
    (hmeet : StepsMeet handle allowed (State.genesis env balances) messages)
    (hget : (historyRun after start tid balances messages).1.getTable tid = some t) :
    P (historyRun after start tid balances messages).2 t := by
  refine (historyRun_invariant ?_ ?_ hmeet).2 t hget
  · exact fun id req hcfg => hnormal _ _ (hnew id req hcfg)
  · intro history s s' m t t' _ _ hreach hallowed _ _ hget _ htable hold
    exact hnormal _ _ (hstep hreach hallowed hget hold htable)

end History

/-! ## Deals -/

/-- The seats just before `StartHand`, and whose occupant has left since. -/
structure Deal where
  seats : Seats
  left : SeatIdx → Bool

def Deal.none : Deal := ⟨fun _ => emptySeat, fun _ => false⟩

def Deal.after (deal : Deal) (t : Table) : Msg env → Deal
  | .startHand _ _ => ⟨t.seats, fun _ => false⟩
  | .leave req =>
    { deal with
      left := fun i => deal.left i || decide ((t.seats i).player = req.player) }
  | _ => deal

def dealRun (env : Env) (tid : Nat) (balances : env.bank.Balances)
    (messages : List (Msg env)) : State env × Deal :=
  historyRun Deal.after Deal.none tid balances messages

structure DealKept (deal : Deal) (seats : Seats) (h : Hand) : Prop where
  dealt : ∀ i, h.inHand i = true ↔ 0 < (deal.seats i).stack
  named : ∀ i, h.inHand i = true → (deal.seats i).player ≠ ""
  occupant : ∀ i, h.inHand i = true → deal.left i = false →
    (seats i).player = (deal.seats i).player
  chips : ∀ i, h.inHand i = true → deal.left i = false →
    (seats i).stack + h.totalCommit i = (deal.seats i).stack
  stayed : ∀ i, inHandNotFolded h i = true → deal.left i = false
  street : ∀ i, h.streetCommit i ≤ h.totalCommit i

variable {seats' : Seats} {i : SeatIdx} {deposit withdrawal : Nat}

theorem DealKept.moves {h h' : Hand} (hkept : DealKept deal seats h)
    (hmoves : HandMoves seats h seats' h') :
    DealKept deal seats' h' := by
  have hplayer := hmoves.keeps.owners.player
  have hin := hmoves.inHand
  constructor
  case dealt => rw [hin]; exact hkept.dealt
  case named => rw [hin]; exact hkept.named
  case occupant =>
    intro i hi hstays
    rw [hin] at hi
    rw [hplayer i]
    exact hkept.occupant i hi hstays
  case chips =>
    intro i hi hstays
    rw [hin] at hi
    rw [hmoves.keeps.chips i]
    exact hkept.chips i hi hstays
  case stayed => exact fun i hi => hkept.stayed i (hmoves.live i hi)
  case street => exact hmoves.street hkept.street

theorem DealKept.replace (hkept : DealKept deal seats h)
    (hsame : ∀ i, h.inHand i = true → deal.left i = false → (seats' i).player = (seats i).player ∧
        (seats' i).stack = (seats i).stack) : DealKept deal seats' h := by
  constructor
  case dealt => exact hkept.dealt
  case named => exact hkept.named
  case occupant =>
    intro i hi hstays
    rw [(hsame i hi hstays).1]
    exact hkept.occupant i hi hstays
  case chips =>
    intro i hi hstays
    rw [(hsame i hi hstays).2]
    exact hkept.chips i hi hstays
  case stayed => exact hkept.stayed
  case street => exact hkept.street

theorem DealKept.occupied (hkept : DealKept deal seats h) (hi : h.inHand i = true)
    (hstays : deal.left i = false) : (seats i).player ≠ "" := by
  rw [hkept.occupant i hi hstays]
  exact hkept.named i hi

def TableKept (deal : Deal) (t : Table) : Prop :=
  ∀ h, t.hand = some h → DealKept deal t.seats h

theorem InnerStep.kept (hkept : TableKept deal t)
    (hstep : InnerStep t t' deposit withdrawal) : TableKept deal t' := by
  intro h' hh'
  cases hstep with
  | play hold hplay =>
    cases hh'
    exact (hkept _ hold).moves hplay.moves
  | abort _ _ => cases hh'
  | rebuy i amount _ hout _ =>
    have hh : t.hand = some h' := hh'
    apply (hkept h' hh).replace
    intro j hj _
    have hne : j ≠ i := by
      rintro rfl
      rw [hh, Option.any_some, hj] at hout
      cases hout
    simp [hne]
  | slash i amount _ =>
    have hh : t.hand = some h' := hh'
    apply (hkept h' hh).replace
    exact fun j _ _ => sameStacks_slash t.seats i withdrawal j
  | eject i hnone _ =>
    have hh : t.hand = some h' := hh'
    rw [hnone] at hh
    cases hh
  | normalize =>
    have hh : t.hand = some h' := hh'
    apply (hkept h' hh).replace
    intro j hj hstays
    have hne := (hkept h' hh).occupied hj hstays
    simp [normalizeTable, normalizeSeat, hne]

theorem freshHand_kept (hvacant : ∀ i, (t.seats i).player = "" → (t.seats i).stack = 0)
    (handId : Nat) (button : Option SeatIdx) (sb bb : SeatIdx) :
    DealKept ⟨t.seats, fun _ => false⟩ (clearHoles t.seats)
      (freshHand handId t.params (clearHoles t.seats) button sb bb) := by
  constructor
  case dealt =>
    intro i
    exact decide_eq_true_iff
  case named =>
    intro i hi hempty
    have hzero := hvacant i hempty
    simp [freshHand, clearHoles, hzero] at hi
  case occupant => exact fun _ _ _ => rfl
  case chips => exact fun _ _ _ => rfl
  case stayed => exact fun _ _ => rfl
  case street => exact fun _ => Nat.le_refl _

theorem startHandOn_kept (hok : startHandOn t = .ok t')
    (hvacant : ∀ i, (t.seats i).player = "" → (t.seats i).stack = 0) :
    TableKept ⟨t.seats, fun _ => false⟩ t' := by
  intro opened hopened
  obtain ⟨sb, bb, seats, h, seats', h', _, hsmall, hbig, rfl⟩ := startHandOn_ok hok
  cases hopened
  have hfolded : h.folded bb = false := by
    obtain ⟨_, rfl⟩ := commitChips_ok (postBlindCommit_ok hsmall).2
    rfl
  have hblinds := (postBlindCommit_moves rfl hsmall).trans (postBlindCommit_moves hfolded hbig)
  have hopens : HandMoves seats' h' seats' (openedHand t.params h' bb) :=
    handMoves_of_same _ rfl rfl rfl fun _ => Nat.le_refl _
  exact ((freshHand_kept hvacant _ _ _ _).moves hblinds).moves hopens

theorem DealKept.leave (hkept : DealKept deal seats h) (hdistinct : SeatsApart id seats)
    {player : String} (hplayer : player ≠ "") (hi : (seats i).player = player)
    (hout : inHandNotFolded h i = false) :
    DealKept
      { deal with
        left := fun j => deal.left j || decide ((seats j).player = player) }
      (Function.update seats i emptySeat) h := by
  have honly : ∀ j, (seats j).player = player → j = i := by
    intro j hj
    apply hdistinct j i
    · rwa [hj]
    · rwa [hi]
    · rw [hi, hj]
  have hstays : ∀ j, (deal.left j || decide ((seats j).player = player)) = false →
      deal.left j = false ∧ j ≠ i := by
    intro j hj
    simp only [Bool.or_eq_false_iff, decide_eq_false_iff_not] at hj
    constructor
    · exact hj.1
    · rintro rfl
      exact hj.2 hi
  constructor
  case dealt => exact hkept.dealt
  case named => exact hkept.named
  case occupant =>
    intro j hj hleft
    obtain ⟨hleft, hne⟩ := hstays j hleft
    rw [Function.update_of_ne hne]
    exact hkept.occupant j hj hleft
  case chips =>
    intro j hj hleft
    obtain ⟨hleft, hne⟩ := hstays j hleft
    rw [Function.update_of_ne hne]
    exact hkept.chips j hj hleft
  case stayed =>
    intro j hj
    have hne : (seats j).player ≠ player := by
      intro hsame
      rw [honly j hsame, hout] at hj
      cases hj
    simp [hkept.stayed j hj, hne]
  case street => exact hkept.street

theorem TableEffect.kept {m : Msg env} (heffect : TableEffect t m t' deposit withdrawal)
    (hdistinct : SeatsApart id t.seats)
    (hvacant : ∀ i, (t.seats i).player = "" → (t.seats i).stack = 0)
    (hkept : TableKept deal t) : TableKept (deal.after t m) t' := by
  cases heffect with
  | sit req i seat hfree _ _ _ _ _ =>
    intro h hh
    apply (hkept h hh).replace
    intro j hj hstays
    have hne : j ≠ i := by
      rintro rfl
      exact (hkept h hh).occupied hj hstays hfree
    simp [hne]
  | leave req i hplayer hi hout =>
    intro h hh
    have hh : t.hand = some h := hh
    rw [hh] at hout
    exact (hkept h hh).leave hdistinct hplayer hi hout
  | startHand block req _ hstart => exact startHandOn_kept hstart hvacant
  | dealerInitHand _ _ _ _ hold _ _ _ _ | dealerFinalizeDeck _ _ hold _ _ _ =>
    intro h hh
    cases hh
    exact (hkept _ hold).moves (handMoves_of_same _ rfl rfl rfl fun _ => Nat.le_refl _)
  | inner hinner hrun =>
    have hsame : deal.after t m = deal := by
      cases m <;> first | rfl | cases hinner
    rw [hsame]
    exact hrun.keeps InnerStep.kept hkept

theorem reachable_kept (hget : (dealRun env tid balances messages).1.getTable tid = some t) :
    TableKept (dealRun env tid balances messages).2 t := by
  apply run_history (P := TableKept) _ _ _ (stepsMeet_of_forall (fun _ _ => trivial) messages) hget
  · intro _ _ _ h hh
    cases hh
  · exact fun _ _ hkept => InnerStep.normalize.kept hkept
  · intro deal s m t t' _ _ hreach _ hget hkept heffect
    exact heffect.kept (reachable_textsApart hreach _ _ hget) (getTable_vacant hget) hkept

/-! ## Subtractions -/

/-- A `uint64` subtraction that fails where the machine's would wrap. -/
def subUint64Checked (a b : Nat) (field : String) : Except String Nat :=
  if a < b then .error (field ++ " wraps around") else .ok (a - b)

theorem subUint64Checked_of_le {a b : Nat} (hle : b ≤ a) (field : String) :
    subUint64Checked a b field = .ok (a - b) :=
  if_neg (by omega)

def commitChipsChecked (seats : Seats) (h : Hand) (seat : SeatIdx) (amount : Nat) :
    Except String (Seats × Hand) := do
  let nextStreetCommit ← addUint64Checked (h.streetCommit seat) amount "street commit"
  let nextTotalCommit ← addUint64Checked (h.totalCommit seat) amount "total commit"
  let stack ← subUint64Checked (seats seat).stack amount "stack"
  pure (Function.update seats seat { seats seat with stack := stack },
    { h with
      streetCommit := Function.update h.streetCommit seat nextStreetCommit
      totalCommit := Function.update h.totalCommit seat nextTotalCommit
      allIn :=
        if stack = 0 then Function.update h.allIn seat true else h.allIn })

def postBlindCommitChecked (seats : Seats) (h : Hand) (seat : SeatIdx)
    (amount : Nat) : Except String (Seats × Hand) := do
  rejectIf (h.inHand seat = false) "seat not in hand"
  rejectIf ((seats seat).stack = 0) "no chips"
  commitChipsChecked seats h seat (min amount (seats seat).stack)

def applyBetToChecked (minBet : Nat) (seats : Seats) (h : Hand) (seat : SeatIdx)
    (desiredCommit : Nat) : Except String (Seats × Hand) := do
  let currentCommit := h.streetCommit seat
  rejectIf (desiredCommit ≤ currentCommit) "BetTo must exceed current street commitment"
  let maxCommit ← addUint64Checked currentCommit (seats seat).stack "max commit"
  rejectIf (desiredCommit > maxCommit) "BetTo exceeds available chips"
  rejectIf (desiredCommit ≤ h.betTo)
    "BetTo must exceed current betTo (use call/check when not raising)"
  validateRaiseAllowed h seat
  -- the raise size that `raiseBetTo` compares with the minimum
  let _raiseSize ← subUint64Checked desiredCommit h.betTo "raise size"
  let h' ← raiseBetTo minBet h seat desiredCommit (desiredCommit = maxCommit)
  let delta ← subUint64Checked desiredCommit currentCommit "delta"
  commitChipsChecked seats h' seat delta

def toCallChecked (h : Hand) (seat : SeatIdx) : Except String Nat :=
  if h.betTo ≤ h.streetCommit seat then pure 0
  else subUint64Checked h.betTo (h.streetCommit seat) "to call"

def applyCallChecked (seats : Seats) (h : Hand) (seat : SeatIdx) :
    Except String (Seats × Hand) := do
  let need ← toCallChecked h seat
  rejectIf (need = 0) "call is not legal when facing 0"
  let (seats', h') ← commitChipsChecked seats h seat (min need (seats seat).stack)
  pure (seats', markActed h' seat)

def returnUncalledStreetExcessChecked (seats : Seats) (h : Hand) :
    Except String (Seats × Hand) :=
  let maximum := maxCommitThisStreet h
  let second := secondMaxCommitThisStreet h maximum
  if maximum = 0 ∨ second = maximum then pure (seats, h)
  else
    match (List.finRange 9).filter fun i => h.streetCommit i = maximum with
    | [maxSeat] => do
        let excess ← subUint64Checked maximum second "excess"
        let nextStack ← addUint64Checked (seats maxSeat).stack excess "seat stack"
        rejectIf (h.streetCommit maxSeat < excess)
          "street commit underflow on uncalled excess return"
        rejectIf (h.totalCommit maxSeat < excess)
          "total commit underflow on uncalled excess return"
        let street ← subUint64Checked (h.streetCommit maxSeat) excess "street commit"
        let total ← subUint64Checked (h.totalCommit maxSeat) excess "total commit"
        pure (Function.update seats maxSeat { seats maxSeat with stack := nextStack },
          { h with
            streetCommit := Function.update h.streetCommit maxSeat street
            totalCommit := Function.update h.totalCommit maxSeat total
            allIn :=
              if 0 < nextStack then Function.update h.allIn maxSeat false
              else h.allIn })
    | _ => pure (seats, h)

theorem commitChipsChecked_eq {seat : SeatIdx} {amount : Nat} (hle : amount ≤ (seats seat).stack) :
    commitChipsChecked seats h seat amount = commitChips seats h seat amount := by
  simp only [commitChipsChecked, commitChips, subUint64Checked_of_le hle, ok_bind]

theorem postBlindCommitChecked_eq (seats : Seats) (h : Hand) (seat : SeatIdx) (amount : Nat) :
    postBlindCommitChecked seats h seat amount = postBlindCommit seats h seat amount := by
  simp only [postBlindCommitChecked, postBlindCommit, commitChipsChecked_eq (Nat.min_le_right _ _)]

theorem toCallChecked_eq (h : Hand) (seat : SeatIdx) :
    toCallChecked h seat = .ok (toCall h seat) := by
  unfold toCallChecked toCall
  split
  · rename_i hle
    rw [Nat.sub_eq_zero_of_le hle]
    rfl
  · exact subUint64Checked_of_le (by omega) _

theorem applyCallChecked_eq (seats : Seats) (h : Hand) (seat : SeatIdx) :
    applyCallChecked seats h seat = applyCall seats h seat := by
  simp only [applyCallChecked, applyCall, toCallChecked_eq, ok_bind,
    commitChipsChecked_eq (Nat.min_le_right _ _)]

theorem applyBetToChecked_eq (minBet : Nat) (seats : Seats) (h : Hand)
    (seat : SeatIdx) (desired : Nat) :
    applyBetToChecked minBet seats h seat desired = applyBetTo minBet seats h seat desired := by
  apply bind_congr_ok
  intro _ hmore
  apply bind_congr_ok
  intro maxCommit hmax
  apply bind_congr_ok
  intro _ hchips
  apply bind_congr_ok
  intro _ hlevel
  apply bind_congr_ok
  intro _ _
  rw [rejectIf_eq_ok] at hmore hchips hlevel
  have hmax := addUint64Checked_ok hmax
  rw [subUint64Checked_of_le (by omega), ok_bind]
  apply bind_congr_ok
  intro raised _
  rw [subUint64Checked_of_le (by omega), ok_bind]
  exact commitChipsChecked_eq (by omega)

theorem returnUncalledStreetExcessChecked_eq (seats : Seats) (h : Hand) :
    returnUncalledStreetExcessChecked seats h = returnUncalledStreetExcess seats h := by
  unfold returnUncalledStreetExcessChecked returnUncalledStreetExcess
  apply if_congr Iff.rfl rfl
  generalize (List.finRange 9).filter
    (fun i => decide (h.streetCommit i = maxCommitThisStreet h)) = holders
  match holders with
  | [maxSeat] =>
    simp only [subUint64Checked_of_le (secondMax_le h), ok_bind]
    apply bind_congr_ok
    intro nextStack _
    apply bind_congr_ok
    intro _ hstreet
    apply bind_congr_ok
    intro _ htotal
    rw [rejectIf_eq_ok] at hstreet htotal
    rw [subUint64Checked_of_le (by omega), ok_bind, subUint64Checked_of_le (by omega), ok_bind]
  | [] => rfl
  | _ :: _ :: _ => rfl

/-- In every run: a seat that was dealt in and whose occupant has not left has,
in its stack and in the pot, the stack of just before `StartHand`; no street
commitment exceeds the total one; and the functions that move these chips never
subtract the larger from the smaller. -/
theorem chips_of_seat (env : Env) (tid : Nat) (balances : env.bank.Balances)
    (messages : List (Msg env)) {t : Table} {h : Hand}
    (hget : (dealRun env tid balances messages).1.getTable tid = some t)
    (hhand : t.hand = some h) :
    let deal := (dealRun env tid balances messages).2
    (∀ i, h.inHand i = true → deal.left i = false →
      (t.seats i).player = (deal.seats i).player ∧
        (t.seats i).stack + h.totalCommit i = (deal.seats i).stack) ∧
    (∀ i, h.streetCommit i ≤ h.totalCommit i) ∧
    (∀ seats h seat amount, postBlindCommitChecked seats h seat amount =
      postBlindCommit seats h seat amount) ∧
    (∀ minBet seats h seat desired,
      applyBetToChecked minBet seats h seat desired =
        applyBetTo minBet seats h seat desired) ∧
    (∀ seats h seat, applyCallChecked seats h seat = applyCall seats h seat) ∧
    (∀ seats h, returnUncalledStreetExcessChecked seats h =
      returnUncalledStreetExcess seats h) := by
  have hkept := reachable_kept hget h hhand
  intro deal
  refine ⟨?_, hkept.street, postBlindCommitChecked_eq, applyBetToChecked_eq,
    applyCallChecked_eq, returnUncalledStreetExcessChecked_eq⟩
  intro i hi hstays
  exact ⟨hkept.occupant i hi hstays, hkept.chips i hi hstays⟩

theorem foldAndLeave_chips :
    ∃ t h, (dealRun ledgerEnv 1 (0 : Nat) foldAndLeaveRun).1.getTable 1 = some t ∧
      t.hand = some h ∧ h.inHand 0 = true ∧
      (t.seats 0).stack + h.totalCommit 0 =
        ((dealRun ledgerEnv 1 (0 : Nat) foldAndLeaveRun).2.seats 0).stack ∧
      (dealRun ledgerEnv 1 (0 : Nat) foldAndLeaveRun).2.left 1 = true ∧
      h.streetCommit 0 ≤ h.totalCommit 0 := by
  have hloaded :
      ((dealRun ledgerEnv 1 (0 : Nat) foldAndLeaveRun).1.getTable 1).any
        (fun t => t.hand.any fun h => h.inHand 0) = true := by
    decide +kernel
  have hdeal : (dealRun ledgerEnv 1 (0 : Nat) foldAndLeaveRun).2.left 0 = false ∧
      (dealRun ledgerEnv 1 (0 : Nat) foldAndLeaveRun).2.left 1 = true := by
    decide +kernel
  obtain ⟨t, hget, hhand⟩ := (Option.any_eq_true _ _).mp hloaded
  obtain ⟨h, hhand, hin⟩ := (Option.any_eq_true _ _).mp hhand
  have hchips := chips_of_seat ledgerEnv 1 (0 : Nat) foldAndLeaveRun hget hhand
  exact ⟨t, h, hget, hhand, hin, (hchips.1 0 hin hdeal.1).2, hdeal.2, hchips.2.1 0⟩

end OnChainPoker.Poker
