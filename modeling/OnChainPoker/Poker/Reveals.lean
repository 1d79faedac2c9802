import Mathlib.Data.List.Find
import OnChainPoker.Poker.HandLife
import OnChainPoker.Poker.Timeouts

/-!
# The awaited card

Between messages the position a hand waits for is the one that
`dealerExpectedRevealPos` computes.  It stays in step with the board, with the
players who are still in the hand and with the cards that are public, because no
two hole cards share a position and because players who have not folded keep
their seats.
-/

namespace OnChainPoker.Poker

open Foundation

variable {env : Env} {i seat : SeatIdx} {h h' : Hand} {amount pos tid : Nat} {seats seats' : Seats}
  {params : TableParams} {t t' : Table} {s : State env}

/-! ## The deal -/

structure SlotsApart (dealt : SeatIdx → Bool) (positions : SeatIdx → Fin 2 → Nat)
    (next : Nat) : Prop where
  below : ∀ i c, positions i c ≠ unsetPos → positions i c < next
  apart : ∀ i c j d, positions i c ≠ unsetPos → positions i c = positions j d →
    i = j ∧ c = d
  dealt : ∀ i c, positions i c ≠ unsetPos → dealt i = true

variable {dealt : SeatIdx → Bool} {c : Fin 2} {deposit withdrawal : Nat} {m : Msg env}

theorem SlotsApart.deal {positions : SeatIdx → Fin 2 → Nat} {next : Nat}
    (hslots : SlotsApart dealt positions next) (hseat : dealt seat = true) (hole : Fin 2) :
    SlotsApart dealt (Function.update positions seat
      (Function.update (positions seat) hole next)) (next + 1) := by
  have hnew : Function.update positions seat
      (Function.update (positions seat) hole next) seat hole = next := by simp
  have hold : ∀ i c, ¬ (i = seat ∧ c = hole) → Function.update positions seat
      (Function.update (positions seat) hole next) i c = positions i c := by
    intro i c hne
    by_cases hi : i = seat
    · subst hi
      have hc : c ≠ hole := fun hc => hne ⟨rfl, hc⟩
      simp [hc]
    · simp [hi]
  -- an older position is below `next`, so it is not the new one
  have holder : ∀ i c, ¬ (i = seat ∧ c = hole) → positions i c ≠ unsetPos → positions i c ≠ next :=
    fun i c _ hset => (hslots.below i c hset).ne
  constructor
  · intro i c hset
    by_cases hhere : i = seat ∧ c = hole
    · obtain ⟨rfl, rfl⟩ := hhere
      omega
    · rw [hold i c hhere] at hset ⊢
      exact (hslots.below i c hset).trans (Nat.lt_succ_self _)
  · intro i c j d hset heq
    by_cases hhere : i = seat ∧ c = hole
    · by_cases hthere : j = seat ∧ d = hole
      · exact ⟨hhere.1.trans hthere.1.symm, hhere.2.trans hthere.2.symm⟩
      · obtain ⟨rfl, rfl⟩ := hhere
        rw [hold j d hthere] at heq
        rw [heq] at hset
        rw [hnew] at heq
        exact absurd heq.symm (holder j d hthere hset)
    · rw [hold i c hhere] at hset heq
      by_cases hthere : j = seat ∧ d = hole
      · obtain ⟨rfl, rfl⟩ := hthere
        rw [hnew] at heq
        exact absurd heq (holder i c hhere hset)
      · rw [hold j d hthere] at heq
        exact hslots.apart i c j d hset heq
  · intro i c hset
    by_cases hhere : i = seat ∧ c = hole
    · rw [hhere.1]
      exact hseat
    · rw [hold i c hhere] at hset
      exact hslots.dealt i c hset

theorem assignSlots_apart (deckLen : Nat) (slots : List (SeatIdx × Fin 2))
    (hslots : ∀ slot ∈ slots, dealt slot.1 = true) (positions : SeatIdx → Fin 2 → Nat)
    (next : Nat) (hapart : SlotsApart dealt positions next) :
    let result := slots.foldl (assignSlot deckLen) (positions, next)
    SlotsApart dealt result.1 result.2 ∧ result.2 ≤ next + slots.length := by
  induction slots generalizing positions next with
  | nil => exact ⟨hapart, Nat.le_refl _⟩
  | cons slot slots ih =>
    have hrest : ∀ slot ∈ slots, dealt slot.1 = true :=
      fun s hs => hslots s (List.mem_cons_of_mem _ hs)
    simp only [List.foldl_cons, List.length_cons, assignSlot]
    split
    · obtain ⟨hdone, hle⟩ := ih hrest positions next hapart
      exact ⟨hdone, by omega⟩
    · obtain ⟨hdone, hle⟩ := ih hrest _ _ (hapart.deal (hslots slot List.mem_cons_self) slot.2)
      exact ⟨hdone, by omega⟩

structure DealtApart (h : Hand) : Prop where
  slots : SlotsApart h.inHand h.dealer.holePos h.dealer.cursor
  cursor : h.dealer.cursor ≤ 18

theorem holeDealOrder_length_le (h : Hand) : (holeDealOrder h).length ≤ 9 := by
  refine (List.length_filter_le _ _).trans ?_
  simp

theorem finalizeDealerMeta_apart (h : Hand) (deckLen : Nat) :
    DealtApart { h with dealer := finalizeDealerMeta h deckLen } := by
  have hlength := length_dealSlots (holeDealOrder h)
  have hfew := holeDealOrder_length_le h
  have hslots : ∀ slot ∈ dealSlots (holeDealOrder h), h.inHand slot.1 = true := by
    intro slot hslot
    simp only [dealSlots, List.mem_flatMap, List.mem_map] at hslot
    obtain ⟨c, _, seat, hseat, rfl⟩ := hslot
    exact (List.mem_filter.mp hseat).2
  have hstart : SlotsApart h.inHand (fun _ _ => unsetPos) 0 :=
    ⟨fun _ _ hset => absurd rfl hset, fun _ _ _ _ hset => absurd rfl hset,
      fun _ _ hset => absurd rfl hset⟩
  obtain ⟨hdone, hle⟩ := assignSlots_apart deckLen _ hslots _ 0 hstart
  refine ⟨hdone, ?_⟩
  simp only [finalizeDealerMeta, assignHolePositions]
  omega

theorem freshDealerMeta_apart (hpos : h.dealer.holePos = fun _ _ => unsetPos)
    (hcursor : h.dealer.cursor = 0) : DealtApart h := by
  refine ⟨⟨?_, ?_, ?_⟩, by omega⟩
  · intro i c hset
    rw [hpos] at hset
    exact absurd rfl hset
  · intro i c j d hset
    rw [hpos] at hset
    exact absurd rfl hset
  · intro i c hset
    rw [hpos] at hset
    exact absurd rfl hset

theorem DealtApart.of_same (hsame : SameDeck h h') (hdeal : DealtApart h) : DealtApart h' := by
  refine ⟨?_, ?_⟩
  · rw [hsame.inHand, hsame.holePos, hsame.cursor]
    exact hdeal.slots
  · rw [hsame.cursor]
    exact hdeal.cursor

theorem dealerPosToSeatHole_eq (hdeal : DealtApart h) (hset : h.dealer.holePos i c ≠ unsetPos) :
    dealerPosToSeatHole h.dealer.holePos (h.dealer.holePos i c) = some (i, c) := by
  unfold dealerPosToSeatHole
  cases hfind : List.find? _ _ with
  | none =>
    rw [List.find?_eq_none] at hfind
    refine absurd ?_ (hfind (i, c) ?_)
    · simp
    · simp only [List.mem_flatMap, List.mem_finRange, true_and]
      have hc : c = 0 ∨ c = 1 := by omega
      exact ⟨i, by rcases hc with rfl | rfl <;> simp⟩
  | some slot =>
    have hslot := List.find?_some hfind
    simp only [decide_eq_true_eq] at hslot
    obtain ⟨hi, hc⟩ := hdeal.slots.apart i c slot.1 slot.2 hset hslot.symm
    rw [hi, hc]

theorem dealerPosToSeatHole_some {holePos : SeatIdx → Fin 2 → Nat} {hole : Fin 2}
    (hfind : dealerPosToSeatHole holePos pos = some (seat, hole)) :
    holePos seat hole = pos := by
  have hslot := List.find?_some hfind
  simpa using hslot

/-! ## The expected position -/

theorem seatHolePositions_ok {own : List Nat} (hok : seatHolePositions h i = .ok own) :
    (inHandNotFolded h i = true → ∀ c, h.dealer.holePos i c ≠ unsetPos) ∧
      ∀ pos, pos ∈ own ↔ inHandNotFolded h i = true ∧ ∃ c, h.dealer.holePos i c = pos := by
  unfold seatHolePositions at hok
  split at hok
  · rename_i hout
    cases hok
    simp [hout]
  · rename_i hlive
    simp only [ok_iff, exists_const, not_or] at hok
    obtain ⟨⟨hfirst, hsecond⟩, rfl⟩ := hok
    have hlive : inHandNotFolded h i = true := by simpa using hlive
    refine ⟨fun _ c => ?_, fun pos => ?_⟩
    · have hc : c = 0 ∨ c = 1 := by omega
      rcases hc with rfl | rfl
      · exact hfirst
      · exact hsecond
    · simp [hlive, Fin.exists_fin_two, eq_comm]

theorem dealerEligibleShowdownHolePositions_ok {eligible : List Nat}
    (hok : dealerEligibleShowdownHolePositions h = .ok eligible) :
    (∀ i c, inHandNotFolded h i = true → h.dealer.holePos i c ≠ unsetPos) ∧
      ∀ pos, pos ∈ eligible ↔ ∃ i c, inHandNotFolded h i = true ∧ h.dealer.holePos i c = pos := by
  have hloop : ∀ (seats : List SeatIdx) (start found : List Nat),
      seats.foldlM (fun pos seat => do
        let own ← seatHolePositions h seat
        pure (pos ++ own)) start = .ok found →
      (∀ i ∈ seats, ∀ c, inHandNotFolded h i = true → h.dealer.holePos i c ≠ unsetPos) ∧
      ∀ pos, pos ∈ found ↔ pos ∈ start ∨ ∃ i ∈ seats, ∃ c,
        inHandNotFolded h i = true ∧ h.dealer.holePos i c = pos := by
    intro seats
    induction seats with
    | nil =>
      intro start found hfound
      cases hfound
      simp
    | cons seat seats ih =>
      intro start found hfound
      simp only [List.foldlM_cons, ok_iff] at hfound
      obtain ⟨_, ⟨own, hown, rfl⟩, hrest⟩ := hfound
      obtain ⟨hset, hmem⟩ := seatHolePositions_ok hown
      obtain ⟨hsets, hmems⟩ := ih _ _ hrest
      refine ⟨?_, fun pos => ?_⟩
      · intro i hi c hlive
        rcases List.mem_cons.mp hi with rfl | hi
        · exact hset hlive c
        · exact hsets i hi c hlive
      · rw [hmems, List.mem_append, hmem]
        simp only [List.mem_cons, exists_eq_or_imp, exists_and_left]
        rw [or_assoc]
  simp only [dealerEligibleShowdownHolePositions, ok_iff] at hok
  obtain ⟨found, hfound, rfl⟩ := hok
  obtain ⟨hset, hmem⟩ := hloop _ _ _ hfound
  refine ⟨fun i c => hset i (List.mem_finRange i) c, fun pos => ?_⟩
  rw [List.mem_insertionSort, hmem]
  simp

theorem holeHidden_eq (hdeal : DealtApart h) (seats : Seats)
    (hset : h.dealer.holePos i c ≠ unsetPos) :
    holeHidden seats h (h.dealer.holePos i c) = decide ((seats i).hole c = unknownCard) := by
  simp only [holeHidden, dealerPosToSeatHole_eq hdeal hset]

theorem dealerNextShowdownHolePos_ok (hdeal : DealtApart h)
    {next : Option Nat} (hok : dealerNextShowdownHolePos seats h = .ok next) :
    (∀ pos, next = some pos → ∃ i c, inHandNotFolded h i = true ∧
      h.dealer.holePos i c = pos ∧ pos ≠ unsetPos ∧
      (seats i).hole c = unknownCard) ∧
    (next = none → ∀ i c, inHandNotFolded h i = true → (seats i).hole c ≠ unknownCard) := by
  simp only [dealerNextShowdownHolePos, ok_iff] at hok
  obtain ⟨eligible, hok, rfl⟩ := hok
  obtain ⟨hset, hmem⟩ := dealerEligibleShowdownHolePositions_ok hok
  constructor
  · intro pos hfind
    obtain ⟨i, c, hlive, rfl⟩ := (hmem pos).mp (List.mem_of_find?_eq_some hfind)
    have hhidden := List.find?_some hfind
    rw [holeHidden_eq hdeal seats (hset i c hlive)] at hhidden
    exact ⟨i, c, hlive, rfl, hset i c hlive, by simpa using hhidden⟩
  · intro hnone i c hlive
    rw [List.find?_eq_none] at hnone
    have hhidden := hnone _ ((hmem _).mpr ⟨i, c, hlive, rfl⟩)
    rw [holeHidden_eq hdeal seats (hset i c hlive)] at hhidden
    simpa using hhidden

section

variable (hdeal : DealtApart h)
  (hhole : ∀ i, inHandNotFolded h i = true → (seats' i).hole = (seats i).hole)
include hdeal hhole

theorem dealerNextShowdownHolePos_congr :
    dealerNextShowdownHolePos seats' h = dealerNextShowdownHolePos seats h := by
  unfold dealerNextShowdownHolePos
  cases hok : dealerEligibleShowdownHolePositions h with
  | error e => rfl
  | ok eligible =>
    obtain ⟨hset, hmem⟩ := dealerEligibleShowdownHolePositions_ok hok
    have hfind : eligible.find? (holeHidden seats' h) = eligible.find? (holeHidden seats h) := by
      apply List.find?_congr
      intro pos hpos
      obtain ⟨i, c, hlive, rfl⟩ := (hmem pos).mp hpos
      rw [holeHidden_eq hdeal _ (hset i c hlive),
        holeHidden_eq hdeal _ (hset i c hlive), hhole i hlive]
    simp only [ok_bind, hfind]

theorem dealerExpectedRevealPos_congr :
    dealerExpectedRevealPos seats' h = dealerExpectedRevealPos seats h := by
  unfold dealerExpectedRevealPos
  rw [dealerNextShowdownHolePos_congr hdeal hhole]

end

def HandPhase.awaits : HandPhase → Bool
  | .awaitFlop => true
  | .awaitTurn => true
  | .awaitRiver => true
  | .awaitShowdown => true
  | _ => false

theorem dealerExpectedRevealPos_ok {expected : Option Nat}
    (hok : dealerExpectedRevealPos seats h = .ok expected) :
    h.dealer.deckFinalized = true ∧ ((boardTarget h.phase ≠ none ∧ expected = some (boardPos h) ∧
          boardPos h < h.dealer.deckSize) ∨
        (h.phase = .awaitShowdown ∧ dealerNextShowdownHolePos seats h = .ok expected) ∨
        (h.phase.awaits = false ∧ expected = none)) := by
  simp only [dealerExpectedRevealPos, ok_iff, exists_const, Bool.not_eq_false] at hok
  obtain ⟨hfinal, _, hok⟩ := hok
  refine ⟨hfinal, ?_⟩
  cases hphase : h.phase <;>
    simp only [hphase, expectBoardPos, ok_iff, exists_const, not_le, ge_iff_le] at hok
  case awaitFlop => exact .inl ⟨by simp [boardTarget], hok.2.2.symm, hok.2.1⟩
  case awaitTurn => exact .inl ⟨by simp [boardTarget], hok.2.2.symm, hok.2.1⟩
  case awaitRiver => exact .inl ⟨by simp [boardTarget], hok.2.2.symm, hok.2.1⟩
  case awaitShowdown => exact .inr (.inl ⟨rfl, hok.2⟩)
  all_goals exact .inr (.inr ⟨rfl, hok.symm⟩)

def RevealValid (seats : Seats) (h : Hand) : Prop :=
  if h.phase = .shuffle then
    h.dealer.revealPos = unsetPos ∧ h.dealer.revealDeadline = 0
  else ∃ expected, dealerExpectedRevealPos seats h = .ok expected ∧
    h.dealer.revealPos = expected.getD unsetPos ∧
    (0 < h.dealer.revealDeadline ↔ expected.isSome)

theorem RevealValid.expected (hvalid : RevealValid seats h) (hphase : h.phase ≠ .shuffle) :
    ∃ expected, dealerExpectedRevealPos seats h = .ok expected ∧
      h.dealer.revealPos = expected.getD unsetPos ∧
      (0 < h.dealer.revealDeadline ↔ expected.isSome) := by
  simpa only [RevealValid, hphase, if_false] using hvalid

theorem setDeadlines_reveal {block : Block}
    (hok : setDeadlines params seats h block.unix = .ok h') (hphase : h.phase ≠ .shuffle) :
    RevealValid seats h' := by
  simp only [setDeadlines, setRevealDeadlineIfAwaiting, ok_iff] at hok
  obtain ⟨middle, ⟨expected, hexpected, hmiddle⟩, haction⟩ := hok
  obtain ⟨action, rfl⟩ := setActionDeadlineIfBetting_ok haction
  cases expected with
  | none =>
    cases hmiddle
    simp only [RevealValid, hphase, if_false]
    exact ⟨none, hexpected, rfl, by simp⟩
  | some pos =>
    simp only [ok_iff] at hmiddle
    obtain ⟨deadline, hdeadline, rfl⟩ := hmiddle
    have hlater := addInt64AndU64Checked_ok hdeadline
    have hnow := block.unix_pos
    simp only [RevealValid, hphase, if_false]
    refine ⟨some pos, hexpected, rfl, ?_⟩
    simp only [Option.isSome_some, iff_true]
    omega

/-! ## Frames of the betting actions -/

theorem performAction_hole {action : Action}
    (hok : performAction params seats h seat action amount = .ok (seats', h'))
    (i : SeatIdx) : (seats' i).hole = (seats i).hole := by
  cases performAction_cases hok with
  | fold | check _ => rfl
  | call _ hcommit => exact commitChips_hole hcommit i
  | bet hbet | raise hbet =>
    obtain ⟨_, _, _, _, _, hcommit⟩ := applyBetTo_ok hbet
    exact commitChips_hole hcommit i

theorem returnUncalledStreetExcess_frame
    (hok : returnUncalledStreetExcess seats h = .ok (seats', h')) :
    h'.folded = h.folded ∧ ∀ i, (seats' i).hole = (seats i).hole := by
  cases returnUncalledStreetExcess_cases hok with
  | same => exact ⟨rfl, fun _ => rfl⟩
  | refund maxSeat _ _ _ =>
    refine ⟨rfl, fun i => ?_⟩
    by_cases hi : i = maxSeat
    · subst hi
      simp
    · simp [hi]

/-! ## Hidden cards -/

/-- At least two players have not folded; their cards are hidden before the
showdown, and during it some card is. -/
structure Contested (seats : Seats) (h : Hand) : Prop where
  players : 2 ≤ countNotFolded h
  hidden : h.phase ≠ .awaitShowdown → ∀ i, inHandNotFolded h i = true →
    ∀ c, (seats i).hole c = unknownCard
  unrevealed : h.phase = .awaitShowdown → ∃ i c, inHandNotFolded h i = true ∧
    (seats i).hole c = unknownCard

theorem Contested.of_hidden (hplayers : 2 ≤ countNotFolded h)
    (hhidden : ∀ i, inHandNotFolded h i = true → ∀ c, (seats i).hole c = unknownCard) :
    Contested seats h := by
  refine ⟨hplayers, fun _ => hhidden, fun _ => ?_⟩
  have hsome : 0 < (List.finRange 9).countP (inHandNotFolded h) := by
    unfold countNotFolded at hplayers
    omega
  obtain ⟨i, _, hlive⟩ := List.countP_pos_iff.mp hsome
  exact ⟨i, 0, hlive, hhidden i hlive 0⟩

theorem countNotFolded_congr (hin : h'.inHand = h.inHand) (hfolded : h'.folded = h.folded) :
    countNotFolded h' = countNotFolded h := by
  unfold countNotFolded inHandNotFolded
  rw [hin, hfolded]

theorem HandChange.contested (hdeal : DealtApart h) (hcontested : Contested seats h)
    (hchange : HandChange params seats h seats' h') : Contested seats' h' := by
  have hmoves := hchange.moves
  cases hchange with
  | turn hacted =>
    have hbefore := hcontested.hidden (by simp [hacted.phase])
    refine .of_hidden hacted.players fun i hlive c => ?_
    rw [performAction_hole hacted.performed]
    exact hbefore i (hmoves.live i hlive) c
  | @close _ _ _ settled _ _ _ hacted hexcess =>
    have hbefore := hcontested.hidden (by simp [hacted.phase])
    obtain ⟨hfolded, hkept⟩ := returnUncalledStreetExcess_frame hexcess
    have hin := (returnUncalledStreetExcess_moves hexcess).inHand
    have hplayers : 2 ≤ countNotFolded settled := by
      rw [countNotFolded_congr hin hfolded]
      exact hacted.players
    refine .of_hidden hplayers fun i hlive c => ?_
    rw [hkept, performAction_hole hacted.performed]
    exact hbefore i (hmoves.live i hlive) c
  | card htarget _ | await htarget | resume htarget _ =>
    refine .of_hidden hcontested.players (hcontested.hidden fun hshow => ?_)
    rw [hshow] at htarget
    cases htarget
  | @hole _ next _ _ hphase hleft =>
    -- while hole cards are revealed one of them is always left
    obtain ⟨hsome, _⟩ := dealerNextShowdownHolePos_ok hdeal hleft
    obtain ⟨i, c, hlive, _, _, hhidden⟩ := hsome next rfl
    exact ⟨hcontested.players, fun hother => absurd hphase hother, fun _ => ⟨i, c, hlive, hhidden⟩⟩
  | deal hphase _ => exact .of_hidden hcontested.players (hcontested.hidden (by simp [hphase]))

theorem HandStep.contested (hdeal : DealtApart h)
    (hcontested : Contested seats h) (hstep : HandStep params seats h seats' (some h')) :
    Contested seats' h' := by
  rcases hstep.change with ⟨rfl, _, rfl⟩ | ⟨next, _, _, _, hchange, rfl⟩
  · exact ⟨hcontested.players, hcontested.hidden, hcontested.unrevealed⟩
  · have hnext := hchange.contested hdeal hcontested
    exact ⟨hnext.players, hnext.hidden, hnext.unrevealed⟩

/-! ## Standing hands -/

structure HandStanding (seats : Seats) (h : Hand) : Prop where
  numbered : h.handId ≠ 0
  board : BoardValid h
  unfolded : h.phase = .shuffle → ∀ i, h.folded i = false
  deck : h.dealer.deckSize = 0 ∨ h.dealer.deckSize = 52 → DeckValid h
  deal : DealtApart h
  seated : ∀ i, inHandNotFolded h i = true → (seats i).player ≠ ""
  contested : Contested seats h
  reveal : RevealValid seats h

theorem BoardValid.length_le (hboard : BoardValid h) : h.board.length ≤ 5 := by
  unfold BoardValid at hboard
  split at hboard
  · simp [hboard.2]
  · rw [hboard]
    cases h.street <;> simp [boardLength]
  · omega
  · omega
  · omega
  · omega
  · exact hboard.elim

theorem HandStanding.boardPos_eq (hstanding : HandStanding seats h) :
    boardPos h = h.dealer.cursor + h.board.length := by
  have hcursor := hstanding.deal.cursor
  have hlen := hstanding.board.length_le
  exact Nat.mod_eq_of_lt (by omega)

theorem HandStanding.awaited (hstanding : HandStanding seats h) (hphase : h.phase.awaits = true) :
    dealerExpectedRevealPos seats h = .ok (some h.dealer.revealPos) ∧
      h.dealer.revealPos ≠ unsetPos ∧ 0 < h.dealer.revealDeadline := by
  have hnot : h.phase ≠ .shuffle := by
    intro hshuffle
    rw [hshuffle] at hphase
    cases hphase
  obtain ⟨expected, hexpected, hpos, hdeadline⟩ := hstanding.reveal.expected hnot
  obtain ⟨_, ⟨_, rfl, _⟩ | ⟨hshow, hnext⟩ | ⟨hidle, _⟩⟩ := dealerExpectedRevealPos_ok hexpected
  · have hcursor := hstanding.deal.cursor
    have hlen := hstanding.board.length_le
    have hsmall : boardPos h ≤ 23 := by
      rw [hstanding.boardPos_eq]
      omega
    simp only [Option.getD_some] at hpos
    refine ⟨by rw [hpos]; exact hexpected, ?_, hdeadline.mpr rfl⟩
    rw [hpos, unsetPos]
    omega
  · obtain ⟨hsome, hnone⟩ := dealerNextShowdownHolePos_ok hstanding.deal hnext
    cases expected with
    | none =>
      obtain ⟨i, c, hlive, hhidden⟩ := hstanding.contested.unrevealed hshow
      exact absurd hhidden (hnone rfl i c hlive)
    | some pos =>
      obtain ⟨_, _, _, _, hset, _⟩ := hsome pos rfl
      refine ⟨by rw [hpos]; exact hexpected, ?_, hdeadline.mpr rfl⟩
      rw [hpos]
      exact hset
  · rw [hidle] at hphase
    cases hphase

theorem HandStep.reveal_valid (hvalid : RevealValid seats h)
    (hstep : HandStep params seats h seats' (some h')) : RevealValid seats' h' := by
  rcases hstep.set with ⟨rfl, _, hok⟩ | ⟨next, hchange, _, hset⟩
  · obtain ⟨_, rfl⟩ := setActionDeadlineIfBetting_ok hok
    exact hvalid
  · exact setDeadlines_reveal hset hchange.ne_shuffle

theorem HandStanding.reseated (hstanding : HandStanding seats h)
    (hkept : SeatsKept params h seats seats') : HandStanding seats' h := by
  have hhole : ∀ i, inHandNotFolded h i = true → (seats' i).hole = (seats i).hole :=
    fun i hlive => (hkept.live i hlive).2.2
  refine { hstanding with seated := ?_, contested := ?_, reveal := ?_ }
  · intro i hlive
    rw [(hkept.live i hlive).1]
    exact hstanding.seated i hlive
  · refine ⟨hstanding.contested.players, fun hphase i hlive c => ?_, fun hphase => ?_⟩
    · rw [hhole i hlive]
      exact hstanding.contested.hidden hphase i hlive c
    · obtain ⟨i, c, hlive, hhidden⟩ := hstanding.contested.unrevealed hphase
      exact ⟨i, c, hlive, by rw [hhole i hlive]; exact hhidden⟩
  · unfold RevealValid
    rw [dealerExpectedRevealPos_congr hstanding.deal hhole]
    exact hstanding.reveal

section

variable (hstanding : HandStanding seats h)
include hstanding

theorem HandStep.standing
    (hstep : HandStep params seats h seats' (some h')) : HandStanding seats' h' := by
  have hsame := hstep.sameDeck
  have hmoves := hstep.moves
  constructor
  · rw [hsame.handId]
    exact hstanding.numbered
  · exact hstep.board hstanding.board
  · intro hphase
    obtain ⟨_, rfl⟩ := (hstep.of_shuffle hphase).2
    exact hstanding.unfolded hphase
  · intro hsize
    rw [hsame.deckSize] at hsize
    exact hstep.deck (hstanding.deck hsize)
  · exact hstanding.deal.of_same hsame
  · intro i hlive
    rw [hmoves.keeps.owners.player i]
    exact hstanding.seated i (hmoves.live i hlive)
  · exact hstep.contested hstanding.deal hstanding.contested
  · exact hstep.reveal_valid hstanding.reveal

theorem HandStanding.vacant (hplayer : (seats i).player = "") : inHandNotFolded h i = false := by
  cases hlive : inHandNotFolded h i with
  | false => rfl
  | true => exact absurd hplayer (hstanding.seated i hlive)

theorem HandStanding.withDealer (hphase : h.phase = .shuffle) {dealer : DealerMeta}
    (hdeck : dealer.deckSize = 0 ∨ dealer.deckSize = 52 → DeckValid { h with dealer := dealer })
    (hdeal : DealtApart { h with dealer := dealer }) (hpos : dealer.revealPos = unsetPos)
    (hdeadline : dealer.revealDeadline = 0) :
    HandStanding seats { h with dealer := dealer } := by
  refine ⟨hstanding.numbered, hstanding.board, hstanding.unfolded, hdeck, hdeal, hstanding.seated,
    ⟨hstanding.contested.players, hstanding.contested.hidden, hstanding.contested.unrevealed⟩, ?_⟩
  simp only [RevealValid, hphase, if_true]
  exact ⟨hpos, hdeadline⟩

end

theorem startHandOn_players (hok : startHandOn t = .ok t') :
    2 ≤ (occupiedSeatsWithStack t.seats).length := by
  simp only [startHandOn, ok_iff, not_lt] at hok
  obtain ⟨_, hmany, _⟩ := hok
  exact hmany

theorem startHandOn_standing (hok : startHandOn t = .ok t')
    (hvacant : ∀ i, (t.seats i).player = "" → (t.seats i).stack = 0) (hnumber : t.nextHandId ≠ 0) :
    t'.params = t.params ∧ SameOwners t.seats t'.seats ∧
      ∀ h, t'.hand = some h → HandStanding t'.seats h := by
  have hmany := startHandOn_players hok
  obtain ⟨sb, bb, seats, _, _, _, _, _, howners, _, hhole, rfl⟩ := startHandOn_fresh hok
  refine ⟨rfl, howners, ?_⟩
  intro opened hopened
  cases hopened
  refine ⟨hnumber, ⟨rfl, rfl⟩, fun _ _ => rfl, fun _ => ?_, freshDealerMeta_apart rfl rfl,
    ?_, .of_hidden ?_ fun i _ c => ?_, ?_⟩
  · simp [DeckValid, freshHand, freshDealerMeta]
  · intro i hi hplayer
    rw [howners.player i] at hplayer
    simp [inHandNotFolded, freshHand, hvacant i hplayer] at hi
  · unfold countNotFolded
    rw [List.countP_eq_length_filter]
    refine hmany.trans_eq (congrArg List.length (List.filter_congr fun i _ => ?_))
    simp [inHandNotFolded, freshHand, Nat.pos_iff_ne_zero]
  · rw [hhole]
  · simp [RevealValid, freshHand, freshDealerMeta]

/-! ## Standing tables -/

structure TableStanding (t : Table) : Prop where
  params : ParamsValid t.params
  keys : ∀ i, (t.seats i).player ≠ "" → (t.seats i).pk.length = pointBytes
  hand : ∀ h, t.hand = some h → HandStanding t.seats h

theorem SameOwners.keys (howners : SameOwners seats seats')
    (hkeys : ∀ i, (seats i).player ≠ "" → (seats i).pk.length = pointBytes)
    (i : SeatIdx) (hplayer : (seats' i).player ≠ "") :
    (seats' i).pk.length = pointBytes := by
  rw [howners.player] at hplayer
  rw [howners.pk]
  exact hkeys i hplayer

theorem keys_update {seat : Seat}
    (hkeys : ∀ j, (seats j).player ≠ "" → (seats j).pk.length = pointBytes)
    (hseat : seat.player ≠ "" → seat.pk.length = pointBytes) (j : SeatIdx)
    (hplayer : (Function.update seats i seat j).player ≠ "") :
    (Function.update seats i seat j).pk.length = pointBytes := by
  by_cases hj : j = i
  · subst hj
    rw [Function.update_self] at hplayer ⊢
    exact hseat hplayer
  · rw [Function.update_of_ne hj] at hplayer ⊢
    exact hkeys j hplayer

theorem handStanding_kept : KeptByHands fun _ => HandStanding :=
  ⟨HandStep.standing, fun hstanding hkept => hstanding.reseated (hkept hstanding.seated)⟩

theorem InnerStep.standing (hstanding : TableStanding t)
    (hstep : InnerStep t t' deposit withdrawal) : TableStanding t' := by
  obtain ⟨hparams, hkeys, hhand⟩ := hstanding
  refine ⟨hstep.params_eq ▸ hparams, ?_, hstep.hands handStanding_kept hhand⟩
  cases hstep with
  | play _ hplay => exact hplay.value_le.1.keys hkeys
  | abort _ hrefund =>
    exact ((refundCommits_credits hrefund).owners.trans (sameOwners_clearHoles _)).keys hkeys
  | rebuy i | slash i => exact keys_update hkeys (hkeys i)
  | eject i hnone _ => exact keys_update hkeys fun hne => absurd rfl hne
  | normalize =>
    intro i hplayer
    simp only [normalizeTable, normalizeSeat_player] at hplayer
    simpa [normalizeTable, normalizeSeat, hplayer] using hkeys i hplayer

theorem getTable_nextHandId (hget : s.getTable tid = some t) : t.nextHandId ≠ 0 := by
  simp only [State.getTable, Option.map_eq_some_iff] at hget
  obtain ⟨stored, _, rfl⟩ := hget
  simp only [normalizeTable]
  split <;> omega

theorem TableEffect.standing (hget : s.getTable tid = some t)
    (hstanding : TableStanding t) (heffect : TableEffect t m t' deposit withdrawal) :
    TableStanding t' := by
  obtain ⟨hparams, hkeys, hhand⟩ := hstanding
  have hstart (hstarted : startHandOn t = .ok t') :=
    startHandOn_standing hstarted (getTable_vacant hget) (getTable_nextHandId hget)
  refine ⟨heffect.params_eq ▸ hparams, ?_, heffect.hands handStanding_kept hhand
    (fun _ _ h _ hstarted hh => (hstart hstarted).2.2 h hh) ?_⟩
  · cases heffect with
    | sit req i seat _ _ _ _ _ hpk _ => exact keys_update hkeys fun _ => hpk
    | leave => exact keys_update hkeys fun hne => absurd rfl hne
    | startHand block req _ hstarted => exact (hstart hstarted).2.1.keys hkeys
    | dealerInitHand | dealerFinalizeDeck => exact hkeys
    | inner _ hrun => exact (hrun.keeps InnerStep.standing ⟨hparams, hkeys, hhand⟩).keys
  · intro h dealer _ hstanding hphase hset
    cases hset with
    | @init _ _ _ deckSize htwo hmax =>
      refine hstanding.withDealer hphase (fun hsize => ?_) (freshDealerMeta_apart rfl rfl) rfl rfl
      have hfew := holeDealOrder_length_le h
      have hfull : deckSize = 52 := hsize.resolve_left (by
        simp only [initDealerMeta]
        omega)
      refine ⟨hphase, .inr ⟨?_, hmax⟩⟩
      change 2 * (holeDealOrder h).length + 5 ≤ deckSize
      omega
    | finalize hsize hopen =>
      exact hstanding.withDealer hphase
        (fun hsized => (hstanding.deck hsized).finalize hsize hopen)
        (finalizeDealerMeta_apart _ _) rfl rfl

theorem reachable_standing {balances : env.bank.Balances} {messages : List (Msg env)}
    (hget : (run handle (State.genesis env balances) messages).getTable tid = some t) :
    TableStanding t :=
  run_tables (P := TableStanding)
    (fun _ _ hcfg => ⟨newTable_paramsValid hcfg, fun _ hne => absurd rfl hne,
      fun _ hnone => (nomatch hnone)⟩)
    (fun _ hstanding => InnerStep.normalize.standing hstanding)
    (fun _ _ hget hstanding heffect => heffect.standing hget hstanding)
    (stepsMeet_of_forall (fun _ _ _ => trivial) messages) hget

structure Numbered (s : State env) : Prop where
  next : s.nextTableId ≠ 0
  table : ∀ tid t, s.getTable tid = some t → tid ≠ 0

theorem Effect.numbered {s' : State env} (hids : IdsValid s) (hnumbered : Numbered s)
    (heffect : Effect s s' m) : Numbered s' := by
  cases heffect with
  | createTable req _ _ _ hnext htables =>
    refine ⟨by omega, fun tid t ht => ?_⟩
    by_cases htid : tid = s.nextTableId
    · rw [htid]
      exact hnumbered.next
    · rw [State.getTable, htables, AList.lookup_insert_ne htid] at ht
      exact hnumbered.table tid t ht
  | @onTable tid₀ t₀ t₁ _ _ _ ht₀ htable hreplaces _ =>
    have hid : t₁.id = tid₀ := htable.id_eq.trans (getTable_id hids ht₀).1
    refine ⟨?_, fun tid t ht => ?_⟩
    · rw [hreplaces.nextTableId]
      exact hnumbered.next
    · rw [hreplaces.getTable, hid] at ht
      split at ht
      · rename_i htid
        rw [htid]
        exact hnumbered.table tid₀ t₀ ht₀
      · exact hnumbered.table tid t ht
  | otherTransaction _ _ _ htables hnext =>
    refine ⟨by rw [hnext]; exact hnumbered.next, fun tid t ht => ?_⟩
    rw [State.getTable, htables] at ht
    exact hnumbered.table tid t ht

theorem reachable_numbered (hreach : Reachable s) : Numbered s := by
  apply hreach.invariant
  · rintro _ ⟨balances, rfl⟩
    exact ⟨by simp [State.genesis], by simp [State.genesis, State.getTable]⟩
  · intro s m s' hreach hnumbered hok
    exact (handle_effect hok).numbered (reachable_solvent hreach).1 hnumbered

end OnChainPoker.Poker
