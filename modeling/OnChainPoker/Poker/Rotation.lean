import OnChainPoker.Foundation.Circle
import OnChainPoker.Poker.Deals

/-!
# The button and the blinds

The hands of a table in the order in which they were started, with the seats that
had chips at the time.  The button and the big blind of each are what a search
behind the last one's finds, so over as many hands as there are funded seats both
go round once.
-/

namespace OnChainPoker.Poker

open Foundation

variable {env : Env} {funded : Finset SeatIdx} {i : SeatIdx} {t t' : Table}

/-! ## The funded seats -/

def fundedSeats (seats : Seats) : Finset SeatIdx :=
  Finset.univ.filter fun i => 0 < (seats i).stack

def nextAmong (funded : Finset SeatIdx) (i : SeatIdx) : Option SeatIdx :=
  Circle.next (fun j => decide (j ∈ funded)) i

theorem occupiedSeatsWithStack_length (seats : Seats) :
    (occupiedSeatsWithStack seats).length = (fundedSeats seats).card := by
  have hnodup : (occupiedSeatsWithStack seats).Nodup := (List.nodup_finRange 9).filter _
  congr 1
  ext i
  simp [occupiedSeatsWithStack, Nat.pos_iff_ne_zero]

variable {k small big : SeatIdx} {tid deposit withdrawal : Nat} {window : List Opening}

theorem nextAmong_mem (hnext : nextAmong funded i = some k) : k ∈ funded :=
  of_decide_eq_true (Circle.next_eq_some_iff.mp hnext).1

theorem nextAmong_isSome (hsome : funded.Nonempty) (i : SeatIdx) :
    ∃ k, nextAmong funded i = some k := by
  obtain ⟨j, hj⟩ := hsome
  exact Circle.next_isSome i (decide_eq_true hj)

theorem nextAmong_ne (hmany : 2 ≤ funded.card) (hnext : nextAmong funded i = some k) : i ≠ k := by
  rintro rfl
  obtain ⟨j, hj, hne⟩ := Finset.exists_mem_ne hmany i
  have hnearest := (Circle.next_eq_some_iff.mp hnext).2 j (decide_eq_true hj)
  apply hne
  apply Circle.gap_injective i
  have hlt := Circle.gap_lt i j
  rw [Circle.gap_self] at hnearest ⊢
  omega

theorem nextOccupiedSeat_eq {seats : Seats} (hsome : (fundedSeats seats).Nonempty) (i : SeatIdx) :
    nextOccupiedSeat seats (some i) = nextAmong (fundedSeats seats) i := by
  have hfind : (clockwiseAfter (some i)).find? (fun j => 0 < (seats j).stack) =
      nextAmong (fundedSeats seats) i := by
    have hsame : (fun j => decide (0 < (seats j).stack)) =
        fun j => decide (j ∈ fundedSeats seats) := by
      funext j
      simp [fundedSeats]
    rw [hsame]
    rfl
  obtain ⟨k, hk⟩ := nextAmong_isSome hsome i
  rw [nextOccupiedSeat, hfind, hk]
  rfl

/-! ## One hand -/

theorem advanceButton_funded (hsome : (fundedSeats t.seats).Nonempty) :
    ∃ button ∈ fundedSeats t.seats, advanceButton t = some button ∧ ∀ i, t.buttonSeat = some i →
        nextAmong (fundedSeats t.seats) i = some button := by
  cases hold : t.buttonSeat with
  | none =>
    have hlength : (occupiedSeatsWithStack t.seats).length ≠ 0 := by
      rw [occupiedSeatsWithStack_length]
      exact (Finset.card_pos.mpr hsome).ne'
    cases hlist : occupiedSeatsWithStack t.seats with
    | nil =>
      rw [hlist] at hlength
      exact absurd rfl hlength
    | cons first rest =>
      have hfirst : first ∈ occupiedSeatsWithStack t.seats := by simp [hlist]
      refine ⟨first, ?_, ?_, fun _ hnone => (nomatch hnone)⟩
      · simpa [occupiedSeatsWithStack, fundedSeats, Nat.pos_iff_ne_zero] using hfirst
      · simp [advanceButton, hold, hlist]
  | some i =>
    obtain ⟨button, hnext⟩ := nextAmong_isSome hsome i
    refine ⟨button, nextAmong_mem hnext, ?_, ?_⟩
    · rw [advanceButton, hold]
      exact (nextOccupiedSeat_eq hsome i).trans hnext
    · rintro _ ⟨⟩
      exact hnext

/-- The blinds of a button: the button itself or the seat after it posts the small
one, the next seat the big one. -/
structure Blinds (funded : Finset SeatIdx) (button small big : SeatIdx) : Prop where
  postsSmall : if funded.card = 2 then small = button
    else nextAmong funded button = some small
  postsBig : nextAmong funded small = some big

theorem blindSeats_funded (seats : Seats) (button : SeatIdx)
    (hmany : 2 ≤ (fundedSeats seats).card) :
    ∃ small big, blindSeats seats (some button) = (some small, some big) ∧
      Blinds (fundedSeats seats) button small big := by
  have hsome : (fundedSeats seats).Nonempty := Finset.card_pos.mp (by omega)
  simp only [blindSeats, occupiedSeatsWithStack_length, if_neg (not_lt.mpr hmany)]
  by_cases htwo : (fundedSeats seats).card = 2
  · obtain ⟨big, hbig⟩ := nextAmong_isSome hsome button
    refine ⟨button, big, ?_, ?_, hbig⟩
    · rw [if_pos htwo, nextOccupiedSeat_eq hsome, hbig]
    · rw [if_pos htwo]
  · obtain ⟨small, hsmall⟩ := nextAmong_isSome hsome button
    obtain ⟨big, hbig⟩ := nextAmong_isSome hsome small
    refine ⟨small, big, ?_, ?_, hbig⟩
    · rw [if_neg htwo, nextOccupiedSeat_eq hsome, hsmall, nextOccupiedSeat_eq hsome, hbig]
    · rwa [if_neg htwo]

theorem Blinds.small_mem {button : SeatIdx} (hblinds : Blinds funded button small big)
    (hbutton : button ∈ funded) :
    small ∈ funded := by
  have hsmall := hblinds.postsSmall
  split at hsmall
  · rwa [hsmall]
  · exact nextAmong_mem hsmall

theorem Blinds.next_big {button button' small' big' : SeatIdx}
    (hblinds : Blinds funded button small big) (hblinds' : Blinds funded button' small' big')
    (hbutton : nextAmong funded button = some button') :
    nextAmong funded big = some big' := by
  obtain ⟨hsmall, hbig⟩ := hblinds
  obtain ⟨hsmall', hbig'⟩ := hblinds'
  split at hsmall
  · rename_i htwo
    rw [if_pos htwo] at hsmall'
    subst hsmall hsmall'
    rw [hbutton] at hbig
    cases hbig
    exact hbig'
  · rename_i hmore
    rw [if_neg hmore] at hsmall'
    rw [hbutton] at hsmall
    cases hsmall
    rw [hbig] at hsmall'
    cases hsmall'
    exact hbig'

theorem postBlindCommit_fresh (seats : Seats) (h : Hand) {seat : SeatIdx}
    (amount : Nat) (hin : h.inHand seat = true) (hchips : 0 < (seats seat).stack)
    (hfits : (seats seat).stack ≤ maxUint64) (hstreet : h.streetCommit seat = 0)
    (htotal : h.totalCommit seat = 0) :
    ∃ seats' h', postBlindCommit seats h seat amount = .ok (seats', h') := by
  have hamount : 0 + min amount (seats seat).stack ≤ maxUint64 := by omega
  simp only [postBlindCommit, commitChips, rejectIf, hin, hchips.ne', hstreet, htotal,
    addUint64Checked_of_le _ hamount, ok_bind, if_false, Bool.true_eq_false]
  exact ⟨_, _, rfl⟩

theorem startHandOn_succeeds (hmany : 2 ≤ (fundedSeats t.seats).card)
    (hfits : ∀ i, (t.seats i).stack ≤ maxUint64) (hid : t.nextHandId < maxUint64) :
    ∃ t', startHandOn t = .ok t' := by
  have hsome : (fundedSeats t.seats).Nonempty := Finset.card_pos.mp (by omega)
  have hplayers : ¬ (occupiedSeatsWithStack t.seats).length < 2 := by
    rw [occupiedSeatsWithStack_length]
    omega
  obtain ⟨button, hbutton, hadvance, _⟩ := advanceButton_funded hsome
  obtain ⟨small, big, hseats, hblinds⟩ := blindSeats_funded (clearHoles t.seats) button hmany
  have hin : ∀ i ∈ fundedSeats t.seats, 0 < ((clearHoles t.seats) i).stack :=
    fun i hi => (Finset.mem_filter.mp hi).2
  have hsmall := hblinds.small_mem hbutton
  have hbig := nextAmong_mem hblinds.postsBig
  have hne := nextAmong_ne hmany hblinds.postsBig
  obtain ⟨seats, h, hfirst⟩ := postBlindCommit_fresh
    (clearHoles t.seats)
    (freshHand t.nextHandId t.params (clearHoles t.seats) (some button) small big)
    t.params.smallBlind (decide_eq_true (hin small hsmall)) (hin small hsmall)
    (hfits small) rfl rfl
  obtain ⟨hseats', hhand⟩ := commitChips_ok (postBlindCommit_ok hfirst).2
  have hother : seats big = clearHoles t.seats big := by
    rw [hseats', Function.update_of_ne hne.symm]
  obtain ⟨seats', h', hsecond⟩ := postBlindCommit_fresh seats h t.params.bigBlind
    (by rw [hhand]; exact decide_eq_true (hin big hbig))
    (by rw [hother]; exact hin big hbig) (by rw [hother]; exact hfits big)
    (by rw [hhand]; exact Function.update_of_ne hne.symm _ _)
    (by rw [hhand]; exact Function.update_of_ne hne.symm _ _)
  have hnext : t.nextHandId + 1 ≤ maxUint64 := hid
  simp only [startHandOn, rejectIf, if_neg hplayers, hadvance, hseats, require,
    addUint64Checked_of_le _ hnext, Except.mapError, hfirst, hsecond, ok_bind]
  exact ⟨_, rfl⟩

theorem startHand_succeeds {s : State env} {block : Block} {caller : String}
    (hget : s.getTable tid = some t) (hmany : 2 ≤ (fundedSeats t.seats).card)
    (hfits : ∀ i, (t.seats i).stack ≤ maxUint64) (hid : t.nextHandId < maxUint64)
    (hnone : t.hand = none) (hseated : seatOfPlayer t.seats caller ≠ none)
    (hcooldown : s.getLastHandEndedHeight tid = 0 ∨
      s.getLastHandEndedHeight tid + interHandCooldownBlocks ≤ block.height) :
    ∃ s', startHand block s ⟨caller, tid⟩ = .ok s' := by
  have hcaller : caller ≠ "" := by
    rintro rfl
    exact hseated rfl
  have hover : ¬ (s.getLastHandEndedHeight tid ≠ 0 ∧
      block.height < s.getLastHandEndedHeight tid + interHandCooldownBlocks) := by
    rintro ⟨hended, hearly⟩
    rcases hcooldown with hnever | hlate
    · exact hended hnever
    · omega
  obtain ⟨t', hstart⟩ := startHandOn_succeeds hmany hfits hid
  refine ⟨s.setTable t', ?_⟩
  simp only [startHand, rejectIf, if_neg hcaller, State.loadTable, hget, require, if_neg hseated,
    hnone, if_neg hover, hstart, ok_bind, Option.isSome_none, if_false, Bool.false_eq_true]
  rfl

/-! ## The hands of a table -/

structure Opening where
  hand : Hand
  funded : Finset SeatIdx

/-- The record after a message that was accepted at the table `t`, the last hand
at the head. -/
def openingsAfter (openings : List Opening) (t : Table) : Msg env → List Opening
  | .startHand _ _ =>
    ((startHandOn t).toOption.bind (·.hand)).elim openings
      fun h => ⟨h, fundedSeats t.seats⟩ :: openings
  | _ => openings

def openingRun (env : Env) (tid : Nat) (balances : env.bank.Balances)
    (messages : List (Msg env)) : State env × List Opening :=
  historyRun openingsAfter [] tid balances messages

structure Opening.Valid (o : Opening) : Prop where
  many : 2 ≤ o.funded.card
  blinds : ∃ button ∈ o.funded, o.hand.buttonSeat = some button ∧
    Blinds o.funded button o.hand.smallBlindSeat o.hand.bigBlindSeat
  inHand : ∀ i, o.hand.inHand i = true ↔ i ∈ o.funded

def Opening.button (o : Opening) : SeatIdx := o.hand.buttonSeat.getD 0

def Opening.Follows (later earlier : Opening) : Prop :=
  ∀ button, earlier.hand.buttonSeat = some button →
    later.hand.buttonSeat = nextAmong later.funded button

theorem startHandOn_opening (hok : startHandOn t = .ok t') :
    ∃ h, t'.hand = some h ∧ t'.buttonSeat = h.buttonSeat ∧ Opening.Valid ⟨h, fundedSeats t.seats⟩ ∧
      ∀ i, t.buttonSeat = some i → h.buttonSeat = nextAmong (fundedSeats t.seats) i := by
  have hmany : 2 ≤ (fundedSeats t.seats).card := by
    rw [← occupiedSeatsWithStack_length]
    exact startHandOn_players hok
  have hsome : (fundedSeats t.seats).Nonempty := Finset.card_pos.mp (by omega)
  obtain ⟨button, hbutton, hadvance, hnext⟩ := advanceButton_funded hsome
  obtain ⟨small, big, hseats, hblinds⟩ := blindSeats_funded (clearHoles t.seats) button hmany
  obtain ⟨sb, bb, seats, h, seats', h', hposts, hsmall, hbig, rfl⟩ := startHandOn_ok hok
  rw [hadvance, hseats, Prod.mk.injEq, Option.some.injEq, Option.some.injEq] at hposts
  obtain ⟨rfl, rfl⟩ := hposts
  obtain ⟨_, rfl⟩ := commitChips_ok (postBlindCommit_ok hsmall).2
  obtain ⟨_, rfl⟩ := commitChips_ok (postBlindCommit_ok hbig).2
  refine ⟨_, rfl, rfl, ⟨hmany, ⟨button, hbutton, hadvance, hblinds⟩, ?_⟩, ?_⟩
  · intro i
    rw [fundedSeats, Finset.mem_filter]
    exact decide_eq_true_iff.trans ⟨fun hchips => ⟨Finset.mem_univ i, hchips⟩, And.right⟩
  · intro i hi
    exact hadvance.trans (hnext i hi).symm

theorem startHandOn_dealt (hok : startHandOn t = .ok t') {h : Hand} (hhand : t'.hand = some h) :
    t'.id = t.id ∧ t'.params = t.params ∧ SameOwners t.seats t'.seats ∧
      ∀ i, h.inHand i = true → 0 < (t.seats i).stack := by
  obtain ⟨opened, hopened, _, hvalid, _⟩ := startHandOn_opening hok
  cases hhand.symm.trans hopened
  obtain ⟨_, _, _, _, _, _, _, _, howners, -, -, rfl⟩ := startHandOn_fresh hok
  refine ⟨rfl, rfl, howners, fun i hin => ?_⟩
  exact (Finset.mem_filter.mp ((hvalid.inHand i).mp hin)).2

structure TableOpenings (openings : List Opening) (t : Table) : Prop where
  valid : ∀ o ∈ openings, o.Valid
  follows : openings.IsChain Opening.Follows
  button : ∀ o ∈ openings.head?, o.hand.buttonSeat = t.buttonSeat

theorem TableOpenings.congr {openings : List Opening}
    (hopenings : TableOpenings openings t) (hbutton : t'.buttonSeat = t.buttonSeat) :
    TableOpenings openings t' :=
  ⟨hopenings.valid, hopenings.follows, fun o ho => (hopenings.button o ho).trans hbutton.symm⟩

theorem InnerStep.buttonSeat_eq (h : InnerStep t t' deposit withdrawal) :
    t'.buttonSeat = t.buttonSeat := by
  cases h <;> rfl

theorem TableEffect.openings {openings : List Opening} {m : Msg env}
    (heffect : TableEffect t m t' deposit withdrawal) (hopenings : TableOpenings openings t) :
    TableOpenings (openingsAfter openings t m) t' := by
  cases heffect with
  | startHand block req _ hok =>
    obtain ⟨h, hhand, hbutton, hvalid, hnext⟩ := startHandOn_opening hok
    have hrecord : openingsAfter openings t (.startHand block req : Msg env) =
        ⟨h, fundedSeats t.seats⟩ :: openings := by
      simp [openingsAfter, hok, Except.toOption, hhand]
    rw [hrecord]
    refine ⟨?_, ?_, ?_⟩
    · intro o ho
      rcases List.mem_cons.mp ho with rfl | ho
      · exact hvalid
      · exact hopenings.valid o ho
    · apply hopenings.follows.cons
      intro last hlast button hold
      rw [hopenings.button last hlast] at hold
      exact hnext button hold
    · rintro _ ⟨⟩
      exact hbutton.symm
  | sit req i seat | leave req i | dealerInitHand | dealerFinalizeDeck => exact hopenings.congr rfl
  | inner hinner hrun =>
    have hbutton : t'.buttonSeat = t.buttonSeat :=
      hrun.keeps (P := fun middle => middle.buttonSeat = t.buttonSeat)
        (fun hkept hstep => hstep.buttonSeat_eq.trans hkept) rfl
    have hrecord : openingsAfter openings t m = openings := by
      cases m <;> first | rfl | cases hinner
    rw [hrecord]
    exact hopenings.congr hbutton

theorem reachable_openings {balances : env.bank.Balances} {messages : List (Msg env)}
    (hget : (openingRun env tid balances messages).1.getTable tid = some t) :
    TableOpenings (openingRun env tid balances messages).2 t := by
  apply run_history (P := TableOpenings) _ _ _
    (stepsMeet_of_forall (fun _ _ => trivial) messages) hget
  · intro _ _ _
    exact ⟨by simp, List.isChain_nil, by simp⟩
  · exact fun _ _ hopenings => hopenings.congr rfl
  · exact fun _ _ _ hopenings heffect => heffect.openings hopenings

/-! ## Going round -/

/-- A place of the hands that moves on with the button is at every funded seat
once, over as many hands as there are funded seats. -/
theorem once_each {place : Opening → SeatIdx} (hfollows : window.IsChain Opening.Follows)
    (hplace : ∀ o ∈ window, place o ∈ funded)
    (hnext : ∀ later ∈ window, ∀ earlier ∈ window, later.Follows earlier →
      nextAmong funded (place earlier) = some (place later))
    (hlength : window.length = funded.card) (hi : i ∈ funded) :
    window.countP (fun o => place o = i) = 1 := by
  have hsuccessive : Circle.Successive (fun j => decide (j ∈ funded)) (window.map place) := by
    apply (List.isChain_map place).mpr
    exact hfollows.imp_of_mem_imp fun later earlier hlater hearlier =>
      hnext later hlater earlier hearlier
  have hall : (window.map place).length =
      (Finset.univ.filter fun j => decide (j ∈ funded) = true).card := by
    simpa using hlength
  have hcount := hsuccessive.count_eq_one (by simpa using hplace) hall (decide_eq_true hi)
  rw [List.count, List.countP_map] at hcount
  congr 1

theorem window_once (hvalid : ∀ o ∈ window, o.Valid)
    (hfollows : window.IsChain Opening.Follows) (hsame : ∀ o ∈ window, o.funded = funded)
    (hlength : window.length = funded.card) (hi : i ∈ funded) :
    window.countP (fun o => o.hand.buttonSeat = some i) = 1 ∧
      window.countP (fun o => o.hand.bigBlindSeat = i) = 1 := by
  have hblinds : ∀ o ∈ window, ∃ button ∈ funded, o.hand.buttonSeat = some button ∧
      Blinds funded button o.hand.smallBlindSeat o.hand.bigBlindSeat := by
    intro o ho
    have hhand := (hvalid o ho).blinds
    rwa [hsame o ho] at hhand
  have hbutton : ∀ o ∈ window, o.hand.buttonSeat = some o.button := by
    intro o ho
    obtain ⟨button, _, hseat, _⟩ := hblinds o ho
    rw [Opening.button, hseat]
    rfl
  have hmoves : ∀ later ∈ window, ∀ earlier ∈ window, later.Follows earlier →
      nextAmong funded earlier.button = some later.button := by
    intro later hlater earlier hearlier hafter
    rw [← hbutton later hlater, hafter _ (hbutton earlier hearlier), hsame later hlater]
  constructor
  · rw [← once_each hfollows _ hmoves hlength hi]
    · apply List.countP_congr
      intro o ho
      simp [hbutton o ho]
    · intro o ho
      obtain ⟨button, hmem, hseat, _⟩ := hblinds o ho
      rwa [Opening.button, hseat]
  · apply once_each hfollows _ _ hlength hi
    · intro o ho
      obtain ⟨_, _, _, hposts⟩ := hblinds o ho
      exact nextAmong_mem hposts.postsBig
    · intro later hlater earlier hearlier hafter
      obtain ⟨last, _, hlast, hold⟩ := hblinds earlier hearlier
      obtain ⟨new, _, hseat, hnew⟩ := hblinds later hlater
      apply hold.next_big hnew
      rw [← hseat, hafter last hlast, hsame later hlater]

theorem openings_valid (env : Env) (tid : Nat) (balances : env.bank.Balances)
    (messages : List (Msg env)) :
    (∀ o ∈ (openingRun env tid balances messages).2, o.Valid) ∧
      (openingRun env tid balances messages).2.IsChain Opening.Follows := by
  cases hget : (openingRun env tid balances messages).1.getTable tid with
  | none =>
    have hnone : (openingRun env tid balances messages).2 = [] := historyRun_absent hget
    rw [hnone]
    exact ⟨by simp, List.isChain_nil⟩
  | some t =>
    have hopenings := reachable_openings hget
    exact ⟨hopenings.valid, hopenings.follows⟩

/-- Every hand of every run has two different funded players in the blinds, the
button in the small one if there are two; over as many hands in a row as there
are funded seats, while these stay the same, each of them is the button once and
the big blind once.  Whenever a table has two funded seats, no hand and a hand id
left, a seated player can start the next hand once the cooldown is over. -/
theorem button_and_blinds_rotate (env : Env) (tid : Nat)
    (balances : env.bank.Balances) (messages : List (Msg env)) :
    (∀ (s : State env) (t : Table) (block : Block) (caller : String),
      s.getTable tid = some t → 2 ≤ (fundedSeats t.seats).card →
      (∀ i, (t.seats i).stack ≤ maxUint64) → t.nextHandId < maxUint64 →
      t.hand = none → seatOfPlayer t.seats caller ≠ none →
      (s.getLastHandEndedHeight tid = 0 ∨
        s.getLastHandEndedHeight tid + interHandCooldownBlocks ≤ block.height) →
      ∃ s', handle s (.startHand block ⟨caller, tid⟩) = .ok s') ∧
    (∀ o ∈ (openingRun env tid balances messages).2,
      o.hand.smallBlindSeat ≠ o.hand.bigBlindSeat ∧
      o.hand.smallBlindSeat ∈ o.funded ∧ o.hand.bigBlindSeat ∈ o.funded ∧
      o.hand.inHand o.hand.smallBlindSeat = true ∧
      o.hand.inHand o.hand.bigBlindSeat = true ∧
      (o.funded.card = 2 → o.hand.buttonSeat = some o.hand.smallBlindSeat)) ∧
    (∀ newer window older funded,
      (openingRun env tid balances messages).2 = newer ++ window ++ older →
      (∀ o ∈ window, o.funded = funded) → window.length = funded.card →
      ∀ i ∈ funded,
        window.countP (fun o => o.hand.buttonSeat = some i) = 1 ∧
        window.countP (fun o => o.hand.bigBlindSeat = i) = 1) := by
  obtain ⟨hvalid, hfollows⟩ := openings_valid env tid balances messages
  refine ⟨?_, ?_, ?_⟩
  · intro s t block caller hget hmany hfits hid hnone hseated hcooldown
    exact startHand_succeeds hget hmany hfits hid hnone hseated hcooldown
  · intro o ho
    obtain ⟨hmany, ⟨button, hbutton, hseat, hblinds⟩, hin⟩ := hvalid o ho
    have hsmall := hblinds.small_mem hbutton
    have hbig := nextAmong_mem hblinds.postsBig
    refine ⟨nextAmong_ne hmany hblinds.postsBig, hsmall, hbig, (hin _).mpr hsmall,
      (hin _).mpr hbig, ?_⟩
    intro htwo
    have hposts := hblinds.postsSmall
    rw [if_pos htwo] at hposts
    rw [hseat, hposts]
  · intro newer window older funded hrecord hsame hlength i hi
    rw [hrecord] at hvalid hfollows
    have hrecent := (List.isChain_append.mp hfollows).1
    exact window_once (fun o ho => hvalid o (by simp [ho]))
      (List.isChain_append.mp hrecent).2.1 hsame hlength hi

def twoSeatedRun : List (Msg ledgerEnv) :=
  [.createTable sampleTable,
   .sit ⟨"A", 1, 100, samplePk, []⟩,
   .sit ⟨"B", 1, 100, samplePk, []⟩]

def twoHandsRun : List (Msg ledgerEnv) :=
  twoSeatedRun ++
    [.startHand sampleBlock ⟨"A", 1⟩,
     .abortHandRefundAllCommits 1 1,
     .startHand sampleBlock ⟨"B", 1⟩]

theorem twoHands_rotate :
    (∃ s', handle (run handle (State.genesis ledgerEnv (0 : Nat)) twoSeatedRun)
      (.startHand sampleBlock ⟨"A", 1⟩) = .ok s') ∧
      (openingRun ledgerEnv 1 (0 : Nat) twoHandsRun).2.countP
        (fun o => o.hand.buttonSeat = some 0) = 1 ∧
      (openingRun ledgerEnv 1 (0 : Nat) twoHandsRun).2.countP
        (fun o => o.hand.bigBlindSeat = 0) = 1 := by
  have hloaded : ((run handle (State.genesis ledgerEnv (0 : Nat))
      twoSeatedRun).getTable 1).any (fun t => 2 ≤ (fundedSeats t.seats).card ∧
        (∀ i, (t.seats i).stack ≤ maxUint64) ∧ t.nextHandId < maxUint64 ∧
        t.hand.isNone ∧ seatOfPlayer t.seats "A" ≠ none) = true := by
    decide +kernel
  obtain ⟨t, hget, hready⟩ := (Option.any_eq_true _ _).mp hloaded
  obtain ⟨hmany, hfits, hid, hnone, hseated⟩ := of_decide_eq_true hready
  have hnever : (run handle (State.genesis ledgerEnv (0 : Nat))
      twoSeatedRun).getLastHandEndedHeight 1 = 0 := by
    decide +kernel
  have hfunded : ∀ o ∈ (openingRun ledgerEnv 1 (0 : Nat) twoHandsRun).2,
      o.funded = {0, 1} := by
    decide +kernel
  have hlength : (openingRun ledgerEnv 1 (0 : Nat) twoHandsRun).2.length =
      ({0, 1} : Finset SeatIdx).card := by
    decide +kernel
  have hrotate := button_and_blinds_rotate ledgerEnv 1 (0 : Nat) twoHandsRun
  refine ⟨hrotate.1 _ t sampleBlock "A" hget hmany hfits hid
    (Option.isNone_iff_eq_none.mp hnone) hseated (Or.inl hnever), ?_⟩
  exact hrotate.2.2 [] _ [] {0, 1} (by simp) hfunded hlength 0 (by decide)

def lastIdState : State ledgerEnv :=
  let s := run handle (State.genesis ledgerEnv (0 : Nat)) twoSeatedRun
  (s.getTable 1).elim s fun t => s.setTable { t with nextHandId := maxUint64 }

theorem lastIdState_rejects :
    (lastIdState.getTable 1).any (fun t => 2 ≤ (fundedSeats t.seats).card ∧
        (∀ i, (t.seats i).stack ≤ maxUint64) ∧ t.hand.isNone ∧
        seatOfPlayer t.seats "A" ≠ none) = true ∧
      lastIdState.getLastHandEndedHeight 1 = 0 ∧
      ¬ ∃ s', handle lastIdState (.startHand sampleBlock ⟨"A", 1⟩) = .ok s' := by
  have hrejected : (handle lastIdState
      (.startHand sampleBlock ⟨"A", 1⟩)).toOption.isNone = true := by
    decide +kernel
  refine ⟨by decide +kernel, by decide +kernel, ?_⟩
  rintro ⟨s', hok⟩
  rw [hok] at hrejected
  cases hrejected

end OnChainPoker.Poker
