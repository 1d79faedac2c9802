import OnChainPoker.Poker.Reveals

/-!
# Expected cards are never refused

A showdown can fail only where an addition of `uint64` numbers overflows.  Nothing
overflows when the chips of the table fit in one, so an expected card, whatever it
is, is always accepted.
-/

namespace OnChainPoker.Poker

open Foundation Holdem

variable {seats : Seats} {h : Hand}

/-! ## Side pots -/

theorem mulUint64Checked_of_le {a b : Nat} (field : String)
    (hfits : a * b ≤ maxUint64) : mulUint64Checked a b field = .ok (a * b) := by
  unfold mulUint64Checked
  split
  · rename_i hzero
    rcases hzero with rfl | rfl <;> simp
  · rename_i hne
    push Not at hne
    rw [if_neg]
    have hpos : 0 < b := Nat.pos_of_ne_zero hne.2
    rw [not_lt, Nat.le_div_iff_mul_le hpos]
    exact hfits

theorem potsByTier_succeeds {passes : Nat} {remaining : List Rem}
    (hfits : amountSum remaining ≤ maxUint64) :
    ∃ pots, potsByTier passes remaining = .ok pots := by
  induction passes generalizing remaining with
  | zero => exact ⟨[], rfl⟩
  | succ passes ih =>
    cases remaining with
    | nil => exact ⟨[], rfl⟩
    | cons first rest =>
      have hsplit : amountSum (first :: rest) = _ := amountSum_split fun r hr => minAmount_le hr
      have hlater : amountSum (sliceTier (minAmount (first :: rest))
          (first :: rest)) ≤ maxUint64 := by omega
      obtain ⟨pots, hpots⟩ := ih hlater
      simp only [potsByTier]
      rw [mulUint64Checked_of_le _ (by omega), ok_bind, hpots]
      exact ⟨_, rfl⟩

theorem mergeTiers_succeeds {tiers merged : List SidePot}
    (hfits : potSum (fun _ => true) merged + potSum (fun _ => true) tiers ≤ maxUint64) :
    ∃ merged', tiers.foldlM mergeTier merged = .ok merged' := by
  induction tiers generalizing merged with
  | nil => exact ⟨merged, rfl⟩
  | cons p rest ih =>
    rw [potSum_cons, if_pos rfl] at hfits
    have hone : ∃ next, mergeTier merged p = .ok next := by
      unfold mergeTier
      split
      · exact ⟨[p], rfl⟩
      · rename_i last earlier
        split
        · rw [potSum_cons, if_pos rfl] at hfits
          rw [addUint64Checked_of_le _ (by omega)]
          exact ⟨_, rfl⟩
        · exact ⟨_, rfl⟩
    obtain ⟨next, hnext⟩ := hone
    have hsum := (mergeTier_spec hnext).1 fun _ => true
    simp only [potSum_cons, potSum_nil, if_true] at hsum
    have hroom : potSum (fun _ => true) next + potSum (fun _ => true) rest ≤ maxUint64 := by omega
    obtain ⟨merged', hrest⟩ := ih hroom
    exact ⟨merged', by rw [List.foldlM_cons, hnext, ok_bind, hrest]⟩

theorem computeSidePots_succeeds {totalCommit : SeatIdx → Nat}
    (eligible : SeatIdx → Bool) (hfits : ∑ i, totalCommit i ≤ maxUint64) :
    ∃ pots, computeSidePots totalCommit eligible = .ok pots := by
  have hsum := sum_remainingCommits id rfl totalCommit eligible
  have hamount : amountSum (remainingCommits totalCommit eligible) ≤ maxUint64 := by
    exact hsum.le.trans hfits
  obtain ⟨tiers, htiers⟩ := potsByTier_succeeds hamount
  have htotal := (potsByTier_spec (Nat.le_refl _) htiers).1
  obtain ⟨merged, hmerged⟩ : ∃ merged, tiers.foldlM mergeTier [] = .ok merged := by
    apply mergeTiers_succeeds
    rw [potSum_nil, htotal, Nat.zero_add]
    exact hamount
  exact ⟨merged.reverse, by
    rw [computeSidePots, htiers, ok_bind, hmerged, ok_bind]
    rfl⟩

/-! ## Paying the pots -/

theorem credit_succeeds {amount : Nat} (i : SeatIdx) (field : String)
    (hfits : stackSum seats + amount ≤ maxUint64) :
    ∃ seats', credit seats i amount field = .ok seats' := by
  have hstack : (seats i).stack ≤ stackSum seats :=
    Finset.single_le_sum (f := fun i => (seats i).stack)
      (fun _ _ => Nat.zero_le _) (Finset.mem_univ i)
  rw [credit, addUint64Checked_of_le _ (by omega), ok_bind]
  exact ⟨_, rfl⟩

theorem shares_succeed {recipients : List SeatIdx} {share : Nat} (field : String)
    (hfits : stackSum seats + share * recipients.length ≤ maxUint64) :
    ∃ seats', recipients.foldlM (fun seats i => credit seats i share field) seats = .ok seats' := by
  induction recipients generalizing seats with
  | nil => exact ⟨seats, rfl⟩
  | cons i rest ih =>
    rw [List.length_cons, Nat.mul_succ] at hfits
    have hfirst : stackSum seats + share ≤ maxUint64 := by omega
    obtain ⟨middle, hfirst⟩ := credit_succeeds i field hfirst
    have hpaid := (credit_credits hfirst).paid
    have hroom : stackSum middle + share * rest.length ≤ maxUint64 := by omega
    obtain ⟨last, hrest⟩ := ih hroom
    exact ⟨last, by rw [List.foldlM_cons, hfirst, ok_bind, hrest]⟩

variable {pot : SidePot} {pots : List SidePot} {board5 : List Card} {pos : Nat}

theorem refundPot_succeeds (hfits : stackSum seats + pot.amount ≤ maxUint64) :
    ∃ seats', refundPot seats pot = .ok seats' := by
  unfold refundPot
  split
  · exact ⟨seats, rfl⟩
  · rename_i first others heligible
    have hdivision := Nat.div_add_mod pot.amount pot.eligibleSeats.length
    rw [heligible, List.length_cons, Nat.succ_mul] at hdivision
    rw [heligible, List.length_cons]
    have hfirst : stackSum seats + (pot.amount / (others.length + 1) +
        pot.amount % (others.length + 1)) ≤ maxUint64 := by omega
    obtain ⟨middle, hmiddle⟩ := credit_succeeds first "seat stack refund" hfirst
    have hpaid := (credit_credits hmiddle).paid
    have hothers : stackSum middle + pot.amount / (others.length + 1) *
        others.length ≤ maxUint64 := by
      rw [Nat.mul_comm]
      omega
    obtain ⟨last, hlast⟩ := shares_succeed "seat stack refund" hothers
    dsimp only
    rw [hmiddle, ok_bind, hlast]
    exact ⟨last, rfl⟩

theorem awardPot_succeeds {winners : List SeatIdx}
    (hfits : stackSum seats + pot.amount ≤ maxUint64) :
    ∃ seats', awardPot seats pot winners = .ok seats' := by
  unfold awardPot
  split
  · exact ⟨seats, rfl⟩
  · rename_i first others
    split
    · exact ⟨seats, rfl⟩
    · have hdivision := Nat.div_add_mod pot.amount (first :: others).length
      rw [List.length_cons, Nat.succ_mul] at hdivision
      rw [List.length_cons]
      have hshare : stackSum seats + pot.amount / (others.length + 1) ≤ maxUint64 := by omega
      obtain ⟨afterShare, h₁⟩ := credit_succeeds first "seat stack award" hshare
      have hpaid₁ := (credit_credits h₁).paid
      have hrem : stackSum afterShare + pot.amount % (others.length + 1) ≤ maxUint64 := by omega
      obtain ⟨afterRem, h₂⟩ := credit_succeeds first "seat stack remainder award" hrem
      have hpaid₂ := (credit_credits h₂).paid
      have hothers : stackSum afterRem + pot.amount / (others.length + 1) *
          others.length ≤ maxUint64 := by
        rw [Nat.mul_comm]
        omega
      obtain ⟨last, h₃⟩ := shares_succeed "seat stack award" hothers
      dsimp only
      rw [h₁, ok_bind, h₂, ok_bind, h₃]
      exact ⟨last, rfl⟩

theorem awardPots_succeeds {potWinners : List (List SeatIdx)}
    (hfits : stackSum seats + awardSum pots potWinners ≤ maxUint64) :
    ∃ seats', awardPots seats pots potWinners = .ok seats' := by
  induction pots generalizing seats potWinners with
  | nil => exact ⟨seats, rfl⟩
  | cons pot pots ih =>
    cases potWinners with
    | nil => exact ⟨seats, rfl⟩
    | cons ws potWinners =>
      simp only [awardSum] at hfits
      have hone : ∃ middle, awardPot seats pot ws = .ok middle := by
        by_cases hskip : ws = [] ∨ pot.eligibleSeats = []
        · unfold awardPot
          split
          · exact ⟨seats, rfl⟩
          · rename_i first others
            rw [if_pos (.inr (hskip.resolve_left (by simp)))]
            exact ⟨seats, rfl⟩
        · rw [if_neg hskip] at hfits
          apply awardPot_succeeds
          omega
      obtain ⟨middle, hmiddle⟩ := hone
      have hpaid := (awardPot_credits hmiddle).paid
      have hroom : stackSum middle + awardSum pots potWinners ≤ maxUint64 := by omega
      obtain ⟨last, hlast⟩ := ih hroom
      exact ⟨last, by rw [awardPots, hmiddle, ok_bind, hlast]⟩

/-! ## Settlement -/

theorem decidePot_succeeds (hlen : board5.length = 5) (seats : Seats) (pot : SidePot) :
    ∃ outcome, decidePot seats board5 pot = .ok outcome := by
  unfold decidePot
  split
  · exact ⟨_, rfl⟩
  split
  · exact ⟨_, rfl⟩
  · exact ⟨_, rfl⟩
  · exact ⟨_, rfl⟩
  · rename_i hnone
    by_cases hcards : ∀ e ∈ holeBySeat seats pot.eligibleSeats, DistinctCards (e.cards7 board5)
    · obtain ⟨ws, hwinners⟩ := winners_ok hlen hnone hcards
      rw [hwinners]
      exact ⟨_, rfl⟩
    · push Not at hcards
      obtain ⟨text, hwinners⟩ := winners_conflict hlen hcards
      rw [hwinners]
      exact ⟨_, rfl⟩

theorem NoReveals.of_nested {rest : List SidePot}
    (hlater : ∀ q ∈ rest, q.eligibleSeats.Sublist pot.eligibleSeats)
    (hnone : holeBySeat seats pot.eligibleSeats = []) : NoReveals seats rest := by
  intro q hq
  have hsub := holeBySeat_sublist seats (hlater q hq)
  rw [hnone] at hsub
  exact List.sublist_nil.mp hsub

theorem assignPots_succeeds (hlen : board5.length = 5) (hnested : Nested pots)
    (hfits : stackSum seats + potSum (fun _ => true) pots ≤ maxUint64)
    (hrefund : ¬ NoReveals seats pots → stackSum seats + commitSum h ≤ maxUint64) :
    ∃ result, assignPots h board5 seats pots = .ok result := by
  induction pots generalizing seats with
  | nil => exact ⟨_, rfl⟩
  | cons pot rest ih =>
    obtain ⟨hlater, hnested⟩ := List.pairwise_cons.mp hnested
    rw [potSum_cons, if_pos rfl] at hfits
    have hrest : ∃ result, assignPots h board5 seats rest = .ok result := by
      apply ih hnested (by omega)
      exact fun hsome => hrefund fun hno =>
        hsome fun q hq => hno q (List.mem_cons_of_mem _ hq)
    obtain ⟨outcome, hdecide⟩ := decidePot_succeeds hlen seats pot
    have hsound := decidePot_sound hdecide
    rw [assignPots, hdecide, ok_bind]
    cases outcome with
    | skip | won ws =>
      obtain ⟨⟨last, tail⟩, hlast⟩ := hrest
      rw [hlast, ok_bind]
      exact ⟨_, rfl⟩
    | refund =>
      have hpot : stackSum seats + pot.amount ≤ maxUint64 := by omega
      obtain ⟨middle, hmiddle⟩ := refundPot_succeeds hpot
      have hpaid := refundPot_credits hsound.1 hmiddle
      have hno : NoReveals middle rest := by
        apply NoReveals.of_nested hlater
        rw [holeBySeat_congr hpaid.hole]
        exact hsound.2
      have hroom : stackSum middle + potSum (fun _ => true) rest ≤ maxUint64 := by
        have hsum := hpaid.paid
        omega
      obtain ⟨⟨last, tail⟩, hlast⟩ := ih hnested hroom fun hsome => absurd hno hsome
      rw [hmiddle, ok_bind, hlast, ok_bind]
      exact ⟨_, rfl⟩
    | evalError text =>
      have hsome : ¬ NoReveals seats (pot :: rest) := by
        intro hno
        have htwo := hsound.1
        rw [hno pot (by simp)] at htwo
        simp at htwo
      obtain ⟨last, hlast⟩ := refundCommits_succeeds (hrefund hsome)
      rw [hlast, ok_bind]
      exact ⟨_, rfl⟩

theorem settleKnownShowdown_succeeds (hfits : stackSum seats + commitSum h ≤ maxUint64) :
    ∃ seats', settleKnownShowdown seats h = .ok seats' := by
  unfold settleKnownShowdown
  split
  · exact ⟨seats, rfl⟩
  · rename_i hboard
    have hcommits : ∑ i, h.totalCommit i ≤ maxUint64 := by
      unfold commitSum at hfits
      omega
    obtain ⟨pots, hpots⟩ := computeSidePots_succeeds (inHandNotFolded h) hcommits
    obtain ⟨hall, -, hnested⟩ := computeSidePots_spec hpots
    have hlen : (showdownBoard h).length = 5 := by
      simp only [showdownBoard, List.length_map, List.length_take]
      omega
    have hroom : stackSum seats + potSum (fun _ => true) pots ≤ maxUint64 := by
      rw [hall]
      exact hfits
    obtain ⟨⟨middle, outcome⟩, hassign⟩ := assignPots_succeeds hlen hnested hroom fun _ => hfits
    rw [hpots, ok_bind]
    dsimp only
    rw [← showdownBoard, hassign, ok_bind]
    cases outcome with
    | none => exact ⟨_, rfl⟩
    | some potWinners =>
      rcases assignPots_spec hnested hassign with
        ⟨ws, paid, hsome, hpaid, hsum⟩ | ⟨hnone, -⟩
      · cases hsome
        have hsplit := hpaid.paid
        have haward : stackSum middle + awardSum pots potWinners ≤ maxUint64 := by omega
        obtain ⟨last, hlast⟩ := awardPots_succeeds haward
        dsimp only
        rw [hlast, ok_bind]
        exact ⟨_, rfl⟩
      · cases hnone

/-! ## Reveals -/

theorem applyBoardReveal_succeeds (params : TableParams) (seats : Seats)
    (hfinal : h.dealer.deckFinalized = true) (hpos : pos = boardPos h)
    (cardID boardLen : Nat) (street : Street) :
    ∃ h', applyBoardReveal params seats h pos cardID boardLen street = .ok h' := by
  rw [applyBoardReveal, rejectIf_bind (by simp [hfinal]), rejectIf_bind (by simp [hpos])]
  exact ⟨_, rfl⟩

theorem applyHoleReveal_succeeds (hdeal : DealtApart h) (hdealt : DeckDealt h)
    (hfits : stackSum seats + commitSum h ≤ maxUint64)
    (hnext : dealerNextShowdownHolePos seats h = .ok (some pos)) (cardID : Nat) :
    ∃ seats' hand', applyHoleReveal seats h pos cardID = .ok (seats', hand') ∧
      ∀ h', hand' = some h' → h' = h := by
  obtain ⟨i, c, hlive, rfl, hset, -⟩ := (dealerNextShowdownHolePos_ok hdeal hnext).1 pos rfl
  rw [applyHoleReveal, dealerPosToSeatHole_eq hdeal hset]
  have hstacks : stackSum (revealHole seats i c cardID) = stackSum seats := by
    simp only [stackSum, (revealHole_credits seats i c cardID).2]
  obtain ⟨next, hnext'⟩ := dealerNextShowdownHolePos_succeeds hdealt (revealHole seats i c cardID)
  rw [show require (some (i, c)) _ = .ok (i, c) from rfl, ok_bind]
  dsimp only
  rw [rejectIf_bind (by simp [hlive])]
  unfold revealHole at hnext' hstacks
  rw [hnext', ok_bind]
  cases next with
  | some _ => exact ⟨_, _, rfl, fun h' hh' => (Option.some.inj hh').symm⟩
  | none =>
    obtain ⟨last, hlast⟩ := settleKnownShowdown_succeeds (h := h) (hstacks.symm ▸ hfits)
    rw [hlast, ok_bind]
    exact ⟨_, _, rfl, fun h' hh' => by cases hh'⟩

theorem applyDealerRevealToPoker_succeeds (params : TableParams) (hstanding : HandStanding seats h)
    (hdealt : DeckDealt h) (hphase : h.phase.awaits = true)
    (hfits : stackSum seats + commitSum h ≤ maxUint64) (cardID : Nat) :
    ∃ seats' hand', applyDealerRevealToPoker params seats h h.dealer.revealPos cardID =
        .ok (seats', hand') ∧
      ∀ h', hand' = some h' → SameDeck h h' ∧ BoardValid h' := by
  obtain ⟨hexpected, -, -⟩ := hstanding.awaited hphase
  obtain ⟨hfinal, hcases⟩ := dealerExpectedRevealPos_ok hexpected
  have hboard : boardTarget h.phase ≠ none → h.dealer.revealPos = boardPos h := by
    intro htarget
    rcases hcases with ⟨-, hpos, -⟩ | ⟨hshowdown, -⟩ | ⟨hidle, -⟩
    · exact Option.some.inj hpos
    · simp [boardTarget, hshowdown] at htarget
    · rw [hphase] at hidle
      cases hidle
  have hreveal : ∀ boardLen street, boardTarget h.phase = some (boardLen, street) →
      ∃ h', applyBoardReveal params seats h h.dealer.revealPos cardID boardLen street =
        .ok h' ∧ SameDeck h h' ∧ BoardValid h' := by
    intro boardLen street htarget
    obtain ⟨h', hok⟩ := applyBoardReveal_succeeds params seats hfinal
      (hboard (by simp [htarget])) cardID boardLen street
    have hchange := applyBoardReveal_change htarget hok
    exact ⟨h', hok, hchange.sameDeck, hchange.board hstanding.board⟩
  unfold applyDealerRevealToPoker
  cases hp : h.phase with
  | shuffle | betting | showdown =>
    rw [hp] at hphase
    cases hphase
  | awaitFlop =>
    obtain ⟨h', hok, hdone⟩ := hreveal 3 .flop (by rw [hp]; rfl)
    rw [hok, ok_bind]
    exact ⟨_, _, rfl, fun next hnext => Option.some.inj hnext ▸ hdone⟩
  | awaitTurn =>
    obtain ⟨h', hok, hdone⟩ := hreveal 4 .turn (by rw [hp]; rfl)
    rw [hok, ok_bind]
    exact ⟨_, _, rfl, fun next hnext => Option.some.inj hnext ▸ hdone⟩
  | awaitRiver =>
    obtain ⟨h', hok, hdone⟩ := hreveal 5 .river (by rw [hp]; rfl)
    rw [hok, ok_bind]
    exact ⟨_, _, rfl, fun next hnext => Option.some.inj hnext ▸ hdone⟩
  | awaitShowdown =>
    rcases hcases with ⟨htarget, -, -⟩ | ⟨-, hnext⟩ | ⟨hidle, -⟩
    · simp [boardTarget, hp] at htarget
    · obtain ⟨seats', hand', hok, hsame⟩ := applyHoleReveal_succeeds hstanding.deal
        hdealt hfits hnext cardID
      refine ⟨seats', hand', hok, fun next hnext => ?_⟩
      rw [hsame next hnext]
      exact ⟨.refl h, hstanding.board⟩
    · rw [hphase] at hidle
      cases hidle

section State

variable {env : Env} {s : State env} {tid : Nat} {t : Table}

theorem loadHand_eq (hget : s.getTable tid = some t) (hhand : t.hand = some h) :
    s.loadHand tid h.handId = .ok (t, h) := by
  simp [State.loadHand, State.loadTable, hget, hhand, require_eq_ok]

section

variable (hsolvent : Solvent s) (hsupply : SupplyFits s)
  (hget : s.getTable tid = some t) (hhand : t.hand = some h)
include hsolvent hsupply hget hhand

theorem chips_fit : stackSum t.seats + commitSum h ≤ maxUint64 := by
  have hvalue := tableValue_le_supply hsolvent hsupply hget
  simp only [tableValue, handValue, hhand, Option.elim_some] at hvalue
  omega

theorem applyDealerReveal_succeeds (hstanding : TableStanding t) (hdealt : DeckDealt h)
    (hphase : h.phase.awaits = true) (cardID : Nat) (block : Block) :
    ∃ s', applyDealerReveal s tid h.handId h.dealer.revealPos cardID block.unix = .ok s' := by
  obtain ⟨seats', hand', hok, hnext⟩ := applyDealerRevealToPoker_succeeds t.params
    (hstanding.hand h hhand) hdealt hphase (chips_fit hsolvent hsupply hget hhand)
    cardID
  obtain ⟨hexpected, -, -⟩ := (hstanding.hand h hhand).awaited hphase
  have hfinal := (dealerExpectedRevealPos_ok hexpected).1
  have hdeadlines : ∃ last, setDeadlinesIfActive t.params seats' block.unix hand' = .ok last := by
    cases hand' with
    | none => exact ⟨_, rfl⟩
    | some next =>
      obtain ⟨hsame, hboard⟩ := hnext next rfl
      obtain ⟨last, hlast⟩ := setDeadlines_succeeds hstanding.params
        (hdealt.of_same hsame) (hsame.deckFinalized.trans hfinal) hboard seats' block
      exact ⟨some last, by rw [setDeadlinesIfActive, hlast]; rfl⟩
  obtain ⟨last, hlast⟩ := hdeadlines
  rw [applyDealerReveal, loadHand_eq hget hhand, ok_bind]
  dsimp only
  rw [hok]
  dsimp only [Except.mapError]
  rw [ok_bind]
  rw [hlast]
  exact ⟨_, rfl⟩

end

theorem BoardValid.opened (hboard : BoardValid h) (hphase : h.phase = .shuffle) :
    BoardValid { h with
      phase := if h.actionOn = none then .awaitFlop else .betting } := by
  simp only [BoardValid, hphase] at hboard
  by_cases hclosed : h.actionOn = none
  · simp [BoardValid, hclosed, hboard]
  · simp [BoardValid, hclosed, hboard, boardLength]

theorem advanceAfterHoleSharesReady_succeeds (hget : s.getTable tid = some t)
    (hhand : t.hand = some h) (hstanding : TableStanding t) (hdealt : DeckDealt h)
    (hfinal : h.dealer.deckFinalized = true) (hphase : h.phase = .shuffle) (block : Block) :
    ∃ h', h'.handId = h.handId ∧ h'.phase ≠ .shuffle ∧
      advanceAfterHoleSharesReady s tid h.handId block.unix =
        .ok (s.setTable { t with hand := some h' }) := by
  have hboard := (hstanding.hand h hhand).board.opened hphase
  have hsame : SameDeck h { h with
      phase := if h.actionOn = none then .awaitFlop else .betting } :=
    ⟨rfl, rfl, rfl, rfl, rfl, rfl⟩
  obtain ⟨h', hok⟩ := setDeadlines_succeeds hstanding.params (hdealt.of_same hsame)
    hfinal hboard t.seats block
  obtain ⟨_, _, _, hh'⟩ := setDeadlines_ok hok
  refine ⟨h', ?_, ?_, ?_⟩
  · rw [hh']
    rfl
  · rw [hh']
    by_cases hclosed : h.actionOn = none <;> simp [Hand.withDeadlines, hclosed]
  · rw [advanceAfterHoleSharesReady, loadHand_eq hget hhand, ok_bind]
    dsimp only
    rw [rejectIf_bind (by simp [hphase]), rejectIf_bind (by simp [hfinal]), hok]
    rfl

end State

end OnChainPoker.Poker
