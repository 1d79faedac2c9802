import OnChainPoker.Poker.HandInvariant

/-!
# Does a showdown pay out the whole pot?

A side pot that is funded only by players who folded has no eligible seat, and
`settleKnownShowdown` skips it: its chips leave the table.  A player may fold
at any time, also when checking is free, so such pots are reachable.  The whole
pot is paid exactly when some player who has not folded has committed the most,
or when the cards conflict and every commitment is refunded.
-/

namespace OnChainPoker.Poker

open Foundation

variable {env : Env}

/-- In state `s`, revealing `cardID` at deck position `pos` makes
`settleKnownShowdown` end hand `h` of table `t` with the seats `seats'`. -/
def Settles (s : State env) (tid pos cardID : Nat) (t : Table) (h : Hand)
    (seats' : Seats) : Prop :=
  s.getTable tid = some t ∧ t.hand = some h ∧
    applyDealerRevealToPoker t.params t.seats h pos cardID = .ok (seats', none)

def lastReveal (seats : Seats) (h : Hand) (pos cardID : Nat) : Seats :=
  match dealerPosToSeatHole h.dealer.holePos pos with
  | none => seats
  | some (seat, holeIdx) => revealHole seats seat holeIdx cardID

variable {s : State env} {tid pos cardID : Nat} {t : Table} {h : Hand} {seats' : Seats}

theorem settles_ok (hsettles : Settles s tid pos cardID t h seats') : h.phase = .awaitShowdown ∧
      (∃ seat, inHandNotFolded h seat = true) ∧
      stackSum (lastReveal t.seats h pos cardID) = stackSum t.seats ∧
      settleKnownShowdown (lastReveal t.seats h pos cardID) h = .ok seats' := by
  obtain ⟨_, _, hreveal⟩ := hsettles
  rcases applyDealerRevealToPoker_ok hreveal with
    ⟨_, _, _, _, _, _, hsome⟩ | ⟨hphase, hhole⟩
  · cases hsome
  · obtain ⟨seat, holeIdx, hpos, hlive, hend⟩ := applyHoleReveal_ok hhole
    rcases hend with ⟨_, _, _, hsome⟩ | ⟨hsettle, _⟩
    · cases hsome
    · have hseats : lastReveal t.seats h pos cardID = revealHole t.seats seat holeIdx cardID := by
        simp only [lastReveal, hpos]
      rw [hseats]
      obtain ⟨_, hstacks⟩ := revealHole_credits t.seats seat holeIdx cardID
      exact ⟨hphase, ⟨seat, hlive⟩, Finset.sum_congr rfl fun i _ => hstacks i, hsettle⟩

/-- In every reachable state, the settlement pays the whole pot if and only if
a player who has not folded holds the largest commitment, or the cards conflict
and everything is refunded. -/
theorem settlement_pays_pot_iff (env : Env) (balances : env.bank.Balances)
    (messages : List (Msg env)) {tid pos cardID : Nat} {t : Table} {h : Hand}
    {seats' : Seats}
    (hsettles : Settles (run handle (State.genesis env balances) messages) tid
      pos cardID t h seats') :
    stackSum seats' = stackSum t.seats + commitSum h ↔
      (∃ i, inHandNotFolded h i = true ∧ ∀ j, h.totalCommit j ≤ h.totalCommit i) ∨
      CardsConflict (lastReveal t.seats h pos cardID) h := by
  obtain ⟨hphase, ⟨live, hlive⟩, hstacks, hsettle⟩ := settles_ok hsettles
  have hboard := reachable_board hsettles.1 hsettles.2.1
  simp only [BoardValid, hphase] at hboard
  obtain ⟨_, hpays⟩ := settleKnownShowdown_spec hsettle (by omega)
  rw [hstacks] at hpays
  rw [← strandedChips_eq_zero_iff hlive]
  constructor
  · intro hall
    rcases hpays with ⟨hconflict, _⟩ | ⟨_, hsum⟩
    · exact Or.inr hconflict
    · exact Or.inl (by omega)
  · intro hcondition
    rcases hpays with ⟨_, hsum⟩ | ⟨hnone, hsum⟩
    · exact hsum
    · rcases hcondition with hzero | hconflict
      · omega
      · contradiction

/-! ## A stranded side pot -/

def settlement (s : State env) (tid pos cardID : Nat) :
    Option (Table × Hand × Seats) := do
  let t ← s.getTable tid
  let h ← t.hand
  match applyDealerRevealToPoker t.params t.seats h pos cardID with
  | .ok (seats', none) => some (t, h, seats')
  | _ => none

theorem settlement_settles (hsome : settlement s tid pos cardID = some (t, h, seats')) :
    Settles s tid pos cardID t h seats' := by
  simp only [settlement, Option.bind_eq_bind, Option.bind_eq_some_iff] at hsome
  obtain ⟨t', hget, h', hhand, hsome⟩ := hsome
  split at hsome
  · rename_i hreveal
    cases hsome
    exact ⟨hget, hhand, hreveal⟩
  · cases hsome

def sampleBlock : Block := ⟨100, 1000, thousand_pos, thousand_le⟩

def samplePk : Bytes := List.replicate 32 0

def sampleTable : MsgCreateTable :=
  ⟨"gm", 1, 2, 1, 1000, 30, 120, 0, 0, 9, "table", [], []⟩

/-- The players sit down with their stacks, and a hand is dealt. -/
def dealtTo (table : MsgCreateTable) (buyIns : List (String × Nat)) : List (Msg ledgerEnv) :=
  .createTable table :: buyIns.map (fun p => .sit ⟨p.1, 1, p.2, samplePk, []⟩) ++
    [.startHand sampleBlock ⟨"A", 1⟩, .dealerInitHand 1 1 1 52, .dealerFinalizeDeck 1 1,
      .advanceAfterHoleSharesReady sampleBlock 1 1]

/-- Two players are all-in for 50, two others have put in 100 each.  Both of
those fold on the flop, where checking is free. -/
def foldedTierRun : List (Msg ledgerEnv) :=
  dealtTo sampleTable [("A", 50), ("B", 200), ("C", 200), ("D", 50)] ++
    [.act sampleBlock ⟨"D", 1, "raise", 50⟩, .act sampleBlock ⟨"A", 1, "call", 0⟩,
      .act sampleBlock ⟨"B", 1, "raise", 100⟩, .act sampleBlock ⟨"C", 1, "call", 0⟩,
      .applyDealerReveal sampleBlock 1 1 8 0, .applyDealerReveal sampleBlock 1 1 9 1,
      .applyDealerReveal sampleBlock 1 1 10 2, .act sampleBlock ⟨"B", 1, "fold", 0⟩,
      .act sampleBlock ⟨"C", 1, "fold", 0⟩, .applyDealerReveal sampleBlock 1 1 11 20,
      .applyDealerReveal sampleBlock 1 1 12 21, .applyDealerReveal sampleBlock 1 1 2 30,
      .applyDealerReveal sampleBlock 1 1 3 31, .applyDealerReveal sampleBlock 1 1 6 42]

def foldedTierState : State ledgerEnv :=
  run handle (State.genesis ledgerEnv (0 : Nat)) foldedTierRun

theorem foldedTier_stranded :
    ∃ t h seats', Settles foldedTierState 1 7 44 t h seats' ∧
      commitSum h = 300 ∧ stackSum t.seats = 200 ∧ stackSum seats' = 400 ∧
      stackSum seats' ≠ stackSum t.seats + commitSum h := by
  have hrun : (settlement foldedTierState 1 7 44).any (fun result =>
      decide (commitSum result.2.1 = 300 ∧ stackSum result.1.seats = 200 ∧
        stackSum result.2.2 = 400)) = true := by
    decide +kernel
  obtain ⟨⟨t, h, seats'⟩, hsome, hsums⟩ := (Option.any_eq_true _ _).mp hrun
  have hsums := of_decide_eq_true hsums
  dsimp only at hsums
  exact ⟨t, h, seats', settlement_settles hsome, hsums.1, hsums.2.1, hsums.2.2,
    by omega⟩

def checkedDownRun : List (Msg ledgerEnv) :=
  dealtTo sampleTable [("A", 100), ("B", 100)] ++
    [.act sampleBlock ⟨"A", 1, "call", 0⟩, .act sampleBlock ⟨"B", 1, "check", 0⟩,
      .applyDealerReveal sampleBlock 1 1 4 0, .applyDealerReveal sampleBlock 1 1 5 1,
      .applyDealerReveal sampleBlock 1 1 6 2, .act sampleBlock ⟨"B", 1, "check", 0⟩,
      .act sampleBlock ⟨"A", 1, "check", 0⟩, .applyDealerReveal sampleBlock 1 1 7 20,
      .act sampleBlock ⟨"B", 1, "check", 0⟩, .act sampleBlock ⟨"A", 1, "check", 0⟩,
      .applyDealerReveal sampleBlock 1 1 8 21, .act sampleBlock ⟨"B", 1, "check", 0⟩,
      .act sampleBlock ⟨"A", 1, "check", 0⟩, .applyDealerReveal sampleBlock 1 1 0 30,
      .applyDealerReveal sampleBlock 1 1 1 31, .applyDealerReveal sampleBlock 1 1 2 42]

theorem checkedDown_paid :
    ∃ t h seats',
      Settles (run handle (State.genesis ledgerEnv (0 : Nat)) checkedDownRun) 1
        3 44 t h seats' ∧
      commitSum h = 4 ∧ stackSum seats' = stackSum t.seats + commitSum h := by
  have hrun : (settlement (run handle (State.genesis ledgerEnv (0 : Nat))
      checkedDownRun) 1 3 44).any (fun result =>
        decide (commitSum result.2.1 = 4 ∧
          ∃ i, inHandNotFolded result.2.1 i = true ∧
            ∀ j, result.2.1.totalCommit j ≤ result.2.1.totalCommit i)) =
      true := by
    decide +kernel
  obtain ⟨⟨t, h, seats'⟩, hsome, hfacts⟩ := (Option.any_eq_true _ _).mp hrun
  obtain ⟨hpot, hlive⟩ := of_decide_eq_true hfacts
  have hsettles := settlement_settles hsome
  exact ⟨t, h, seats', hsettles, hpot,
    (settlement_pays_pot_iff ledgerEnv (0 : Nat) checkedDownRun
      hsettles).mpr (Or.inl hlive)⟩

end OnChainPoker.Poker
