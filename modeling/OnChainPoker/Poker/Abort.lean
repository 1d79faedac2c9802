import OnChainPoker.Poker.Distribution
import OnChainPoker.Poker.HandMoves
import OnChainPoker.Poker.Solvency

/-!
# Aborting a hand

`AbortHandRefundAllCommits` gives every commitment back to the seat that made
it.  A ledger kept next to the module records, for one table, what each player
held when the current hand was dealt and what `Leave` has paid out since.  As
long as nobody leaves with chips in the pot, and nobody who was dealt in sits
down again before the hand ends, the refund restores every player exactly.
-/

namespace OnChainPoker.Poker

open Foundation

variable {env : Env} {seats seats' : Seats} {i : SeatIdx} {ledger : Ledger} {h : Hand}
  {t t' : Table} {tid : Nat}

/-! ## The ledger -/

def stackOf (seats : Seats) (player : String) : Nat :=
  (seatOfPlayer seats player).elim 0 fun i => (seats i).stack

/-- Stacks before the current hand was dealt, and stacks paid out since. -/
structure Ledger where
  dealt : String → Option Nat
  paid : String → Nat

def Ledger.empty : Ledger := ⟨fun _ => none, fun _ => 0⟩

def Ledger.opened (seats : Seats) : Ledger where
  dealt := fun player =>
    if stackOf seats player = 0 then none else some (stackOf seats player)
  paid := fun _ => 0

def Ledger.payOut (ledger : Ledger) (seats : Seats) (player : String) : Ledger :=
  { ledger with
    paid := Function.update ledger.paid player
      (ledger.paid player + stackOf seats player) }

def Ledger.after (ledger : Ledger) (t : Table) : Msg env → Ledger
  | .startHand _ _ => .opened t.seats
  | .leave req => ledger.payOut t.seats req.player
  | _ => ledger

def recordLedger (tid : Nat) (s : State env) (m : Msg env) (ledger : Ledger) : Ledger :=
  if m.tableId = some tid then (s.getTable tid).elim ledger (ledger.after · m)
  else ledger

/-- During a hand, nobody leaves with chips in the pot and nobody who was dealt
in sits down again. -/
def StaysSettled (ledger : Ledger) (t : Table) (m : Msg env) : Prop :=
  ∀ h ∈ t.hand,
    match m with
    | .leave req => ∀ i, (t.seats i).player = req.player → h.totalCommit i = 0
    | .sit req => ledger.dealt req.player = none
    | _ => True

def KeepsSeats (tid : Nat) (s : State env × Ledger) (m : Msg env) : Prop :=
  m.tableId = some tid → ∀ t ∈ s.1.getTable tid, StaysSettled s.2 t m

instance (ledger : Ledger) (t : Table) (m : Msg env) :
    Decidable (StaysSettled ledger t m) := by
  unfold StaysSettled
  split <;> infer_instance

instance (tid : Nat) (s : State env × Ledger) (m : Msg env) :
    Decidable (KeepsSeats tid s m) := by
  unfold KeepsSeats
  infer_instance

/-! ## Players and seats -/

def SeatsDistinct (seats : Seats) : Prop :=
  ∀ i j, (seats i).player ≠ "" → (seats i).player = (seats j).player → i = j

theorem SeatsDistinct.of_owners (hdistinct : SeatsDistinct seats)
    (howners : ∀ i, (seats' i).player = (seats i).player) :
    SeatsDistinct seats' := by
  intro i j hplayer hsame
  rw [howners i] at hplayer
  rw [howners i, howners j] at hsame
  exact hdistinct i j hplayer hsame

variable {seat : Seat} {player : String} {deposit withdrawal hid : Nat} {m : Msg env}
  {s : State env × Ledger}

theorem SeatsDistinct.take (hdistinct : SeatsDistinct seats)
    (hfresh : seat.player = "" ∨ ∀ j, (seats j).player ≠ seat.player) :
    SeatsDistinct (Function.update seats i seat) := by
  intro j k hj hjk
  by_cases hji : j = i <;> by_cases hki : k = i
  · rw [hji, hki]
  · subst hji
    rw [Function.update_self] at hj hjk
    rw [Function.update_of_ne hki] at hjk
    rcases hfresh with hempty | hfresh
    · exact absurd hempty hj
    · exact absurd hjk.symm (hfresh k)
  · subst hki
    rw [Function.update_of_ne hji] at hj hjk
    rw [Function.update_self] at hjk
    rcases hfresh with hempty | hfresh
    · exact absurd (hjk.trans hempty) hj
    · exact absurd hjk (hfresh j)
  · rw [Function.update_of_ne hji] at hj hjk
    rw [Function.update_of_ne hki] at hjk
    exact hdistinct j k hj hjk

theorem SeatsDistinct.vacate (hdistinct : SeatsDistinct seats) (i : SeatIdx) :
    SeatsDistinct (Function.update seats i emptySeat) :=
  hdistinct.take (Or.inl rfl)

theorem stackOf_eq (hdistinct : SeatsDistinct seats) (hplayer : player ≠ "")
    (hi : (seats i).player = player) :
    stackOf seats player = (seats i).stack := by
  unfold stackOf
  cases hfind : seatOfPlayer seats player with
  | none => exact absurd hi (seatOfPlayer_none hplayer hfind i)
  | some j =>
    obtain ⟨_, hj⟩ := seatOfPlayer_some hfind
    have hij : i = j := hdistinct i j (by rwa [hi]) (by rw [hi, hj])
    rw [hij]
    rfl

theorem stackOf_absent (habsent : ∀ i, (seats i).player ≠ player) : stackOf seats player = 0 := by
  unfold stackOf
  cases hfind : seatOfPlayer seats player with
  | none => rfl
  | some i => exact absurd (seatOfPlayer_some hfind).2 (habsent i)

@[simp] theorem stackOf_empty (seats : Seats) : stackOf seats "" = 0 := by
  simp [stackOf, seatOfPlayer]

/-! ## What the ledger says about a hand -/

/-- Every dealt player is either still in the seat, with stack and commitment
adding up to the stack before the deal, or has been paid that stack; seats of
other players have nothing in the pot. -/
structure Tracks (ledger : Ledger) (seats : Seats) (h : Hand) : Prop where
  vacant : ledger.dealt "" = none
  seated : ∀ i d, ledger.dealt (seats i).player = some d →
    (seats i).stack + h.totalCommit i = d ∧
      ledger.paid (seats i).player = 0 ∧ h.inHand i = true
  other : ∀ i, ledger.dealt (seats i).player = none → h.totalCommit i = 0
  gone : ∀ player d, ledger.dealt player = some d →
    (∃ i, (seats i).player = player) ∨ ledger.paid player = d
  live : ∀ i, inHandNotFolded h i = true → ledger.dealt (seats i).player ≠ none

theorem Tracks.moves {h h' : Hand} (htracks : Tracks ledger seats h)
    (hmoves : HandMoves seats h seats' h') :
    Tracks ledger seats' h' := by
  have hplayer := hmoves.keeps.owners.player
  refine ⟨htracks.vacant, ?_, ?_, ?_, ?_⟩
  · intro i d hd
    rw [hplayer i] at hd ⊢
    rw [hmoves.keeps.chips i, hmoves.inHand]
    exact htracks.seated i d hd
  · intro i hnone
    rw [hplayer i] at hnone
    have hidle : inHandNotFolded h i = false := by
      cases hlive : inHandNotFolded h i with
      | false => rfl
      | true => exact absurd hnone (htracks.live i hlive)
    have hle := hmoves.idle i hidle
    have hzero := htracks.other i hnone
    omega
  · intro player d hd
    simp only [hplayer]
    exact htracks.gone player d hd
  · intro i hi
    rw [hplayer i]
    exact htracks.live i (hmoves.live i hi)

theorem Tracks.replace (htracks : Tracks ledger seats h)
    (hplayer : ∀ i, (seats' i).player = (seats i).player)
    (hstack : ∀ i, ledger.dealt (seats i).player ≠ none → (seats' i).stack = (seats i).stack) :
    Tracks ledger seats' h := by
  refine ⟨htracks.vacant, ?_, ?_, ?_, ?_⟩
  · intro i d hd
    rw [hplayer i] at hd ⊢
    rw [hstack i (by simp [hd])]
    exact htracks.seated i d hd
  · intro i hnone
    rw [hplayer i] at hnone
    exact htracks.other i hnone
  · intro player d hd
    simp only [hplayer]
    exact htracks.gone player d hd
  · intro i hi
    rw [hplayer i]
    exact htracks.live i hi

def TableTracks (ledger : Ledger) (t : Table) : Prop :=
  SeatsDistinct t.seats ∧ ∀ h, t.hand = some h → Tracks ledger t.seats h

theorem InnerStep.tracks (htracks : TableTracks ledger t)
    (hstep : InnerStep t t' deposit withdrawal) : TableTracks ledger t' := by
  obtain ⟨hdistinct, hhand⟩ := htracks
  cases hstep with
  | play hold hplay =>
    refine ⟨hdistinct.of_owners hplay.value_le.1.player, ?_⟩
    rintro h' rfl
    exact (hhand _ hold).moves hplay.moves
  | abort _ hrefund =>
    refine ⟨hdistinct.of_owners ?_, by simp⟩
    intro i
    simp [clearHoles, refundCommits_ok hrefund i]
  | rebuy i amount _ hout _ =>
    have howners : SameOwners t.seats (Function.update t.seats i
        { t.seats i with stack := (t.seats i).stack + deposit }) :=
      sameOwners_update rfl rfl rfl
    have hplayer := howners.player
    refine ⟨hdistinct.of_owners hplayer, fun h hh =>
      (hhand h hh).replace hplayer ?_⟩
    intro j hdealt
    obtain ⟨d, hd⟩ := Option.ne_none_iff_exists'.mp hdealt
    have hin := ((hhand h hh).seated j d hd).2.2
    have hne : j ≠ i := by
      rintro rfl
      simp only at hh
      simp [hh, hin] at hout
    simp [hne]
  | slash i amount _ =>
    have hsame := sameStacks_slash t.seats i withdrawal
    exact ⟨hdistinct.of_owners fun j => (hsame j).1, fun h hh =>
      (hhand h hh).replace (fun j => (hsame j).1) fun j _ => (hsame j).2⟩
  | eject i hnone _ => exact ⟨hdistinct.vacate i, fun h hh => by simp [hnone] at hh⟩
  | normalize =>
    refine ⟨hdistinct.of_owners fun i => normalizeSeat_player _, fun h hh =>
      (hhand h hh).replace (fun i => normalizeSeat_player _) ?_⟩
    intro i hdealt
    have hne : (t.seats i).player ≠ "" := by
      intro hempty
      rw [hempty] at hdealt
      exact hdealt (hhand h hh).vacant
    simp [normalizeTable, normalizeSeat, hne]

theorem Tracks.sit (htracks : Tracks ledger seats h) (hvacant : (seats i).player = "")
    (hnew : ledger.dealt seat.player = none) :
    Tracks ledger (Function.update seats i seat) h := by
  have hnone : ledger.dealt (seats i).player = none := by
    rw [hvacant]
    exact htracks.vacant
  refine ⟨htracks.vacant, ?_, ?_, ?_, ?_⟩
  · intro j d hd
    by_cases hj : j = i
    · subst hj
      simp [hnew] at hd
    · rw [Function.update_of_ne hj] at hd ⊢
      exact htracks.seated j d hd
  · intro j hj
    by_cases hji : j = i
    · subst hji
      exact htracks.other j hnone
    · rw [Function.update_of_ne hji] at hj
      exact htracks.other j hj
  · intro player d hd
    rcases htracks.gone player d hd with ⟨j, hj⟩ | hpaid
    · refine Or.inl ⟨j, ?_⟩
      have hji : j ≠ i := by
        rintro rfl
        rw [← hj, hnone] at hd
        cases hd
      rwa [Function.update_of_ne hji]
    · exact Or.inr hpaid
  · intro j hj
    have hji : j ≠ i := by
      rintro rfl
      exact htracks.live j hj hnone
    rw [Function.update_of_ne hji]
    exact htracks.live j hj

theorem Tracks.leave (htracks : Tracks ledger seats h) (hdistinct : SeatsDistinct seats)
    (hplayer : player ≠ "") (hi : (seats i).player = player)
    (hout : inHandNotFolded h i = false) (hzero : h.totalCommit i = 0) :
    Tracks (ledger.payOut seats player) (Function.update seats i emptySeat) h := by
  have hstack := stackOf_eq hdistinct hplayer hi
  refine ⟨htracks.vacant, ?_, ?_, ?_, ?_⟩
  · intro j d hd
    by_cases hj : j = i
    · subst hj
      simp [Ledger.payOut, emptySeat, htracks.vacant] at hd
    · rw [Function.update_of_ne hj] at hd ⊢
      obtain ⟨hsum, hpaid, hin⟩ := htracks.seated j d hd
      have hother : (seats j).player ≠ player := by
        intro hsame
        exact hj (hdistinct j i (by rwa [hsame]) (by rw [hsame, hi]))
      refine ⟨hsum, ?_, hin⟩
      simpa [Ledger.payOut, hother] using hpaid
  · intro j hj
    by_cases hji : j = i
    · rw [hji]
      exact hzero
    · rw [Function.update_of_ne hji] at hj
      exact htracks.other j hj
  · intro q d hd
    by_cases hq : q = player
    · subst hq
      rw [← hi] at hd
      obtain ⟨hsum, hpaid, _⟩ := htracks.seated i d hd
      rw [hi] at hpaid
      refine Or.inr ?_
      simp only [Ledger.payOut, Function.update_self]
      omega
    · rcases htracks.gone q d hd with ⟨j, hj⟩ | hpaid
      · refine Or.inl ⟨j, ?_⟩
        have hji : j ≠ i := by
          rintro rfl
          exact hq (hj.symm.trans hi)
        rwa [Function.update_of_ne hji]
      · refine Or.inr ?_
        simpa [Ledger.payOut, hq] using hpaid
  · intro j hj
    have hji : j ≠ i := by
      rintro rfl
      rw [hout] at hj
      cases hj
    rw [Function.update_of_ne hji]
    exact htracks.live j hj

theorem startHandOn_tracks (hok : startHandOn t = .ok t') (hdistinct : SeatsDistinct t.seats)
    (hvacant : ∀ i, (t.seats i).player = "" → (t.seats i).stack = 0) :
    TableTracks (.opened t.seats) t' := by
  obtain ⟨_, _, seats, _, _, _, _, _, howners, hchips, _, rfl⟩ := startHandOn_fresh hok
  have hplayer : ∀ i, (seats i).player = (t.seats i).player := howners.player
  have hdealt : ∀ i, (t.seats i).player ≠ "" →
      stackOf t.seats (t.seats i).player = (t.seats i).stack :=
    fun i hi => stackOf_eq hdistinct hi rfl
  refine ⟨hdistinct.of_owners hplayer, ?_⟩
  intro opened hopened
  cases hopened
  refine ⟨by simp [Ledger.opened], ?_, ?_, ?_, ?_⟩
  · intro i d hd
    rw [hplayer i] at hd ⊢
    have hne : (t.seats i).player ≠ "" := by
      intro hempty
      simp [Ledger.opened, hempty] at hd
    simp only [Ledger.opened, hdealt i hne] at hd
    split at hd
    · cases hd
    · cases hd
      refine ⟨hchips i, rfl, ?_⟩
      simp only [freshHand, decide_eq_true_eq]
      omega
  · intro i hnone
    rw [hplayer i] at hnone
    have hsum := hchips i
    have hstack : (t.seats i).stack = 0 := by
      by_cases hempty : (t.seats i).player = ""
      · exact hvacant i hempty
      · simpa [Ledger.opened, hdealt i hempty] using hnone
    dsimp only
    omega
  · intro player d hd
    refine Or.inl ?_
    by_contra habsent
    simp only [not_exists] at habsent
    have hzero : stackOf t.seats player = 0 :=
      stackOf_absent fun i => by rw [← hplayer i]; exact habsent i
    simp [Ledger.opened, hzero] at hd
  · intro i hi
    have hpos : 0 < (t.seats i).stack := by
      simp only [inHandNotFolded, freshHand, Bool.and_eq_true, decide_eq_true_eq] at hi
      exact hi.1
    have hne : (t.seats i).player ≠ "" := by
      intro hempty
      have hzero := hvacant i hempty
      omega
    rw [hplayer i]
    simp only [Ledger.opened, hdealt i hne]
    rw [if_neg (by omega)]
    simp

theorem TableEffect.tracks (heffect : TableEffect t m t' deposit withdrawal)
    (hsettled : StaysSettled ledger t m)
    (hvacant : ∀ i, (t.seats i).player = "" → (t.seats i).stack = 0)
    (htracks : TableTracks ledger t) : TableTracks (ledger.after t m) t' := by
  obtain ⟨hdistinct, hhand⟩ := htracks
  cases heffect with
  | sit req i seat hfree _ hfresh hseat _ _ _ =>
    refine ⟨hdistinct.take (Or.inr (by rwa [hseat])), ?_⟩
    intro h hh
    exact (hhand h hh).sit hfree (by rw [hseat]; exact hsettled h hh)
  | leave req i hplayer hi hout =>
    refine ⟨hdistinct.vacate i, ?_⟩
    intro h hh
    have hh : t.hand = some h := hh
    rw [hh] at hout
    exact (hhand h hh).leave hdistinct hplayer hi hout (hsettled h hh i hi)
  | startHand block req _ hstart => exact startHandOn_tracks hstart hdistinct hvacant
  | dealerInitHand _ _ _ _ hold _ _ _ _ | dealerFinalizeDeck _ _ hold _ _ _ =>
    refine ⟨hdistinct, ?_⟩
    intro h hh
    cases hh
    exact (hhand _ hold).moves (handMoves_of_same _ rfl rfl rfl fun i => Nat.le_refl _)
  | inner hinner hrun =>
    have hsame : ledger.after t m = ledger := by
      cases m <;> first | rfl | cases hinner
    rw [hsame]
    exact hrun.keeps InnerStep.tracks ⟨hdistinct, hhand⟩

/-! ## Runs -/

def LedgerValid (tid : Nat) (s : State env × Ledger) : Prop :=
  Solvent s.1 ∧ ∀ t, s.1.tables.lookup tid = some t → TableTracks s.2 t

theorem LedgerValid.getTable (hvalid : LedgerValid tid s)
    (hget : s.1.getTable tid = some t) : TableTracks s.2 t := by
  obtain ⟨_, _, stored, hlookup, rfl⟩ := getTable_id hvalid.1.1 hget
  exact InnerStep.normalize.tracks (hvalid.2 stored hlookup)

theorem newTable_tracks (ledger : Ledger) (id : Nat) (req : MsgCreateTable) :
    TableTracks ledger (normalizeTable (newTable id req)) := by
  apply InnerStep.normalize.tracks
  refine ⟨?_, by simp [newTable]⟩
  intro i j hplayer
  simp [newTable, emptySeat] at hplayer

theorem LedgerValid.step {s' : State env × Ledger} (hvalid : LedgerValid tid s)
    (hkeeps : KeepsSeats tid s m) (hok : withHistory handle (recordLedger tid) s m = .ok s') :
    LedgerValid tid s' := by
  obtain ⟨hhandle, hledger⟩ := withHistory_ok hok
  have heffect := handle_effect hhandle
  refine ⟨heffect.solvent hvalid.1, ?_⟩
  intro stored hlookup
  cases heffect with
  | createTable req hmsg _ _ _ htables =>
    subst hmsg
    rw [htables] at hlookup
    by_cases hkey : tid = s.1.nextTableId
    · subst hkey
      rw [AList.lookup_insert] at hlookup
      cases hlookup
      exact newTable_tracks _ _ _
    · rw [AList.lookup_insert_ne hkey] at hlookup
      rw [hledger]
      exact hvalid.2 stored hlookup
  | @onTable key t t' _ _ hmsg hget htable hreplaces _ =>
    have hid : t'.id = key := htable.id_eq.trans (getTable_id hvalid.1.1 hget).1
    rw [hreplaces.tables, hid] at hlookup
    by_cases hkey : tid = key
    · subst hkey
      rw [AList.lookup_insert] at hlookup
      cases hlookup
      simp only [hledger, recordLedger, hmsg, hget, if_true, Option.elim]
      exact InnerStep.normalize.tracks (htable.tracks (hkeeps hmsg t hget)
        (getTable_vacant hget) (hvalid.getTable hget))
    · rw [AList.lookup_insert_ne hkey] at hlookup
      have hother : m.tableId ≠ some tid := by
        rw [hmsg]
        simpa using fun h => hkey h.symm
      rw [hledger, recordLedger, if_neg hother]
      exact hvalid.2 stored hlookup
  | otherTransaction _ hmsg _ htables _ =>
    subst hmsg
    rw [htables] at hlookup
    rw [hledger]
    exact hvalid.2 stored hlookup

theorem ledgerValid_genesis (tid : Nat) (balances : env.bank.Balances) :
    LedgerValid tid (State.genesis env balances, Ledger.empty) := by
  refine ⟨solvent_genesis balances, ?_⟩
  intro t hlookup
  simp [State.genesis] at hlookup

def ledgerRun (env : Env) (tid : Nat) (balances : env.bank.Balances)
    (messages : List (Msg env)) : State env × Ledger :=
  run (withHistory handle (recordLedger tid))
    (State.genesis env balances, Ledger.empty) messages

/-! ## The refund -/

theorem Tracks.refund (htracks : Tracks ledger seats h) (hdistinct : SeatsDistinct seats)
    (hplayer : ∀ i, (seats' i).player = (seats i).player)
    (hstack : ∀ i, (seats i).player ≠ "" → (seats' i).stack = (seats i).stack + h.totalCommit i) :
    (∀ player d, ledger.dealt player = some d → stackOf seats' player + ledger.paid player = d) ∧
    (∀ player, ledger.dealt player = none → stackOf seats' player = stackOf seats player) := by
  have hdistinct' := hdistinct.of_owners hplayer
  constructor
  · intro player d hd
    have hne : player ≠ "" := by
      rintro rfl
      rw [htracks.vacant] at hd
      cases hd
    by_cases hseated : ∃ i, (seats i).player = player
    · obtain ⟨i, hi⟩ := hseated
      obtain ⟨hsum, hpaid, _⟩ := htracks.seated i d (by rwa [hi])
      rw [stackOf_eq hdistinct' hne ((hplayer i).trans hi),
        hstack i (by rwa [hi]), hsum, ← hi, hpaid, Nat.add_zero]
    · simp only [not_exists] at hseated
      rw [stackOf_absent fun i => by rw [hplayer i]; exact hseated i]
      rcases htracks.gone player d hd with ⟨i, hi⟩ | hpaid
      · exact absurd hi (hseated i)
      · rw [hpaid, Nat.zero_add]
  · intro player hnone
    by_cases hne : player = ""
    · rw [hne, stackOf_empty, stackOf_empty]
    by_cases hseated : ∃ i, (seats i).player = player
    · obtain ⟨i, hi⟩ := hseated
      have hzero := htracks.other i (by rwa [hi])
      rw [stackOf_eq hdistinct' hne ((hplayer i).trans hi), stackOf_eq hdistinct hne hi, hstack i
        (by rwa [hi]), hzero, Nat.add_zero]
    · simp only [not_exists] at hseated
      rw [stackOf_absent hseated, stackOf_absent fun i => by rw [hplayer i]; exact hseated i]

theorem abortHandRefundAllCommits_ok {s s' : State env} (hids : IdsValid s)
    (hok : abortHandRefundAllCommits s tid hid = .ok s') (hget' : s'.getTable tid = some t') :
    ∃ t h, s.getTable tid = some t ∧ t.hand = some h ∧
      (∀ i, (t'.seats i).player = (t.seats i).player) ∧
      ∀ i, (t.seats i).player ≠ "" → (t'.seats i).stack = (t.seats i).stack + h.totalCommit i := by
  simp only [abortHandRefundAllCommits, ok_iff] at hok
  obtain ⟨⟨t, h⟩, hload, seats, hrefund, rfl⟩ := hok
  obtain ⟨hget, hhand, _⟩ := loadHand_ok hload
  have hid := (getTable_id hids hget).1
  refine ⟨t, h, hget, hhand, ?_⟩
  have hcells := refundCommits_ok hrefund
  simp only [State.getTable, State.setTable, hid, AList.lookup_insert,
    Option.map_some, normalizeTable_idem, Option.some.injEq] at hget'
  subst hget'
  refine ⟨?_, ?_⟩
  · intro i
    simp [normalizeTable, clearHoles, hcells i]
  · intro i hplayer
    simp [normalizeTable, normalizeSeat, clearHoles, hcells i, hplayer]

/-- In a run in which nobody leaves with chips in the pot and nobody sits down
again during the hand they were dealt into, an abort gives every dealt player
the stack of before the deal and changes no other stack. -/
theorem abort_neutral (env : Env) (tid : Nat) (balances : env.bank.Balances)
    (messages : List (Msg env))
    (hmeet : AcceptedMeet (withHistory handle (recordLedger tid))
      (KeepsSeats tid) (State.genesis env balances, Ledger.empty) messages)
    {hid : Nat} {t t' : Table} {s' : State env}
    (hget : (ledgerRun env tid balances messages).1.getTable tid = some t)
    (habort : abortHandRefundAllCommits
      (ledgerRun env tid balances messages).1 tid hid = .ok s')
    (hget' : s'.getTable tid = some t') :
    (∀ player d,
      (ledgerRun env tid balances messages).2.dealt player = some d →
      stackOf t'.seats player +
        (ledgerRun env tid balances messages).2.paid player = d) ∧
    (∀ player,
      (ledgerRun env tid balances messages).2.dealt player = none →
      stackOf t'.seats player = stackOf t.seats player) := by
  have hvalid : LedgerValid tid (ledgerRun env tid balances messages) :=
    run_invariant_of_steps (LedgerValid tid) hmeet
      (ledgerValid_genesis tid balances)
      fun _ _ s' hkeeps hvalid hok => hvalid.step (hkeeps (isOk_iff.mpr ⟨s', hok⟩)) hok
  obtain ⟨t₀, h, hload, hhand, hplayer, hstack⟩ :=
    abortHandRefundAllCommits_ok hvalid.1.1 habort hget'
  rw [hget] at hload
  cases hload
  obtain ⟨hdistinct, htracks⟩ := hvalid.getTable hget
  exact (htracks h hhand).refund hdistinct hplayer hstack

def abortedTable (s : State env) (tid hid : Nat) : Option Table := do
  let s' ← (abortHandRefundAllCommits s tid hid).toOption
  s'.getTable tid

theorem abortedTable_some {s : State env} (hsome : abortedTable s tid hid = some t') :
    ∃ s', abortHandRefundAllCommits s tid hid = .ok s' ∧ s'.getTable tid = some t' := by
  simp only [abortedTable, Option.bind_eq_bind, Option.bind_eq_some_iff] at hsome
  obtain ⟨s', habort, hget⟩ := hsome
  exact ⟨s', toOption_eq_some.mp habort, hget⟩

def foldAndLeaveRun : List (Msg ledgerEnv) :=
  dealtTo sampleTable [("A", 100), ("B", 100), ("C", 100)] ++
    [.act sampleBlock ⟨"A", 1, "call", 0⟩, .act sampleBlock ⟨"B", 1, "fold", 0⟩, .leave ⟨"B", 1⟩]

def foldAndLeave : State ledgerEnv × Ledger :=
  ledgerRun ledgerEnv 1 (0 : Nat) foldAndLeaveRun

/-- The refund of the blind goes to the empty seat and is erased when the table
is stored: the player held 100 chips, was paid 99 and gets nothing back. -/
theorem foldAndLeave_loses :
    ∃ s' t', abortHandRefundAllCommits foldAndLeave.1 1 1 = .ok s' ∧
      s'.getTable 1 = some t' ∧ foldAndLeave.2.dealt "B" = some 100 ∧
      stackOf t'.seats "B" + foldAndLeave.2.paid "B" = 99 := by
  have hrun : (abortedTable foldAndLeave.1 1 1).any (fun t' =>
      decide (foldAndLeave.2.dealt "B" = some 100 ∧
        stackOf t'.seats "B" + foldAndLeave.2.paid "B" = 99)) = true := by
    decide +kernel
  obtain ⟨t', hsome, hfacts⟩ := (Option.any_eq_true _ _).mp hrun
  obtain ⟨s', habort, hget⟩ := abortedTable_some hsome
  exact ⟨s', t', habort, hget, of_decide_eq_true hfacts⟩

/-- A player folds before putting in a chip and leaves; another one sits down
while the hand goes on. -/
def leaveEarlyRun : List (Msg ledgerEnv) :=
  dealtTo sampleTable [("A", 100), ("B", 100), ("C", 100), ("D", 100)] ++
    [.act sampleBlock ⟨"D", 1, "fold", 0⟩, .leave ⟨"D", 1⟩, .sit ⟨"E", 1, 50, samplePk, []⟩,
      .act sampleBlock ⟨"A", 1, "raise", 20⟩, .act sampleBlock ⟨"B", 1, "fold", 0⟩]

def leaveEarly : State ledgerEnv × Ledger :=
  ledgerRun ledgerEnv 1 (0 : Nat) leaveEarlyRun

theorem leaveEarly_neutral :
    ∃ s' t t', leaveEarly.1.getTable 1 = some t ∧
      abortHandRefundAllCommits leaveEarly.1 1 1 = .ok s' ∧
      s'.getTable 1 = some t' ∧ stackOf t.seats "A" = 80 ∧
      (∀ player d, leaveEarly.2.dealt player = some d →
        stackOf t'.seats player + leaveEarly.2.paid player = d) ∧
      (∀ player, leaveEarly.2.dealt player = none →
        stackOf t'.seats player = stackOf t.seats player) := by
  have hmeet : AcceptedMeet (withHistory handle (recordLedger 1)) (KeepsSeats 1)
      (State.genesis ledgerEnv (0 : Nat), Ledger.empty) leaveEarlyRun := by
    unfold AcceptedMeet
    decide +kernel
  have hloaded : (leaveEarly.1.getTable 1).any (fun t =>
      stackOf t.seats "A" = 80) = true := by
    decide +kernel
  have haborted : (abortedTable leaveEarly.1 1 1).isSome = true := by
    decide +kernel
  obtain ⟨t, hget, hstack⟩ := (Option.any_eq_true _ _).mp hloaded
  obtain ⟨t', hsome⟩ := Option.isSome_iff_exists.mp haborted
  obtain ⟨s', habort, hget'⟩ := abortedTable_some hsome
  refine ⟨s', t, t', hget, habort, hget', of_decide_eq_true hstack, ?_⟩
  unfold leaveEarly at hget habort ⊢
  exact abort_neutral ledgerEnv 1 (0 : Nat) leaveEarlyRun hmeet hget habort hget'

end OnChainPoker.Poker
