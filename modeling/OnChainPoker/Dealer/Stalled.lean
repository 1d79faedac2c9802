import OnChainPoker.Dealer.Secrecy
import OnChainPoker.Poker.Seats

/-!
# What nobody can move on

A hand that has been started and for which no deck has been initialised is not ended
by any message of the players, nor by a timeout of the dealer.
-/

namespace OnChainPoker.Dealer

open Foundation Crypto
open Poker (Block Table Hand SeatIdx inHandNotFolded)

variable {env : Env} {c c' : Chain env} {hid tid : Nat}

/-! ## Hands without a deck -/

/-- The messages of x/poker, `Tick` and `Leave` among them, and the dealer's
`Timeout`. -/
def Unprivileged : Msg env → Prop
  | .player _ => True
  | .hand _ (.timeout _) => True
  | _ => False

structure Undealt (c : Chain env) (tid hid : Nat) (dealtIn : SeatIdx → Bool)
    (player : SeatIdx → String) : Prop where
  hand : ∃ t h, c.poker.getTable tid = some t ∧ t.hand = some h ∧ h.handId = hid ∧
    h.phase = .shuffle ∧ h.inHand = dealtIn ∧
    ∀ i, h.inHand i = true → (t.seats i).player = player i
  dealer : c.dealer.getHand tid hid = none

variable {dealtIn : SeatIdx → Bool} {player : SeatIdx → String}

theorem Undealt.timeout_rejected {block : Block} {req : MsgHand}
    (hundealt : Undealt c tid hid dealtIn player)
    (hok : handle c (.hand block (.timeout req)) = .ok c') : req.tableId ≠ tid := by
  rintro rfl
  obtain ⟨⟨t, h, ht, hh, hhid, -⟩, hnone⟩ := hundealt
  change msgTimeout c block req = .ok c' at hok
  simp only [msgTimeout, timeoutHand, ok_iff] at hok
  obtain ⟨-, -, -, -, ⟨t₁, h₁⟩, hactive, dh, hdealer, -⟩ := hok
  obtain ⟨hat, hid₁⟩ := atHand_of_ok hactive hdealer
  cases hat.table.symm.trans ht
  cases hat.hand.symm.trans hh
  have hdh := hat.dealerHand
  rw [hhid, hnone] at hdh
  cases hdh

theorem Undealt.handle {msg : Msg env} (hvalid : ChainValid c)
    (hundealt : Undealt c tid hid dealtIn player) (hmsg : Unprivileged msg)
    (hok : Dealer.handle c msg = .ok c') :
    Undealt c' tid hid dealtIn player := by
  cases msg with
  | player m =>
    obtain ⟨⟨t, h, ht, hh, hhid, hphase, hin, hplayers⟩, hnone⟩ := hundealt
    simp only [Dealer.handle, ok_iff] at hok
    obtain ⟨poker, hpoker, rfl⟩ := hok
    have hstanding := (hvalid.tables tid t ht).hand h hh
    have hnot : h.phase ≠ .betting := by
      rw [hphase]
      simp
    obtain ⟨t', h', ht', hh', hon⟩ := Poker.handle_kept hvalid.linked.solvent.1
      hvalid.tables m.toPoker_ofPlayer hpoker ht hh hnot
    have hdeck := hon.follows.deck
    refine ⟨⟨t', h', ht', hh', hdeck.handId.trans hhid, (hon.phase hnot).trans hphase,
      hdeck.inHand.trans hin, fun i hi => ?_⟩, hnone⟩
    rw [hdeck.inHand] at hi
    have hlive : inHandNotFolded h' i = true := by
      rw [inHandNotFolded, hdeck.inHand, hon.folded hnot, hi, hstanding.unfolded hphase i]
      rfl
    exact (hon.seat i hlive).1.trans (hplayers i hi)
  | dkg block m => exact hmsg.elim
  | hand block m =>
    cases m with
    | timeout req =>
      have hother := hundealt.timeout_rejected hok
      change handleHand c block (.timeout req) = .ok c' at hok
      obtain ⟨c₁, hpenalty, hact⟩ := handleHand_effect hok
      obtain ⟨_, _, _, _, hwrote⟩ := hact.wrote (hvalid.linked.penalised hpenalty).solvent.1
      obtain ⟨htable, hhands⟩ := hwrote.elsewhere hother.symm
      obtain ⟨⟨t, h, ht, hrest⟩, hnone⟩ := hundealt
      refine ⟨⟨t, h, ?_, hrest⟩, ?_⟩
      · rw [htable, hpenalty.poker_eq]
        exact ht
      · rw [hhands]
        cases hpenalty <;> exact hnone
    | _ => exact hmsg.elim
  | otherStaking staking => exact hmsg.elim

theorem Undealt.leave_rejected (hvalid : ChainValid c) (hapart : Poker.TablesApart id c.poker)
    (hundealt : Undealt c tid hid dealtIn player) {i : SeatIdx} (hi : dealtIn i = true) :
    Dealer.handle c (.player (.leave ⟨player i, tid⟩)) ≠ .ok c' := by
  intro hok
  obtain ⟨⟨t, h, ht, hh, -, hphase, hin, hplayers⟩, -⟩ := hundealt
  have hstanding := (hvalid.tables tid t ht).hand h hh
  have hlive : inHandNotFolded h i = true := by
    rw [inHandNotFolded, hin, hi, hstanding.unfolded hphase i]
    rfl
  have hplayer := hplayers i (by rw [hin]; exact hi)
  have hseated := hstanding.seated i hlive
  simp only [Dealer.handle, PlayerMsg.toPoker, Poker.handle, Poker.leave, ok_iff] at hok
  obtain ⟨_, ⟨_, _, t₁, hload, seat, hseat, _, hout, _⟩, _⟩ := hok
  cases ht.symm.trans (Poker.loadTable_ok hload)
  obtain ⟨hnamed, hsame⟩ := Poker.seatOfPlayer_some hseat
  have hown : seat = i := hapart tid t ht seat i (by rw [hsame]; exact hnamed) hseated
    (hsame.trans hplayer.symm)
  subst hown
  exact hout (by simp [hh, hlive])

theorem undealt_of_none {t : Table} {h : Hand} (hvalid : ChainValid c)
    (ht : c.poker.getTable tid = some t) (hh : t.hand = some h)
    (hnone : c.dealer.getHand tid h.handId = none) :
    Undealt c tid h.handId h.inHand (fun i => (t.seats i).player) := by
  have hagrees := hvalid.linked.agrees tid t h ht hh
  rw [hnone] at hagrees
  refine ⟨⟨t, h, ht, hh, rfl, ?_, rfl, fun _ _ => rfl⟩, hnone⟩
  by_contra hphase
  have hstanding := (hvalid.tables tid t ht).hand h hh
  obtain ⟨expected, hexpected, -⟩ := hstanding.reveal.expected hphase
  have hfinal := (Poker.dealerExpectedRevealPos_ok hexpected).1
  rw [hagrees.2] at hfinal
  cases hfinal

section Runs

variable {c : Chain env} {tid hid : Nat} {dealtIn : SeatIdx → Bool} {player : SeatIdx → String}

theorem Undealt.run (hreach : Reachable c) (hundealt : Undealt c tid hid dealtIn player)
    {later : List (Msg env)} (hlater : ∀ m ∈ later, Unprivileged m) :
    Undealt (Foundation.run Dealer.handle c later) tid hid dealtIn player := by
  have hmeet : StepsMeet Dealer.handle (fun _ m => Unprivileged m) c later :=
    stepsMeet_of_mem fun m hm _ => hlater m hm
  apply hreach.run_invariant_of_steps (fun c : Chain env =>
    Undealt c tid hid dealtIn player) hmeet hundealt
  exact fun c msg c' hreach hmsg hbefore hok =>
    hbefore.handle (reachable_valid hreach) hmsg hok

theorem Undealt.nobody_leaves (hreach : Reachable c) (hundealt : Undealt c tid hid dealtIn player)
    {later : List (Msg env)} (hlater : ∀ m ∈ later, Unprivileged m) {i : SeatIdx}
    (hi : dealtIn i = true) (c' : Chain env) :
    Dealer.handle (Foundation.run Dealer.handle c later)
      (.player (.leave ⟨player i, tid⟩)) ≠ .ok c' := by
  have hreach' := hreach.run later
  exact (hundealt.run hreach hlater).leave_rejected (reachable_valid hreach')
    (Poker.reachable_textsApart (reachable_poker hreach')) hi

end Runs

/-- Whatever the players and the timeouts of the dealer do, a hand for which no deck
has been initialised goes on, and none of its players can leave the table. -/
theorem undealt_hand_stays (env : Env) (balances : env.poker.bank.Balances)
    (staking : env.staking.Staking) (params : Params) (messages : List (Msg env))
    {c : Chain env} {tid : Nat} {t : Table} {h : Hand}
    (hc : run handle (Chain.genesis env balances staking params) messages = c)
    (ht : c.poker.getTable tid = some t) (hh : t.hand = some h)
    (hnone : c.dealer.getHand tid h.handId = none) (later : List (Msg env))
    (hlater : ∀ m ∈ later, Unprivileged m) :
    (∃ t' h', (run handle c later).poker.getTable tid = some t' ∧
      t'.hand = some h' ∧ h'.handId = h.handId) ∧
    (∃ i, h.inHand i = true) ∧
    ∀ i, h.inHand i = true → ∀ c',
      handle (run handle c later) (.player (.leave ⟨(t.seats i).player, tid⟩)) ≠
        .ok c' := by
  subst hc
  have hreach := reachable_run balances staking params messages
  have hvalid := reachable_valid hreach
  have hundealt := undealt_of_none hvalid ht hh hnone
  refine ⟨?_, ?_, fun i hi c' => hundealt.nobody_leaves hreach hlater hi c'⟩
  · obtain ⟨⟨t', h', ht', hh', hid, -⟩, -⟩ := hundealt.run hreach hlater
    exact ⟨t', h', ht', hh', hid⟩
  · have hplayers := ((hvalid.tables tid t ht).hand h hh).contested.players
    have hsome : 0 < (List.finRange 9).countP (inHandNotFolded h) := by
      rw [Poker.countNotFolded] at hplayers
      omega
    obtain ⟨i, -, hlive⟩ := List.countP_pos_iff.mp hsome
    simp only [inHandNotFolded, Bool.and_eq_true] at hlive
    exact ⟨i, hlive.1⟩

def startedRun : List (Msg residueEnv) := (dealRun 1 52).take 4

theorem startedRun_undealt :
    ∃ t ∈ (run handle residueGenesis startedRun).poker.getTable 1, ∃ h ∈ t.hand,
      (run handle residueGenesis startedRun).dealer.getHand 1 h.handId = none ∧
        h.inHand 0 = true ∧ (t.seats 0).player = "P" := by
  decide +kernel

theorem startedRun_stuck :
    ¬ ∃ later : List (Msg residueEnv), (∀ m ∈ later, Unprivileged m) ∧
      ∃ c', handle (run handle (run handle residueGenesis startedRun) later)
        (.player (.leave ⟨"P", 1⟩)) = .ok c' := by
  rintro ⟨later, hlater, c', hok⟩
  obtain ⟨t, ht, h, hh, hnone, hin, hplayer⟩ := startedRun_undealt
  have hreach : Reachable (run handle (Chain.genesis residueEnv (0 : Nat) () residueParams)
    startedRun) := reachable_run _ _ _ startedRun
  have hundealt := undealt_of_none (reachable_valid hreach) ht hh hnone
  have hstays := hundealt.nobody_leaves hreach hlater hin c'
  rw [hplayer] at hstays
  exact hstays hok

/-- Everything the players can try, ten minutes later. -/
theorem startedRun_goes_on :
    ∃ t h, (run handle (run handle residueGenesis startedRun)
      [.player (.tick (blockAt 600) ⟨"P", 1⟩), handMsgAt 600 (.timeout ⟨"gm", 1, 1⟩),
        .player (.leave ⟨"P", 1⟩), .player (.leave ⟨"Q", 1⟩)]).poker.getTable 1 =
          some t ∧ t.hand = some h := by
  obtain ⟨t, ht, h, hh, hnone, -⟩ := startedRun_undealt
  have hlater : ∀ m ∈ ([.player (.tick (blockAt 600) ⟨"P", 1⟩),
      handMsgAt 600 (.timeout ⟨"gm", 1, 1⟩), .player (.leave ⟨"P", 1⟩),
      .player (.leave ⟨"Q", 1⟩)] : List (Msg residueEnv)), Unprivileged m := by
    intro m hm
    simp only [List.mem_cons, List.not_mem_nil, or_false] at hm
    rcases hm with rfl | rfl | rfl | rfl <;> trivial
  obtain ⟨⟨t', h', ht', hh', -⟩, -⟩ := undealt_hand_stays residueEnv (0 : Nat) ()
    residueParams startedRun rfl ht hh hnone _ hlater
  exact ⟨t', h', ht', hh'⟩

end OnChainPoker.Dealer
