import OnChainPoker.Dealer.Shuffling

/-!
# An active hand and the dealer hand beside it

`handle_origin` says what an accepted message, on whatever table, does to a hand
that is active afterwards and to its dealer hand: the dealer hand is new, or both
come from a pair of the state before by one `PairStep`.  Invariants of such pairs
are proved by cases on it.
-/

namespace OnChainPoker.Dealer

open Foundation Crypto
open Poker (Table Hand TableStanding)

variable {env : Env} {c : Chain env} {msg : Msg env} {t₁ : Table}

/-! ## Messages -/

structure ChainValid (c : Chain env) : Prop where
  sound : DealerSound c.dealer
  linked : Linked c
  tables : ∀ tid t, c.poker.getTable tid = some t → TableStanding t
  numbered : Poker.Numbered c.poker
  epochs : ∀ tid hid dh, c.dealer.getHand tid hid = some dh →
    ∃ e, c.dealer.epoch = some e ∧ dh.epochId ≤ e.epochId

theorem reachable_valid (hreach : Reachable c) : ChainValid c := by
  refine ⟨reachable_dealerSound hreach, reachable_linked hreach, ?_,
    Poker.reachable_numbered (reachable_poker hreach), ?_⟩
  · intro tid t ht
    obtain ⟨_, log, ⟨balances, rfl⟩, hlog⟩ := reachable_poker hreach
    rw [← hlog.eq_run] at ht
    exact Poker.reachable_standing ht
  · intro tid hid dh hdh
    obtain ⟨_, log, ⟨_, _, _, rfl⟩, hlog⟩ := hreach
    exact ((reachable_shufflesTracked hlog).stored tid hid dh hdh).epoch

theorem PlayerMsg.toPoker_ofPlayer {env : Poker.Env} (m : PlayerMsg env) :
    m.toPoker.ofPlayer = true := by
  cases m <;> rfl

/-- An accepted message may first slash members; a pair of an active hand and its
dealer hand then has its origin in the state in between. -/
theorem handle_origin {c c' : Chain env} {tid : Nat} {t' : Table} {h' : Hand} {dh' : DealerHand}
    (hvalid : ChainValid c) (hok : handle c msg = .ok c') (hat' : AtHand c' tid t' h' dh') :
    ∃ c₁, Penalised c c₁ ∧ EpochLater c₁.dealer c'.dealer ∧ PairOrigin c₁ msg tid t' h' dh' := by
  cases handle_step hok with
  | player m _ hpoker =>
    refine ⟨c, .none, .of_eq rfl, ?_⟩
    obtain ⟨ht', hh', hdh'⟩ := hat'
    have hplayed := Poker.handle_played hvalid.linked.solvent.1 hvalid.tables
      m.toPoker_ofPlayer hpoker ht' hh'
    rcases hplayed with hsame | ⟨t, ht, hplayed⟩
    · have hold : AtHand c tid t' h' dh' := ⟨hsame, hh', hdh'⟩
      exact hold.origin
    · cases hplayed with
      | @on h h₁ hh hh₁ hon =>
        cases hh'.symm.trans hh₁
        have hid := hon.follows.deck.handId
        exact .inr ⟨t, h, dh', ⟨ht, hh, hid ▸ hdh'⟩, hid, .play hon⟩
      | started _ hstart hnormal =>
        -- a hand that has just been started has no dealer hand
        obtain ⟨h₁, hh₁, _, hid, _⟩ := Poker.startHandOn_hand hstart
        subst hnormal
        cases hh'.symm.trans hh₁
        have hdh : c.dealer.getHand tid h'.handId = some dh' := hdh'
        obtain ⟨t₁, ht₁, hlt⟩ := hvalid.linked.started tid _ dh' hdh
        cases ht.symm.trans ht₁
        omega
  | dkg block m dealer hdealer =>
    have heffect := dkg_effect hvalid.sound hdealer
    refine ⟨c, .none, heffect.epochLater hvalid.sound, ?_⟩
    obtain ⟨ht', hh', hdh'⟩ := hat'
    have hdh : c.dealer.getHand tid h'.handId = some dh' := by
      simpa only [State.getHand, heffect.hands_eq] using hdh'
    have hold : AtHand c tid t' h' dh' := ⟨ht', hh', hdh⟩
    exact hold.origin
  | hand block m _ =>
    obtain ⟨c₁, hpenalty, hact⟩ := handleHand_effect hok
    obtain ⟨_, _, _, _, hwrote⟩ := hact.wrote (hvalid.linked.penalised hpenalty).solvent.1
    exact ⟨c₁, hpenalty, .of_eq hact.epoch_eq, hwrote.origin hat'⟩
  | otherStaking staking =>
    have hold : AtHand c tid t' h' dh' := ⟨hat'.table, hat'.hand, hat'.dealerHand⟩
    exact ⟨c, .none, .of_eq rfl, hold.origin⟩

/-! ## Invariants of pairs -/

section Invariants

variable {c c₁ c' : Chain env} {tid : Nat} {t : Table} {h : Hand} {dh : DealerHand}

theorem AtHand.of_penalised (hpenalty : Penalised c c₁) (hat : AtHand c₁ tid t h dh) :
    AtHand c tid t h dh := by
  cases hpenalty with
  | none => exact hat
  | some _ _ => exact ⟨hat.table, hat.hand, hat.dealerHand⟩

def Dealt (s : State env) (dh : DealerHand) : Prop :=
  ∃ e, s.epoch = some e ∧ dh.epochId ≤ e.epochId

theorem Dealt.later {s s' : State env} (hdealt : Dealt s dh)
    (hlater : EpochLater s s') : Dealt s' dh := by
  obtain ⟨e, he, hle⟩ := hdealt
  obtain ⟨e', he', hgrows | hlt⟩ := hlater e he
  · refine ⟨e', he', ?_⟩
    rw [hgrows.same]
    exact hle
  · exact ⟨e', he', hle.trans hlt.le⟩

theorem AtHand.standing {h : Hand} (hat : AtHand c tid t h dh)
    (hvalid : ChainValid c) : Poker.HandStanding t.seats h :=
  (hvalid.tables tid t hat.table).hand h hat.hand

theorem ChainValid.penalised (hvalid : ChainValid c) (hpenalty : Penalised c c₁) :
    ChainValid c₁ := by
  refine ⟨hpenalty.sound hvalid.sound, hvalid.linked.penalised hpenalty, ?_, ?_, ?_⟩
  · rw [hpenalty.poker_eq]
    exact hvalid.tables
  · rw [hpenalty.poker_eq]
    exact hvalid.numbered
  · intro tid hid dh hdh
    have hold : c.dealer.getHand tid hid = some dh := by
      cases hpenalty <;> exact hdh
    have hdealt : Dealt c.dealer dh := hvalid.epochs tid hid dh hold
    exact hdealt.later hpenalty.epochLater

theorem InEpoch.before {e' : DealerEpoch} (hin : InEpoch c' dh e')
    (hdealt : Dealt c.dealer dh) (hlater : EpochLater c.dealer c'.dealer) :
    ∃ e, InEpoch c dh e ∧ SlashGrows e e' := by
  obtain ⟨e, he, hle⟩ := hdealt
  obtain ⟨e₁, he₁, hstep⟩ := hlater e he
  cases he₁.symm.trans hin.current
  have hid := hin.epochId
  rcases hstep with hgrows | hlt
  · refine ⟨e, ⟨he, ?_⟩, hgrows⟩
    have hsame : e'.epochId = e.epochId := by rw [hgrows.same]
    omega
  · omega

theorem PairStep.epochId_eq {t' : Table} {h' : Hand} {dh' : DealerHand}
    (hstep : PairStep c msg tid t h dh t' h' dh') : dh'.epochId = dh.epochId := by
  cases hstep <;> rfl

/-- A property of an active hand and its dealer hand that new dealer hands have and
every allowed message keeps.  It may depend on the chain through the epoch. -/
structure PairInvariant (allowed : Chain env → Msg env → Prop)
    (P : Chain env → Nat → Table → Hand → DealerHand → Prop) : Prop where
  opened : ∀ {c : Chain env} {tid : Nat} {t t' : Table} {h h' : Hand}
    {dh : DealerHand} {epoch : DealerEpoch}, ChainValid c →
    Opened c tid t' h' dh t h epoch → P c tid t' h' dh
  step : ∀ {c₀ c : Chain env} {msg : Msg env} {tid : Nat} {t t' : Table}
    {h h' : Hand} {dh dh' : DealerHand}, ChainValid c → allowed c₀ msg →
    Penalised c₀ c → AtHand c tid t h dh → P c tid t h dh →
    PairStep c msg tid t h dh t' h' dh' → P c tid t' h' dh'
  later : ∀ {c c' : Chain env} {tid : Nat} {t : Table} {h : Hand}
    {dh : DealerHand}, ChainValid c → Dealt c.dealer dh →
    EpochLater c.dealer c'.dealer → P c tid t h dh → P c' tid t h dh

variable {allowed : Chain env → Msg env → Prop}
  {P : Chain env → Nat → Table → Hand → DealerHand → Prop}

theorem PairInvariant.handle (hinv : PairInvariant allowed P) (hvalid : ChainValid c)
    (hallowed : allowed c msg) (hok : Dealer.handle c msg = .ok c')
    (hall : ∀ tid t h dh, AtHand c tid t h dh → P c tid t h dh)
    (hat' : AtHand c' tid t h dh) : P c' tid t h dh := by
  obtain ⟨c₁, hpenalty, hlater, horigin⟩ := handle_origin hvalid hok hat'
  have hvalid₁ := hvalid.penalised hpenalty
  rcases horigin with ⟨t₀, h₀, epoch, hopened⟩ | ⟨t₀, h₀, dh₀, hat₁, hid, hstep⟩
  · refine hinv.later hvalid₁ ?_ hlater (hinv.opened hvalid₁ hopened)
    exact ⟨epoch, hopened.current, hopened.initial.epochId.le⟩
  · have hat₀ := hat₁.of_penalised hpenalty
    have hdealt : Dealt c.dealer dh₀ := hvalid.epochs tid _ dh₀ hat₀.dealerHand
    have hbefore := hinv.later hvalid hdealt hpenalty.epochLater (hall tid t₀ h₀ dh₀ hat₀)
    have hafter := hinv.step hvalid₁ hallowed hpenalty hat₁ hbefore hstep
    refine hinv.later hvalid₁ ?_ hlater hafter
    have hdealt₁ := hdealt.later hpenalty.epochLater
    obtain ⟨e, he, hle⟩ := hdealt₁
    exact ⟨e, he, hstep.epochId_eq.le.trans hle⟩

theorem PairInvariant.run (hinv : PairInvariant allowed P)
    {balances : env.poker.bank.Balances} {staking : env.staking.Staking} {params : Params}
    {messages : List (Msg env)} (hmeet : AcceptedMeet Dealer.handle allowed
      (Chain.genesis env balances staking params) messages)
    (hat : AtHand (Foundation.run Dealer.handle
      (Chain.genesis env balances staking params) messages) tid t h dh) :
    P (Foundation.run Dealer.handle (Chain.genesis env balances staking params)
      messages) tid t h dh := by
  refine (reachable_run balances staking params []).run_invariant_of_steps
    (fun c : Chain env => ∀ tid t h dh, AtHand c tid t h dh → P c tid t h dh) hmeet ?_ ?_
    tid t h dh hat
  · intro tid t h dh hat
    have hdh := hat.dealerHand
    simp [Foundation.run, Chain.genesis, State.genesis, State.getHand] at hdh
  · intro c msg c' hreach hallowed hall hok tid t h dh hat'
    exact hinv.handle (reachable_valid hreach) (hallowed (isOk_iff.mpr ⟨c', hok⟩)) hok hall hat'

theorem PairInvariant.reachable (hinv : PairInvariant (fun _ _ => True) P)
    (hreach : Reachable c) (hat : AtHand c tid t h dh) : P c tid t h dh := by
  obtain ⟨_, log, ⟨_, _, _, rfl⟩, hlog⟩ := hreach
  rw [← hlog.eq_run] at hat ⊢
  exact hinv.run (stepsMeet_of_forall (fun _ _ _ => trivial) _) hat

end Invariants

end OnChainPoker.Dealer
