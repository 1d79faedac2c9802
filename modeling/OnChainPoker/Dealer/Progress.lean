import OnChainPoker.Dealer.ActiveHands
import OnChainPoker.Poker.Abort

/-!
# Timeouts

`Timeout` is what moves a hand on when members of the committee are silent.  The
deadlines it looks at are always set.  The shuffle has a dead end: the number of
shuffles can overtake the number of members that are left.
-/

namespace OnChainPoker.Dealer

open Foundation Crypto
open Poker (Block Table Hand SupplyFits tableDealerTimeoutSecs
  addInt64AndU64Checked ParamsValid)

variable {env : Env}

/-! ## Deadlines -/

structure DeadlinesSet (h : Hand) (dh : DealerHand) : Prop where
  shuffle : dh.finalized = false → 0 < dh.shuffleDeadline
  holeShares : h.phase = .shuffle → dh.finalized = true → 0 < dh.holeSharesDeadline

theorem DeadlinesSet.follows {h h' : Hand} {dh : DealerHand}
    (hset : DeadlinesSet h dh) (hfollows : Poker.Follows h h') :
    DeadlinesSet h' dh := by
  refine ⟨hset.shuffle, fun hphase => hset.holeShares ?_⟩
  obtain ⟨_, rfl⟩ := hfollows.opening hphase
  exact hphase

theorem deadlinesSet_invariant : PairInvariant (fun (_ : Chain env) (_ : Msg env) => True)
    (fun _ _ _ h dh => DeadlinesSet h dh) where
  opened := by
    intro c tid t t' h h' dh epoch _ hopened
    refine ⟨fun _ => hopened.deadline, fun _ hfinal => ?_⟩
    rw [hopened.initial.finalized] at hfinal
    cases hfinal
  step := by
    intro c₀ c msg tid t t' h h' dh dh' _ _ _ _ hset hstep
    cases hstep with
    | idle => exact hset
    | play hon => exact hset.follows hon.follows
    | shuffle _ _ _ _ hopen _ _ _ _ hdeadline | extend _ hopen hdeadline =>
      refine ⟨fun _ => hdeadline, fun _ hfinal => ?_⟩
      change dh.finalized = true at hfinal
      rw [hopen] at hfinal
      cases hfinal
    | finalizeDeck _ _ _ hdeadline _ => exact ⟨fun hopen => (nomatch hopen), fun _ _ => hdeadline⟩
    | encShare _ | pubShare => exact ⟨hset.shuffle, hset.holeShares⟩
    | advance _ _ _ hleft _ _ _ => exact ⟨hset.shuffle, fun hphase => absurd hphase hleft⟩
    | reveal block _ _ _ hreveal hdeadlines _ =>
      have hplay := Poker.HandStep.reveal _ _ block hreveal hdeadlines
      have hnext := hset.follows hplay.follows
      exact ⟨hnext.shuffle, hnext.holeShares⟩
  later := fun _ _ _ hset => hset

theorem deadline_succeeds {params : Poker.TableParams} (hparams : ParamsValid params)
    (block : Block) (field : String) :
    addInt64AndU64Checked block.unix (tableDealerTimeoutSecs params) field =
      .ok (block.unix + tableDealerTimeoutSecs params) := by
  have hsecs : tableDealerTimeoutSecs params ≤ 1800 := by
    have hmax := hparams.dealerTimeout
    unfold tableDealerTimeoutSecs Poker.defaultDealerTimeoutSecs
    unfold Poker.maxDealerTimeoutSecs at hmax
    split <;> omega
  have hfrom := block.unix_pos
  have huntil := block.unix_le
  exact Poker.addInt64AndU64Checked_of_le field (by omega) (by unfold Poker.maxInt64; omega)

theorem tableDealerTimeoutSecs_ne_zero (params : Poker.TableParams) :
    tableDealerTimeoutSecs params ≠ 0 := by
  unfold tableDealerTimeoutSecs Poker.defaultDealerTimeoutSecs
  split <;> omega

/-! ## What a timeout can come to -/

structure Aborted (c' : Chain env) (tid : Nat) (t : Table) (h : Hand) : Prop where
  gone : c'.dealer.getHand tid h.handId = none
  refunded : ∃ t', c'.poker.getTable tid = some t' ∧ t'.hand = none ∧
    ∀ i, (t.seats i).player ≠ "" →
      (t'.seats i).stack = (t.seats i).stack + h.totalCommit i

section Outcomes

variable {c c' : Chain env} {block : Block} {tid : Nat} {t : Table} {h : Hand}
  {dh : DealerHand} {e : DealerEpoch}

theorem abortHand_succeeds (hvalid : ChainValid c) (hsupply : SupplyFits c.poker)
    (hat : AtHand c tid t h dh) :
    ∃ c', abortHand c tid h.handId = .ok c' ∧ Aborted c' tid t h := by
  have hids := hvalid.linked.solvent.1
  obtain ⟨poker, habort⟩ := Poker.abortHandRefundAllCommits_succeeds
    hvalid.linked.solvent hsupply hat.table hat.hand
  refine ⟨Chain.deleteHand { c with poker := poker } tid h.handId, ?_, ?_, ?_⟩
  · rw [abortHand, habort]
    rfl
  · rw [getHand_deleteHand, if_pos ⟨rfl, rfl⟩]
  · obtain ⟨_, _, t', -, -, -, -, hnone, hget⟩ := abort_written hids habort
    have ht' : poker.getTable tid = some t' := by rw [hget, if_pos rfl]
    obtain ⟨t₀, h₀, ht₀, hh₀, _, hstack⟩ := Poker.abortHandRefundAllCommits_ok hids habort ht'
    cases hat.table.symm.trans ht₀
    cases hat.hand.symm.trans hh₀
    exact ⟨t', ht', hnone, hstack⟩

theorem activeHand_eq (hat : AtHand c tid t h dh) (missing : String) :
    c.activeHand tid h.handId missing = .ok (t, h) := by
  simp [Chain.activeHand, hat.table, hat.hand, require_eq_ok]

theorem dealerHand_eq (hat : AtHand c tid t h dh) : c.dealerHand tid h.handId = .ok dh := by
  rw [Chain.dealerHand, require_eq_ok]
  exact hat.dealerHand

theorem handEpoch_eq (hin : InEpoch c dh e) : c.handEpoch dh = .ok e := by
  simp [Chain.handEpoch, hin.current, hin.epochId, require_eq_ok]

theorem finalizeDeck_succeeds (block : Block) (hvalid : ChainValid c) (hat : AtHand c tid t h dh)
    (hphase : h.phase = .shuffle) (hopen : dh.finalized = false) (hin : InEpoch c dh e)
    (hmany : e.threshold ≤ (epochQualMembers e).length)
    (hstep : dh.shuffleStep = (epochQualMembers e).length) :
    ∃ c' dh', finalizeDeck c block tid h.handId = .ok c' ∧
      FinalisesDeck c c' tid h.handId dh dh' := by
  have hparams := (hvalid.tables tid t hat.table).params
  have hdeadline := deadline_succeeds hparams block "dealer hole shares deadline"
  let dh' : DealerHand := { dh with
    finalized := true
    shuffleDeadline := 0
    holeSharesDeadline := block.unix + tableDealerTimeoutSecs t.params }
  have hok : finalizeDeck c block tid h.handId = .ok ((c.setTable { t with
      hand := some { h with
        dealer := Poker.finalizeDealerMeta h dh.deck.length } }).setHand
      tid h.handId dh') := by
    rw [finalizeDeck, activeHand_eq hat, ok_bind]
    dsimp only
    rw [rejectIf_bind (by simp [hphase]), dealerHand_eq hat, ok_bind, rejectIf_bind (by simp
      [hopen]), handEpoch_eq hin, ok_bind, rejectIf_bind (by omega), rejectIf_bind (by omega),
      hdeadline]
    rfl
  have hstored : ((c.setTable { t with
      hand := some { h with
        dealer := Poker.finalizeDealerMeta h dh.deck.length } }).setHand
      tid h.handId dh').dealer.getHand tid h.handId = some dh' := by
    rw [getHand_setHand, if_pos ⟨rfl, rfl⟩]
  exact ⟨_, dh', hok, hat.dealerHand, hopen, hstored, rfl⟩

/-- Nobody is left, or the deck waits for a member that is left, or all that are
left have shuffled it and they are enough. -/
def ShuffleMovesOn (e : DealerEpoch) (step : Nat) : Prop :=
  epochQualMembers e = [] ∨ step < (epochQualMembers e).length ∨
    step = (epochQualMembers e).length ∧ e.threshold ≤ (epochQualMembers e).length

instance (e : DealerEpoch) (step : Nat) : Decidable (ShuffleMovesOn e step) := by
  unfold ShuffleMovesOn
  infer_instance

inductive ShuffleOutcome (c c' : Chain env) (block : Block) (tid : Nat) (t : Table)
    (h : Hand) (dh : DealerHand) (e : DealerEpoch) : Prop
  | extended {m : DealerMember} {e' : DealerEpoch} {dh' : DealerHand} :
      (epochQualMembers e)[dh.shuffleStep]? = some m →
      c'.dealer.epoch = some e' → m.validator ∈ e'.slashed →
      c'.dealer.getHand tid h.handId = some dh' →
      dh'.shuffleDeadline = block.unix + tableDealerTimeoutSecs t.params →
      ShuffleOutcome c c' block tid t h dh e
  | finalised {dh' : DealerHand} :
      FinalisesDeck c c' tid h.handId dh dh' →
      ShuffleOutcome c c' block tid t h dh e
  | aborted : Aborted c' tid t h → ShuffleOutcome c c' block tid t h dh e

/-- The staking module accepts the penalties of the validators, one after the other. -/
def PenaltiesAccepted (c : Chain env) (block : Block) (e : DealerEpoch)
    (validators : List String) : Prop :=
  ∃ result, penaliseAll c block e validators = .ok result

def skippedShuffler (e : DealerEpoch) (dh : DealerHand) : List String :=
  (epochQualMembers e)[dh.shuffleStep]?.toList.map (·.validator)

def PenaltiesSucceed (c : Chain env) (block : Block) (e : DealerEpoch) : Prop :=
  ∀ validators : List String,
    (∀ v ∈ validators, v ∈ e.members.map (·.validator)) →
    ∃ result, penaliseAll c block e validators = .ok result

theorem SupplyFits.penalised {c₁ : Chain env} (hsupply : SupplyFits c.poker)
    (hpenalty : Penalised c c₁) : SupplyFits c₁.poker := by
  rw [hpenalty.poker_eq]
  exact hsupply

theorem shuffle_after_penalty {c₁ : Chain env} {e₁ : DealerEpoch} {m : DealerMember}
    (hvalid : ChainValid c) (hsupply : SupplyFits c.poker) (hat : AtHand c tid t h dh)
    (hphase : h.phase = .shuffle) (hopen : dh.finalized = false) (hin : InEpoch c dh e)
    (hnext : (epochQualMembers e)[dh.shuffleStep]? = some m)
    (hpenalty : penaliseAll c block e [m.validator] = .ok (c₁, e₁)) :
    ∃ c', (if (epochQualMembers e₁).length < e₁.threshold then
        abortHand c₁ tid h.handId
      else if dh.shuffleStep = (epochQualMembers e₁).length then
        finalizeDeck c₁ block tid h.handId
      else do
        let shuffleDeadline ← (addInt64AndU64Checked block.unix
          (tableDealerTimeoutSecs t.params) "dealer shuffle deadline").mapError plain
        pure (c₁.setHand tid h.handId { dh with shuffleDeadline := shuffleDeadline })) = .ok c' ∧
      ShuffleOutcome c c' block tid t h dh e := by
  obtain ⟨hpenalised, he₁, hgrows⟩ := penaliseAll_penalised hin.current hpenalty
  have hvalid₁ := hvalid.penalised hpenalised
  have hat₁ := hat.penalised hpenalised
  split
  · obtain ⟨c', hok, haborted⟩ := abortHand_succeeds hvalid₁
      (SupplyFits.penalised hsupply hpenalised) hat₁
    exact ⟨c', hok, .aborted haborted⟩
  split
  · rename_i hmany hstep
    have hin₁ : InEpoch c₁ dh e₁ := ⟨he₁, by rw [hgrows.same]; exact hin.epochId⟩
    obtain ⟨c', dh', hok, hfinal⟩ := finalizeDeck_succeeds block hvalid₁ hat₁
      hphase hopen hin₁ (by omega) hstep
    exact ⟨c', hok, .finalised ⟨hat.dealerHand, hfinal.unfinalised, hfinal.stored',
      hfinal.finalised⟩⟩
  · have hparams := (hvalid.tables tid t hat.table).params
    rw [deadline_succeeds hparams]
    refine ⟨_, rfl, ?_⟩
    have hstored : (c₁.setHand tid h.handId { dh with
        shuffleDeadline := block.unix + tableDealerTimeoutSecs t.params
        }).dealer.getHand tid h.handId = some { dh with
        shuffleDeadline := block.unix + tableDealerTimeoutSecs t.params } := by
      rw [getHand_setHand, if_pos ⟨rfl, rfl⟩]
    refine .extended hnext he₁ ?_ hstored rfl
    obtain ⟨_, hslashed⟩ := penaliseAll_single hpenalty
    have hepoch := hvalid.sound.epoch e hin.current
    have hmember := List.mem_of_mem_filter (List.mem_of_getElem? hnext)
    rw [hslashed, hepoch.slashed.mem_slash (hepoch.committee.named m hmember)]
    exact .inl rfl

structure ShuffleOverdue (c : Chain env) (block : Block) (tid : Nat) (t : Table)
    (h : Hand) (dh : DealerHand) (e : DealerEpoch) : Prop where
  at_hand : AtHand c tid t h dh
  phase : h.phase = .shuffle
  unfinalised : dh.finalized = false
  epoch : InEpoch c dh e
  overdue : dh.shuffleDeadline ≤ block.unix

theorem currentEpoch_eq (hin : InEpoch c dh e) : c.currentEpoch dh = some e := by
  rw [Chain.currentEpoch, hin.current, Option.filter_some, if_pos]
  exact decide_eq_true hin.epochId

theorem timeoutShuffle_dead_end (secs : Nat) (hstuck : ¬ ShuffleMovesOn e dh.shuffleStep)
    (hover : ShuffleOverdue c block tid t h dh e) :
    ¬ ∃ c', timeoutShuffle c block tid h.handId secs dh e = .ok c' := by
  rintro ⟨c', hok⟩
  simp only [ShuffleMovesOn, not_or, not_and, not_lt, not_le] at hstuck
  obtain ⟨hsome, hstep, hfew⟩ := hstuck
  simp only [timeoutShuffle, ok_iff] at hok
  obtain ⟨-, -, -, -, hok⟩ := hok
  rw [if_neg (by simpa using hsome)] at hok
  split at hok
  · rename_i hall
    simp only [finalizeDeck, ok_iff] at hok
    obtain ⟨_, -, -, -, _, hdh, -, -, _, hepoch, -, hmany, -⟩ := hok
    cases (dealerHand_eq hover.at_hand).symm.trans hdh
    cases (handEpoch_eq hover.epoch).symm.trans hepoch
    exact hmany (hfew hall)
  · simp only [ok_iff] at hok
    obtain ⟨m, hm, -⟩ := hok
    have hlt := (List.getElem?_eq_some_iff.mp hm).1
    omega

theorem timeoutShuffle_penalises {secs : Nat} {c' : Chain env}
    (hok : timeoutShuffle c block tid h.handId secs dh e = .ok c') :
    PenaltiesAccepted c block e (skippedShuffler e dh) := by
  cases hnext : (epochQualMembers e)[dh.shuffleStep]? with
  | none => exact ⟨_, by rw [skippedShuffler, hnext]; rfl⟩
  | some m =>
    have hlt := (List.getElem?_eq_some_iff.mp hnext).1
    simp only [timeoutShuffle, ok_iff] at hok
    obtain ⟨-, -, -, -, hok⟩ := hok
    rw [if_neg (by omega), if_neg (by omega)] at hok
    simp only [ok_iff, hnext, Option.some.injEq] at hok
    obtain ⟨_, rfl, result, hpenalty, -⟩ := hok
    exact ⟨result, by rw [skippedShuffler, hnext]; exact hpenalty⟩

theorem timeoutShuffle_succeeds (hvalid : ChainValid c) (hsupply : SupplyFits c.poker)
    (hpenalties : PenaltiesAccepted c block e (skippedShuffler e dh)) (hset : DeadlinesSet h dh)
    (hover : ShuffleOverdue c block tid t h dh e) (hmoves : ShuffleMovesOn e dh.shuffleStep) :
    ∃ c', timeoutShuffle c block tid h.handId (tableDealerTimeoutSecs t.params) dh e =
        .ok c' ∧ ShuffleOutcome c c' block tid t h dh e := by
  have hdeadline := hset.shuffle hover.unfinalised
  have hlate := hover.overdue
  rw [timeoutShuffle, rejectIf_bind (by omega), rejectIf_bind (by omega)]
  dsimp only
  split
  · obtain ⟨c', hok, haborted⟩ := abortHand_succeeds hvalid hsupply hover.at_hand
    exact ⟨c', hok, .aborted haborted⟩
  rename_i hsome
  rcases hmoves with hnone | hnext | ⟨hall, hmany⟩
  · exact absurd (by rw [hnone]; rfl) hsome
  · rw [if_neg (by omega)]
    obtain ⟨m, hm⟩ : ∃ m, (epochQualMembers e)[dh.shuffleStep]? = some m :=
      ⟨_, List.getElem?_eq_getElem hnext⟩
    obtain ⟨⟨c₁, e₁⟩, hpenalty⟩ := hpenalties
    rw [skippedShuffler, hm] at hpenalty
    rw [require_eq_ok.mpr hm, ok_bind]
    change penaliseAll c block e [m.validator] = .ok (c₁, e₁) at hpenalty
    rw [hpenalty, ok_bind]
    exact shuffle_after_penalty hvalid hsupply hover.at_hand hover.phase
      hover.unfinalised hover.epoch hm hpenalty
  · rw [if_pos hall]
    obtain ⟨c', dh', hok, hfinal⟩ := finalizeDeck_succeeds block hvalid hover.at_hand
      hover.phase hover.unfinalised hover.epoch hmany hall
    exact ⟨c', hok, .finalised hfinal⟩

theorem timeoutShuffle_iff (hvalid : ChainValid c) (hsupply : SupplyFits c.poker)
    (hset : DeadlinesSet h dh) (hover : ShuffleOverdue c block tid t h dh e) :
    (∃ c', timeoutShuffle c block tid h.handId (tableDealerTimeoutSecs t.params) dh e =
        .ok c' ∧ ShuffleOutcome c c' block tid t h dh e) ↔
      ShuffleMovesOn e dh.shuffleStep ∧ PenaltiesAccepted c block e (skippedShuffler e dh) := by
  constructor
  · rintro ⟨c', hok, -⟩
    refine ⟨?_, timeoutShuffle_penalises hok⟩
    by_contra hstuck
    exact timeoutShuffle_dead_end _ hstuck hover ⟨c', hok⟩
  · rintro ⟨hmoves, hpenalties⟩
    exact timeoutShuffle_succeeds hvalid hsupply hpenalties hset hover hmoves

theorem PenaltiesSucceed.skipped (hpenalties : PenaltiesSucceed c block e) (dh : DealerHand) :
    PenaltiesAccepted c block e (skippedShuffler e dh) := by
  refine hpenalties _ fun v hv => ?_
  obtain ⟨m, hm, rfl⟩ := List.mem_map.mp hv
  exact List.mem_map_of_mem
    (List.mem_of_mem_filter (List.mem_of_getElem? (Option.mem_toList.mp hm)))

theorem timeout_stage {caller : String} (hvalid : ChainValid c) (hat : AtHand c tid t h dh)
    (hin : InEpoch c dh e) (hcaller : requireCaller env caller = .ok ()) :
    handle c (.hand block (.timeout ⟨caller, tid, h.handId⟩)) =
      if h.phase = .shuffle ∧ dh.finalized = false then
        timeoutShuffle c block tid h.handId (tableDealerTimeoutSecs t.params) dh e
      else if h.phase = .shuffle then
        timeoutHoleShares c block tid h.handId t h dh e
      else timeoutReveal c block tid h.handId h dh e := by
  have htable := hvalid.numbered.table tid t hat.table
  have hhand := (hat.standing hvalid).numbered
  have hthreshold := (hvalid.sound.epoch e hin.current).threshold
  change msgTimeout c block ⟨caller, tid, h.handId⟩ = _
  rw [msgTimeout, hcaller, ok_bind, requireIds, rejectIf_bind (by tauto),
    timeoutHand, activeHand_eq hat, ok_bind]
  dsimp only
  rw [dealerHand_eq hat, ok_bind, currentEpoch_eq hin]
  dsimp only
  rw [rejectIf_bind (tableDealerTimeoutSecs_ne_zero _), rejectIf_bind (by omega)]

end Outcomes

/-- A hand that waits for a shuffle past the deadline is moved on by `Timeout`
exactly when the count of its shuffles has not overtaken the members left. -/
theorem timeout_shuffle_iff (env : Env) (balances : env.poker.bank.Balances)
    (staking : env.staking.Staking) (params : Params) (messages : List (Msg env))
    (block : Block) (caller : String) {c : Chain env} {tid : Nat} {t : Table}
    {h : Hand} {dh : DealerHand} {e : DealerEpoch}
    (hc : run handle (Chain.genesis env balances staking params) messages = c)
    (hsupply : SupplyFits c.poker) (hpenalties : PenaltiesSucceed c block e)
    (hcaller : requireCaller env caller = .ok ())
    (hover : ShuffleOverdue c block tid t h dh e) :
    (∃ c', handle c (.hand block (.timeout ⟨caller, tid, h.handId⟩)) = .ok c' ∧
        ShuffleOutcome c c' block tid t h dh e) ↔
      ShuffleMovesOn e dh.shuffleStep := by
  have hreach : Reachable c := hc ▸ reachable_run balances staking params messages
  have hvalid := reachable_valid hreach
  have hset := deadlinesSet_invariant.reachable hreach hover.at_hand
  rw [timeout_stage hvalid hover.at_hand hover.epoch hcaller,
    if_pos ⟨hover.phase, hover.unfinalised⟩, timeoutShuffle_iff hvalid hsupply hset hover]
  exact and_iff_left (hpenalties.skipped dh)

/-- Two tables of one committee.  `A` shuffles the first one; `A` and `B` miss
their turns on the second. -/
def deadEndRun : List (Msg residueEnv) :=
  committeeRun ++ dealRun 1 2 ++ dealRun 2 2 ++
    [shuffleMsgAt 100 1 1 "A" 2, handMsgAt 150 (.timeout ⟨"gm", 2, 1⟩),
      handMsgAt 280 (.timeout ⟨"gm", 2, 1⟩)]

/-- The first table's deck waits for a second member of two that are needed, and
its timeout is an error. -/
theorem deadEndRun_stuck :
    (∃ t ∈ (run handle residueGenesis deadEndRun).poker.getTable 1,
      ∃ h ∈ t.hand, h.phase = .shuffle) ∧
    (∃ dh ∈ (run handle residueGenesis deadEndRun).dealer.getHand 1 1,
      dh.finalized = false ∧ dh.shuffleDeadline ≤ (blockAt 300).unix ∧
      ∃ e ∈ (run handle residueGenesis deadEndRun).dealer.epoch,
        e.epochId = dh.epochId) ∧
    ¬ (handle (run handle residueGenesis deadEndRun)
      (handMsgAt 300 (.timeout ⟨"gm", 1, 1⟩))).isOk := by
  decide +kernel

theorem lenientStaking_applyPenalty (staking : lenientStaking.Staking) (valoper : String)
    (distributionHeight power : Int) (slashBps jailSeconds : Nat) (blockUnix : Int) :
    applyPenalty lenientStaking staking valoper distributionHeight power slashBps
      jailSeconds blockUnix = .ok staking := by
  have hslash : slashFraction lenientStaking staking valoper slashBps power
      distributionHeight = .ok staking := by
    unfold slashFraction
    split <;> rfl
  have hjail : extendJail lenientStaking staking valoper blockUnix jailSeconds = .ok staking := by
    unfold extendJail
    split
    · rfl
    · rw [show lenientStaking.jailedUntil staking valoper = .ok 0 from rfl, ok_bind]
      split <;> rfl
  change Except.mapError plain (slashFraction lenientStaking staking valoper slashBps
    power distributionHeight >>= fun _ => extendJail lenientStaking staking valoper
      blockUnix jailSeconds) = _
  rw [hslash, ok_bind, hjail]
  rfl

theorem residueEnv_requireCaller : requireCaller residueEnv "gm" = .ok () := by
  decide +kernel

theorem residueEnv_penaltiesSucceed (c : Chain residueEnv) (block : Block)
    (e : DealerEpoch) : PenaltiesSucceed c block e := by
  intro validators _
  have hstep : ∀ v ∈ validators, ∀ current, True →
      ∃ next, epochPenalise c block current v = .ok next ∧ True := by
    intro v _ ⟨staking, epoch⟩ _
    unfold epochPenalise
    dsimp only
    split
    · exact ⟨_, rfl, trivial⟩
    · erw [lenientStaking_applyPenalty]
      exact ⟨_, rfl, trivial⟩
  obtain ⟨⟨last, epoch⟩, hloop, -⟩ := foldlM_succeeds (fun _ => True) hstep
    (s := (c.dealer.staking, e)) trivial
  refine ⟨({ c with
    dealer := { c.dealer with staking := last, epoch := some epoch } }, epoch), ?_⟩
  rw [penaliseAll, hloop]
  rfl

def overdueRun : List (Msg residueEnv) := committeeRun ++ dealRun 1 2

theorem overdueRun_moves_on :
    ∃ t h dh e c', ShuffleOutcome (run handle residueGenesis overdueRun) c'
        (blockAt 150) 1 t h dh e ∧
      handle (run handle residueGenesis overdueRun)
        (.hand (blockAt 150) (.timeout ⟨"gm", 1, h.handId⟩)) = .ok c' := by
  have hsupply : SupplyFits (run handle residueGenesis overdueRun).poker := by
    unfold SupplyFits
    decide +kernel
  have hfacts :
      ∃ t ∈ (run handle residueGenesis overdueRun).poker.getTable 1,
      ∃ h ∈ t.hand, h.handId = 1 ∧ h.phase = .shuffle ∧
      ∃ dh ∈ (run handle residueGenesis overdueRun).dealer.getHand 1 1,
        dh.finalized = false ∧ dh.shuffleDeadline ≤ (blockAt 150).unix ∧
      ∃ e ∈ (run handle residueGenesis overdueRun).dealer.epoch,
        e.epochId = dh.epochId ∧ ShuffleMovesOn e dh.shuffleStep := by
    decide +kernel
  obtain ⟨t, ht, h, hh, hid, hphase, dh, hdh, hopen, hlate, e, he,
    hepoch, hmoves⟩ := hfacts
  replace hdh : (run handle residueGenesis overdueRun).dealer.getHand 1 h.handId =
      some dh := by
    rw [hid]
    exact hdh
  have hover : ShuffleOverdue (run handle residueGenesis overdueRun) (blockAt 150) 1
      t h dh e := ⟨⟨ht, hh, hdh⟩, hphase, hopen, ⟨he, hepoch⟩, hlate⟩
  obtain ⟨c', hok, houtcome⟩ := (timeout_shuffle_iff residueEnv (0 : Nat) ()
    residueParams overdueRun (blockAt 150) "gm" rfl hsupply
    (residueEnv_penaltiesSucceed _ _ _) residueEnv_requireCaller hover).mpr hmoves
  exact ⟨t, h, dh, e, c', houtcome, hok⟩

end OnChainPoker.Dealer
