import OnChainPoker.Dealer.DaemonCommit
import OnChainPoker.Dealer.DeckIntegrity
import OnChainPoker.Dealer.HoleShares
import OnChainPoker.Dealer.ShuffleReplay

/-!
# Whose turn it is to shuffle

The chain counts the turns of a deck over the members that are not slashed, the daemon
over all members.  The two agree until one of the members counted so far is slashed.
-/

namespace OnChainPoker.Dealer

open Foundation Crypto
open Poker (Block Table Hand)

theorem getElem?_filter_eq_iff {α : Type*} {p : α → Bool} {l : List α} (hnodup : l.Nodup)
    {k : Nat} (hk : k < (l.filter p).length) :
    (l.filter p)[k]? = l[k]? ↔ ∀ a ∈ l.take (k + 1), p a = true := by
  induction l generalizing k with
  | nil => cases hk
  | cons a l ih =>
    by_cases ha : p a = true
    · rw [List.filter_cons_of_pos ha] at hk ⊢
      cases k with
      | zero => simp [ha]
      | succ k => simpa [ha] using ih hnodup.of_cons (by simpa using hk)
    · rw [List.filter_cons_of_neg ha] at hk ⊢
      -- Entry `k` of the filtered tail stands behind entry `k` of the list.
      obtain ⟨f, hf⟩ := List.sublist_iff_exists_orderEmbedding_getElem?_eq.mp
        (List.filter_sublist (p := p) (l := l))
      have hbehind : k ≤ f k := f.strictMono.le_apply
      refine ⟨fun heq => ?_, fun hall => absurd (hall a (by simp)) ha⟩
      rw [hf k, ← List.getElem?_cons_succ (a := a)] at heq
      have hlt : k < (a :: l).length := by
        have hle := l.length_filter_le p
        rw [List.length_cons]
        omega
      have hsame := (List.getElem?_inj hlt hnodup).mp heq.symm
      omega

section Handler

variable {S : Suite} (rng : S.ScalarRng) (limit : Nat) (st : rng.State) (validatorAddress : String)
  (shuffleRounds tableId handId : Nat) (epochMembers : List DealerMember) (dh : DealerHand)

/-- The handler with the rows it has fetched and the stream of its prover. -/
def handleShuffle : Except String (Option MsgSubmitShuffle) :=
  match epochMembers[dh.shuffleStep]? with
  | none => pure none
  | some expected =>
    if expected.validator = "" ∨ sameAddress expected.validator validatorAddress = false
    then pure none
    else do
      let round := dh.shuffleStep + 1
      let pkHand ← S.pointFromBytesCanonical dh.pkHand
      let deck ← dh.deck.mapM (decodeDeckCiphertext S)
      let context ← Ts.buildShuffleContext tableId handId round validatorAddress
      rejectIf (shuffleRounds = 0) "shuffleProveV1: rounds must be > 0"
      rejectIf (shuffleRounds > 0xffff) "u16ToBytesLE: out of range"
      let result ← Suite.shuffleProve rng limit pkHand deck shuffleRounds (some context) st
      pure (some ⟨validatorAddress, tableId, handId, round, result.proofBytes⟩)

variable {rng limit st validatorAddress shuffleRounds tableId handId epochMembers dh}

theorem handleShuffle_none_iff {expected : DealerMember}
    (hturn : epochMembers[dh.shuffleStep]? = some expected) (hnamed : expected.validator ≠ "") :
    handleShuffle rng limit st validatorAddress shuffleRounds tableId handId epochMembers
      dh = .ok none ↔ sameAddress expected.validator validatorAddress = false := by
  simp only [handleShuffle, hturn, hnamed, false_or]
  split
  · rename_i hother
    exact iff_of_true rfl hother
  · rename_i hmine
    simp [bind_ok_iff, hmine]

/-- The context of a shuffle fits into its proof. -/
def ContextFits (tableId handId shuffleStep : Nat) (shuffler : String) : Prop :=
  tableId < 2 ^ 64 ∧ handId < 2 ^ 64 ∧ shuffleStep + 1 < 2 ^ 16 ∧
    (stringBytes shuffler).length + 20 ≤ 0xffff

instance (tableId handId shuffleStep : Nat) (shuffler : String) :
    Decidable (ContextFits tableId handId shuffleStep shuffler) :=
  inferInstanceAs (Decidable (_ ∧ _))

theorem ContextFits.build (hfits : ContextFits tableId handId dh.shuffleStep validatorAddress) :
    ∃ context, Ts.buildShuffleContext tableId handId (dh.shuffleStep + 1 : Nat) validatorAddress =
      .ok context ∧ context ≠ [] ∧ context.length ≤ 65535 := by
  obtain ⟨htable, hhand, hround, hname⟩ := hfits
  let place : ShufflePlace := ⟨tableId, handId, dh.shuffleStep + 1, validatorAddress,
    htable, hhand, hround, by omega⟩
  refine ⟨_, place.build_ts.trans place.build_eq, ?_, ?_⟩
  · simp [place, u64le, leBytes]
  · simp only [List.length_append, u64le, u16le, leBytes_length, place]
    omega

/-- At its turn the daemon sends a shuffle exactly if the number of rounds is in range and
the prover returns. -/
theorem handleShuffle_some_iff {expected : DealerMember} {pkHand : S.Point}
    {deck : List S.ElGamalCiphertext} {context : Bytes}
    (hturn : epochMembers[dh.shuffleStep]? = some expected) (hnamed : expected.validator ≠ "")
    (hmine : sameAddress expected.validator validatorAddress = true)
    (hpk : S.pointFromBytesCanonical dh.pkHand = .ok pkHand)
    (hdeck : dh.deck.mapM (decodeDeckCiphertext S) = .ok deck)
    (hcontext : Ts.buildShuffleContext tableId handId (dh.shuffleStep + 1 : Nat)
      validatorAddress = .ok context) :
    (∃ req, handleShuffle rng limit st validatorAddress shuffleRounds tableId handId
        epochMembers dh = .ok (some req)) ↔
      (1 ≤ shuffleRounds ∧ shuffleRounds ≤ 0xffff) ∧ ∃ result,
        Suite.shuffleProve rng limit pkHand deck shuffleRounds (some context) st = .ok result := by
  simp only [handleShuffle, hturn, hnamed, hmine, Bool.true_eq_false, or_self, if_false, hpk,
    ok_bind, hdeck, hcontext, ok_iff, Option.some.injEq]
  constructor
  · rintro ⟨req, -, hrounds, -, hmost, result, hprove, -⟩
    exact ⟨⟨by omega, by omega⟩, result, hprove⟩
  · rintro ⟨⟨hrounds, hmost⟩, result, hprove⟩
    exact ⟨_, (), by omega, (), by omega, result, hprove, rfl⟩

theorem handleShuffle_sends (hdeck : dh.deck.length ≤ 52) {req : MsgSubmitShuffle}
    (hok : handleShuffle rng limit st validatorAddress shuffleRounds tableId handId
      epochMembers dh = .ok (some req)) :
    (req.shuffler = validatorAddress ∧ req.tableId = tableId ∧ req.handId = handId ∧
      req.round = dh.shuffleStep + 1) ∧ req.proofShuffle ≠ [] ∧ ∃ context deckOut,
      Suite.buildShuffleContext tableId handId (dh.shuffleStep + 1) validatorAddress = .ok context ∧
      verifyShuffle S dh.pkHand dh.deck req.proofShuffle context = .ok deckOut := by
  unfold handleShuffle at hok
  split at hok
  · cases hok
  · split at hok
    · cases hok
    · simp only [ok_iff, Option.some.injEq] at hok
      obtain ⟨pkHand, hpk, deck, hdecode, context, hcontext, -, -, -, hrounds, result,
        hprove, rfl⟩ := hok
      have hbounds := hcontext
      simp only [Ts.buildShuffleContext, ok_iff] at hbounds
      obtain ⟨-, htable, -, hhand, -, hround, -, hname, -⟩ := hbounds
      let place : ShufflePlace := ⟨tableId, handId, dh.shuffleStep + 1, validatorAddress,
        by omega, by omega, by omega, by omega⟩
      have hlength := (mapM_eq_ok_iff.mp hdecode).length_eq
      have hverify := Suite.shuffleProve_verifies (by omega) (by omega) hprove
      have hhead := (shuffleVerifyV1_context hverify).1
      refine ⟨⟨rfl, rfl, rfl, rfl⟩, fun hnil => ?_, context,
        result.deckOut.map (encodeCiphertext S), place.build_ts.symm.trans hcontext, ?_⟩
      · rw [show result.proofBytes = [] from hnil] at hhead
        cases hhead
      · simp [verifyShuffle, hpk, hdecode, hverify, Except.mapError]

end Handler

section Turn

variable {env : Env} {c : Chain env} {block : Block} {tid : Nat} {t : Table} {h : Hand}
  {dh : DealerHand} {e : DealerEpoch} {m : DealerMember}

structure ShuffleOpen (c : Chain env) (block : Block) (tid : Nat) (t : Table) (h : Hand)
    (dh : DealerHand) (e : DealerEpoch) : Prop where
  at_hand : AtHand c tid t h dh
  phase : h.phase = .shuffle
  unfinalised : dh.finalized = false
  early : block.unix < dh.shuffleDeadline
  epoch : c.dealer.epoch = some e

theorem findEpochMember_self (hcommittee : CommitteeValid e.members) (hm : m ∈ e.members) :
    ∃ mem, findEpochMember e m.validator = some mem := by
  rw [findEpochMember, findMember, if_neg (hcommittee.named m hm), ← Option.isSome_iff_exists,
    List.find?_isSome]
  exact ⟨m, hm, decide_eq_true rfl⟩

theorem submitShuffle_isOk_iff (hvalid : ChainValid c)
    (hopen : ShuffleOpen c block tid t h dh e) (hm : m ∈ e.members) {account : env.staking.ValAddr}
    (haccount : env.staking.valAddressFromBech32 m.validator = .ok account)
    {proofShuffle context : Bytes} {deckOut : List DealerCiphertext} (hproof : proofShuffle ≠ [])
    (hcontext : Suite.buildShuffleContext tid h.handId (dh.shuffleStep + 1) m.validator =
      .ok context)
    (hverify : verifyShuffle env.suite dh.pkHand dh.deck proofShuffle context = .ok deckOut) :
    (submitShuffle c block ⟨m.validator, tid, h.handId, dh.shuffleStep + 1,
        proofShuffle⟩).isOk = true ↔
      e.epochId = dh.epochId ∧ (epochQualMembers e)[dh.shuffleStep]? = some m := by
  obtain ⟨hat, hphase, hunfinalised, hearly, hepoch⟩ := hopen
  have hsound := hvalid.sound.epoch e hepoch
  rw [isOk_iff]
  constructor
  · rintro ⟨c', hok⟩
    obtain ⟨t', h', dh', e', shuffler, _, _, _, hat', hid, -, -, hin, hturn, hname, -⟩ :=
      submitShuffle_spec hok
    cases hat.table.symm.trans hat'.table
    cases hat.hand.symm.trans hat'.hand
    cases hat.dealerHand.symm.trans hat'.dealerHand
    cases hepoch.symm.trans hin.current
    have hmem := ((mem_epochQualMembers hsound.slashed).mp (List.mem_of_getElem? hturn)).1
    rw [List.inj_on_of_nodup_map hsound.committee.validators hm hmem hname]
    exact ⟨hin.epochId, hturn⟩
  · rintro ⟨hcurrent, hturn⟩
    have hfree := ((mem_epochQualMembers hsound.slashed).mp (List.mem_of_getElem? hturn)).2
    have htable := hvalid.numbered.table tid t hat.table
    have hhand := (hat.standing hvalid).numbered
    obtain ⟨mem, hfind⟩ := findEpochMember_self hsound.committee hm
    have hmember : activeMember e m.validator "shuffler" = .ok mem := by
      rw [← hsound.slashed.isSlashed_iff] at hfree
      simp [activeMember, hfind, hfree]
    have haddress : requireValAddress env m.validator "shuffler" = .ok () := by
      simp [requireValAddress, haccount]
    simp [submitShuffle, hsound.committee.named m hm, haddress, requireIds, htable, hhand,
      hproof, activeHand_eq hat, hphase, dealerHand_eq hat, not_le.mpr hearly, hunfinalised,
      handEpoch_eq ⟨hepoch, hcurrent⟩, hmember, hturn, hcontext, hverify, Except.mapError,
      deadline_succeeds (hvalid.tables tid t hat.table).params block]

end Turn

/-! ## What the daemon reads decodes -/

def DeckDecodes (S : Suite) (dh : DealerHand) : Prop :=
  ∃ pkHand deck, S.pointFromBytesCanonical dh.pkHand = .ok pkHand ∧
    dh.deck.mapM (decodeDeckCiphertext S) = .ok deck

theorem deckDecodes_invariant {env : Env} : PairInvariant
    (fun (_ : Chain env) (_ : Msg env) => True) (fun _ _ _ _ dh => DeckDecodes env.suite dh) where
  opened := by
    intro c tid t t' h h' dh epoch _ hopened
    obtain ⟨k, pkEpoch, -, -, hpk, hdeck⟩ := hopened.initial.key
    obtain ⟨cts, hcts, -⟩ := initialDeck_encrypts hdeck
    refine ⟨k • pkEpoch, cts, ?_, ?_⟩
    · rw [hpk]
      exact env.suite.pointFromBytesCanonical_pointBytes _
    · rw [hcts]
      exact decode_encode_deck cts
  step := by
    intro c₀ c msg tid t t' h h' dh dh' _ _ _ _ hdecodes hstep
    cases hstep with
    | shuffle _ _ _ _ _ _ _ _ hverify _ =>
      obtain ⟨pkHand, _, hpk, -⟩ := hdecodes
      simp only [verifyShuffle, ok_iff] at hverify
      obtain ⟨_, _, _, _, out, -, rfl⟩ := hverify
      exact ⟨pkHand, out, hpk, decode_encode_deck out⟩
    | _ => exact hdecodes
  later := fun _ _ _ hdecodes => hdecodes

/-- After every run and before the deadline of an unfinalised deck, the daemon of exactly
one member takes the turn.  It sends a shuffle exactly if its number of rounds is in range
and its prover returns, which it does on some stream.  The chain accepts what is sent
exactly if the hand is of the current epoch and no member has been slashed among those
that have shuffled and the next one. -/
theorem daemon_shuffle_accepted_iff (env : Env) (balances : env.poker.bank.Balances)
    (staking : env.staking.Staking) (params : Params) (messages : List (Msg env))
    (block : Block) {c : Chain env} {tid : Nat} {t : Table} {h : Hand} {dh : DealerHand}
    {e : DealerEpoch}
    (hc : run handle (Chain.genesis env balances staking params) messages = c)
    (hopen : ShuffleOpen c block tid t h dh e)
    (hstep : dh.shuffleStep < (epochQualMembers e).length)
    (hnames : ∀ m ∈ e.members, ∀ m' ∈ e.members,
      sameAddress m.validator m'.validator = true → m' = m)
    (haccounts : ∀ m ∈ e.members,
      ∃ account, env.staking.valAddressFromBech32 m.validator = .ok account) :
    ∃ m ∈ e.members,
      (∀ (rng : env.suite.ScalarRng) limit st rounds, ∀ m' ∈ e.members,
        handleShuffle rng limit st m'.validator rounds tid h.handId e.members dh ≠ .ok none ↔
          m' = m) ∧
      (ContextFits tid h.handId dh.shuffleStep m.validator → ∃ pkHand deck context,
        env.suite.pointFromBytesCanonical dh.pkHand = .ok pkHand ∧
        dh.deck.mapM (decodeDeckCiphertext env.suite) = .ok deck ∧
        (∀ (rng : env.suite.ScalarRng) limit st rounds,
          (∃ req, handleShuffle rng limit st m.validator rounds tid h.handId e.members dh =
              .ok (some req)) ↔
            (1 ≤ rounds ∧ rounds ≤ 0xffff) ∧ ∃ result,
              Suite.shuffleProve rng limit pkHand deck rounds (some context) st = .ok result) ∧
        (2 < env.suite.order → ∀ rounds, 1 ≤ rounds ∧ rounds ≤ 0xffff →
          ∃ (rng : env.suite.ScalarRng) (limit : Nat) (st : rng.State) (req : MsgSubmitShuffle),
            handleShuffle rng limit st m.validator rounds tid h.handId e.members dh =
              .ok (some req))) ∧
      ∀ (rng : env.suite.ScalarRng) limit st rounds req,
        handleShuffle rng limit st m.validator rounds tid h.handId e.members dh =
          .ok (some req) →
        ((handle c (.hand block (.submitShuffle req))).isOk = true ↔
          e.epochId = dh.epochId ∧
            ∀ m' ∈ e.members.take (dh.shuffleStep + 1), m'.validator ∉ e.slashed) := by
  have hreach : Reachable c := hc ▸ reachable_run balances staking params messages
  have hvalid := reachable_valid hreach
  have hsound := hvalid.sound.epoch e hopen.epoch
  have hlt : dh.shuffleStep < e.members.length :=
    hstep.trans_le (List.length_filter_le _ _)
  have hturn : e.members[dh.shuffleStep]? = some e.members[dh.shuffleStep] :=
    List.getElem?_eq_getElem hlt
  have hm := List.mem_of_getElem? hturn
  have hnamed := hsound.committee.named _ hm
  have hsize := hvalid.linked.deck tid h.handId dh hopen.at_hand.dealerHand
  refine ⟨_, hm, fun rng limit st rounds m' hm' => ?_, fun hfits => ?_,
    fun rng limit st rounds req hreq => ?_⟩
  · rw [ne_eq, handleShuffle_none_iff hturn hnamed, Bool.not_eq_false]
    exact ⟨hnames _ hm m' hm', fun heq => heq ▸ sameAddress_refl _⟩
  · obtain ⟨pkHand, deck, hpk, hdecode⟩ := deckDecodes_invariant.reachable hreach hopen.at_hand
    obtain ⟨context, hcontext, hlength⟩ := hfits.build
    have hcards := (mapM_eq_ok_iff.mp hdecode).length_eq
    refine ⟨pkHand, deck, context, hpk, hdecode, fun rng limit st rounds =>
      handleShuffle_some_iff hturn hnamed (sameAddress_refl _) hpk hdecode hcontext,
      fun horder rounds hrounds => ?_⟩
    obtain ⟨st, result, hprove, -⟩ := Suite.shuffleProve_draws pkHand (some context) horder
      (by omega : 2 ≤ deck.length) (by omega) rounds
      (fun ctx hctx => Option.some.inj hctx ▸ hlength) (List.Perm.refl _)
    refine ⟨_, 1, st, (handleShuffle_some_iff hturn hnamed (sameAddress_refl _) hpk hdecode
      hcontext).mpr ⟨hrounds, result, hprove⟩⟩
  · obtain ⟨⟨hname, htable, hhand, hround⟩, hproof, context, deckOut, hcontext, hverify⟩ :=
      handleShuffle_sends (by omega) hreq
    obtain ⟨account, haccount⟩ := haccounts _ hm
    obtain ⟨shuffler, tableId, handId, round, proofShuffle⟩ := req
    cases hname
    cases htable
    cases hhand
    cases hround
    have hplace := getElem?_filter_eq_iff
      (p := fun m => !isSlashed e.slashed m.validator) hsound.committee.validators.of_map hstep
    rw [hturn] at hplace
    have haccepted := submitShuffle_isOk_iff hvalid hopen hm haccount hproof
      hcontext hverify
    rw [epochQualMembers, qualMembers, hplace] at haccepted
    simp only [Bool.not_eq_true', ← Bool.not_eq_true, hsound.slashed.isSlashed_iff]
      at haccepted
    exact haccepted

def firstTurnRun : List (Msg residueEnv) := committeeRun ++ dealRun 1 2

/-- `A` has shuffled the deck and missed its turn at another table. -/
def secondTurnRun : List (Msg residueEnv) := skippedShufflerRun.dropLast

def shuffleTape : residueSuite.tapeRng.State :=
  ((List.range 20).map fun i => (i + 1 : ZMod 53), [[0, 0, 0, 0]])

def daemonShuffle (messages : List (Msg residueEnv)) (validator : String) :
    Option (Option MsgSubmitShuffle) := do
  let s := (run handle residueGenesis messages).dealer
  let dh ← s.getHand 1 1
  let e ← s.epoch
  (handleShuffle residueSuite.tapeRng 1 shuffleTape validator 1 1 1 e.members dh).toOption

abbrev ShuffleWaits (messages : List (Msg residueEnv)) (block : Block) : Prop :=
  ∃ t ∈ (run handle residueGenesis messages).poker.getTable 1, ∃ h ∈ t.hand,
    ∃ dh ∈ (run handle residueGenesis messages).dealer.getHand 1 h.handId,
    ∃ e ∈ (run handle residueGenesis messages).dealer.epoch,
      (h.phase = .shuffle ∧ dh.finalized = false ∧ block.unix < dh.shuffleDeadline ∧
        e.epochId = dh.epochId ∧ dh.shuffleStep < (epochQualMembers e).length) ∧
      ∀ m ∈ e.members, (residueEnv.staking.valAddressFromBech32 m.validator).isOk = true ∧
        ∀ m' ∈ e.members, sameAddress m.validator m'.validator = true → m' = m

theorem firstTurnRun_agrees :
    (daemonShuffle firstTurnRun "A").join.isSome = true ∧ ∃ t h dh e,
      ShuffleOpen (run handle residueGenesis firstTurnRun) (blockAt 10) 1 t h dh e ∧
      ∃ m ∈ e.members,
        (∃ (rng : residueSuite.ScalarRng) (limit : Nat) (st : rng.State) (req : MsgSubmitShuffle),
          handleShuffle rng limit st m.validator 1 1 h.handId e.members dh = .ok (some req)) ∧
        ∀ (rng : residueSuite.ScalarRng) limit st rounds req,
          handleShuffle rng limit st m.validator rounds 1 h.handId e.members dh =
            .ok (some req) →
          (handle (run handle residueGenesis firstTurnRun)
            (handMsgAt 10 (.submitShuffle req))).isOk = true := by
  obtain ⟨hsends, ⟨t, ht, h, hh, dh, hdh, e, he, ⟨hphase, hunfinalised, hearly, hcurrent,
    hstep⟩, hnames⟩, hslashed, hfits⟩ : (daemonShuffle firstTurnRun "A").join.isSome = true ∧
      ShuffleWaits firstTurnRun (blockAt 10) ∧
      (∀ e ∈ (run handle residueGenesis firstTurnRun).dealer.epoch, e.slashed = []) ∧
      ∀ t ∈ (run handle residueGenesis firstTurnRun).poker.getTable 1, ∀ h ∈ t.hand,
        ∀ dh ∈ (run handle residueGenesis firstTurnRun).dealer.getHand 1 h.handId,
        ∀ e ∈ (run handle residueGenesis firstTurnRun).dealer.epoch, ∀ m ∈ e.members,
          ContextFits 1 h.handId dh.shuffleStep m.validator := by
    decide +kernel
  have hopen : ShuffleOpen (run handle residueGenesis firstTurnRun) (blockAt 10) 1 t h dh e :=
    ⟨⟨ht, hh, hdh⟩, hphase, hunfinalised, hearly, he⟩
  obtain ⟨m, hm, -, hproduced, haccepted⟩ := daemon_shuffle_accepted_iff residueEnv _ _ _
    firstTurnRun (blockAt 10) rfl hopen hstep (fun m hm => (hnames m hm).2)
    (fun m hm => isOk_iff.mp (hnames m hm).1)
  obtain ⟨_, _, _, -, -, -, hsome⟩ := hproduced (hfits t ht h hh dh hdh e he m hm)
  refine ⟨hsends, t, h, dh, e, hopen, m, hm, hsome (by decide) 1 (by decide),
    fun rng limit st rounds req hreq => ?_⟩
  exact (haccepted rng limit st rounds req hreq).mpr ⟨hcurrent, by simp [hslashed e he]⟩

/-- It is the turn of `B` for the daemons and that of `C` for the chain. -/
theorem secondTurnRun_disagrees :
    ShuffleWaits secondTurnRun (blockAt 160) ∧
    (∃ req ∈ (daemonShuffle secondTurnRun "B").join,
      (handle (run handle residueGenesis secondTurnRun)
        (handMsgAt 160 (.submitShuffle req))).isOk = false) ∧
    (∀ v ∈ ["A", "C"], ∃ sent ∈ daemonShuffle secondTurnRun v, sent.isNone) ∧
    (handle (run handle residueGenesis secondTurnRun)
      (shuffleMsgAt 160 1 2 "C" 2)).isOk = true := by
  decide +kernel

end OnChainPoker.Dealer
