import OnChainPoker.Dealer.DkgSteps

/-!
# What a hand message does

An accepted hand message first slashes members of the epoch (`Penalised`, often
nobody) and then does one thing to one hand (`HandAct`).  Each constructor keeps
what the handler checked, so nothing later unfolds a handler.
-/

namespace OnChainPoker.Dealer

open Foundation Crypto
open Poker (Block Table Hand unsetPos addInt64AndU64Checked
  tableDealerTimeoutSecs initDealerMeta finalizeDealerMeta)

variable {env : Env} {c : Chain env} {block : Block} {epoch : DealerEpoch} {t : Table}
  {handID tableID : Nat} {h : Hand} {dh : DealerHand} {msg : HandMsg}

/-! ## Penalties -/

structure SlashGrows (epoch epoch' : DealerEpoch) : Prop where
  same : epoch' = { epoch with slashed := epoch'.slashed }
  valid : SlashedValid epoch.slashed → SlashedValid epoch'.slashed
  grows : SlashedValid epoch.slashed → ∀ v ∈ epoch.slashed, v ∈ epoch'.slashed

theorem SlashGrows.refl (epoch : DealerEpoch) : SlashGrows epoch epoch := ⟨rfl, id, fun _ _ => id⟩

theorem SlashGrows.trans {e₁ e₂ e₃ : DealerEpoch} (h : SlashGrows e₁ e₂)
    (h' : SlashGrows e₂ e₃) : SlashGrows e₁ e₃ := by
  refine ⟨?_, h'.valid ∘ h.valid, fun hvalid v hv => ?_⟩
  · rw [h'.same, h.same]
  · exact h'.grows (h.valid hvalid) v (h.grows hvalid v hv)

inductive Penalised (c : Chain env) : Chain env → Prop
  | none : Penalised c c
  | some {epoch epoch' : DealerEpoch} {staking : env.staking.Staking} :
      c.dealer.epoch = some epoch → SlashGrows epoch epoch' →
      Penalised c { c with
        dealer := { c.dealer with staking := staking, epoch := some epoch' } }

theorem epochPenalise_grows {v : String} {current next : env.staking.Staking × DealerEpoch}
    (hok : epochPenalise c block current v = .ok next) :
    SlashGrows current.2 next.2 ∧ next.2.slashed = (slash current.2.slashed v).1 := by
  obtain ⟨staking, epoch⟩ := current
  have hnext : next.2 = { epoch with slashed := (slash epoch.slashed v).1 } := by
    simp only [epochPenalise] at hok
    split at hok
    · rename_i slashed hflag
      rw [pure_ok_iff] at hok
      subst hok
      rw [hflag, slash_flag hflag]
    · rename_i slashed hflag
      simp only [ok_iff] at hok
      obtain ⟨_, -, rfl⟩ := hok
      rw [hflag]
  refine ⟨⟨by rw [hnext], ?_, ?_⟩, by rw [hnext]⟩
  · intro hvalid
    rw [hnext]
    exact hvalid.slash v
  · intro hvalid w hw
    rw [hnext]
    by_cases hv : v = ""
    · simpa [slash, hv] using hw
    · exact (hvalid.mem_slash hv).mpr (.inr hw)

theorem penaliseAll_penalised {c c' : Chain env} {epoch epoch' : DealerEpoch}
    {validators : List String} (hepoch : c.dealer.epoch = some epoch)
    (hok : penaliseAll c block epoch validators = .ok (c', epoch')) :
    Penalised c c' ∧ c'.dealer.epoch = some epoch' ∧ SlashGrows epoch epoch' := by
  simp only [penaliseAll, ok_iff, Prod.mk.injEq] at hok
  obtain ⟨⟨staking, last⟩, hloop, rfl, rfl⟩ := hok
  have hgrows : SlashGrows epoch last :=
    foldlM_invariant (fun current => SlashGrows epoch current.2)
      (fun v _ current next hinv hstep =>
        hinv.trans (epochPenalise_grows hstep).1) (SlashGrows.refl epoch) hloop
  exact ⟨.some hepoch hgrows, rfl, hgrows⟩

inductive PenaltyPass (c : Chain env) (block : Block) : Chain env → Prop
  | none : PenaltyPass c block c
  | some {c₁ : Chain env} {epoch epoch' : DealerEpoch} {validators : List String} :
      c.dealer.epoch = some epoch →
      penaliseAll c block epoch validators = .ok (c₁, epoch') →
      PenaltyPass c block c₁

theorem PenaltyPass.penalised {c c₁ : Chain env} (hpass : PenaltyPass c block c₁) :
    Penalised c c₁ := by
  cases hpass with
  | none => exact .none
  | some hepoch hpenalty => exact (penaliseAll_penalised hepoch hpenalty).1

/-! ## Acts -/

structure AtHand (c : Chain env) (tableID : Nat) (t : Table) (h : Hand)
    (dh : DealerHand) : Prop where
  table : c.poker.getTable tableID = some t
  hand : t.hand = some h
  dealerHand : c.dealer.getHand tableID h.handId = some dh

structure InitialHand (S : Suite) (epoch : DealerEpoch) (tableID handID : Nat)
    (dh : DealerHand) : Prop where
  epochId : dh.epochId = epoch.epochId
  key : ∃ k pkEpoch,
    deriveHandScalar S epoch.epochId tableID handID dh.initHeight
      dh.initHashSalt = .ok k ∧
    S.pointFromBytesCanonical epoch.pkEpoch = .ok pkEpoch ∧
    dh.pkHand = S.pointBytes (k • pkEpoch) ∧
    (List.range dh.deckSize).mapM (initialCard S k (k • pkEpoch)) = .ok dh.deck
  deckSize : 2 ≤ dh.deckSize ∧ dh.deckSize ≤ 52
  shuffleStep : dh.shuffleStep = 0
  finalized : dh.finalized = false
  pubShares : dh.pubShares = []
  encShares : dh.encShares = []
  reveals : dh.reveals = []

def DeadlineFrom (block : Block) (t : Table) (deadline : Int) : Prop :=
  deadline = block.unix + tableDealerTimeoutSecs t.params

structure InEpoch (c : Chain env) (dh : DealerHand) (epoch : DealerEpoch) :
    Prop where
  current : c.dealer.epoch = some epoch
  epochId : epoch.epochId = dh.epochId

def EncShareVerified (S : Suite) (tableID handID : Nat) (dh : DealerHand)
    (mem : DealerMember) (es : DealerEncShare) : Prop :=
  ∃ card yHand c1 pkPlayer u v proof, dh.deck[es.pos]? = some card ∧
    handShareKey S dh tableID handID mem = .ok yHand ∧
    S.pointFromBytesCanonical card.c1 = .ok c1 ∧
    S.pointFromBytesCanonical es.pkPlayer = .ok pkPlayer ∧
    S.pointFromBytesCanonical (es.encShare.take 32) = .ok u ∧
    S.pointFromBytesCanonical (es.encShare.drop 32) = .ok v ∧
    S.decodeEncShareProof es.proof = .ok proof ∧
    Suite.encShareVerify yHand c1 pkPlayer u v proof = .ok true

structure EncShareChecked (c : Chain env) (tableID : Nat) (t : Table) (h : Hand)
    (dh : DealerHand) (epoch : DealerEpoch) (es : DealerEncShare) : Prop where
  atHand : AtHand c tableID t h dh
  phase : h.phase = .shuffle
  deckFinalized : h.dealer.deckFinalized = true
  finalized : dh.finalized = true
  inEpoch : InEpoch c dh epoch
  unslashed : isSlashed epoch.slashed es.validator = false
  member : ∃ mem, findEpochMember epoch es.validator = some mem ∧
    es.index = mem.index ∧
    EncShareVerified env.suite t.id h.handId dh mem es
  seat : ∃ seat, isHolePos h es.pos = some seat ∧ (t.seats seat).pk = es.pkPlayer
  fresh : ∀ other ∈ dh.encShares, other.pos = es.pos → other.validator ≠ es.validator

def AddsEncShare (c : Chain env) (tableID : Nat) (t : Table) (h : Hand)
    (dh : DealerHand) (epoch : DealerEpoch) (shares : List DealerEncShare) : Prop :=
  shares = dh.encShares ∨
    ∃ es, EncShareChecked c tableID t h dh epoch es ∧
      shares = sortEncShares (dh.encShares ++ [es])

inductive HandAct (c : Chain env) (block : Block) :
    HandMsg → Nat → Chain env → Prop
  | init {msg : HandMsg} {tableID : Nat} {t : Table} {h : Hand}
      {epoch : DealerEpoch} {dh : DealerHand} {deckSize : Nat} :
      c.poker.getTable tableID = some t → t.hand = some h → h.phase = .shuffle →
      c.dealer.getHand tableID h.handId = none → c.dealer.epoch = some epoch →
      InitialHand env.suite epoch t.id h.handId dh →
      DeadlineFrom block t dh.shuffleDeadline → dh.deckSize = deckSize →
      HandAct c block msg tableID ((c.setTable { t with
        hand := some { h with
          dealer := initDealerMeta epoch.epochId deckSize } }).setHand
        tableID h.handId dh)
  | shuffle {req : MsgSubmitShuffle} {t : Table} {h : Hand} {dh : DealerHand}
      {epoch : DealerEpoch} {shuffler : DealerMember} {context : Bytes}
      {deck : List DealerCiphertext} {deadline : Int} :
      AtHand c req.tableId t h dh → h.handId = req.handId → h.phase = .shuffle →
      dh.finalized = false → InEpoch c dh epoch →
      (epochQualMembers epoch)[dh.shuffleStep]? = some shuffler →
      req.shuffler = shuffler.validator →
      Suite.buildShuffleContext req.tableId req.handId req.round req.shuffler =
        .ok context →
      verifyShuffle env.suite dh.pkHand dh.deck req.proofShuffle context = .ok deck →
      DeadlineFrom block t deadline →
      HandAct c block (.submitShuffle req) req.tableId
        (c.setHand req.tableId h.handId { dh with
          deck := deck
          shuffleStep := dh.shuffleStep + 1
          shuffleDeadline := deadline })
  | finalizeDeck {msg : HandMsg} {tableID : Nat} {t : Table} {h : Hand}
      {dh : DealerHand} {epoch : DealerEpoch} {deadline : Int} :
      AtHand c tableID t h dh → h.phase = .shuffle → dh.finalized = false →
      InEpoch c dh epoch →
      epoch.threshold ≤ (epochQualMembers epoch).length →
      dh.shuffleStep = (epochQualMembers epoch).length →
      DeadlineFrom block t deadline →
      HandAct c block msg tableID ((c.setTable { t with
        hand := some { h with
          dealer := finalizeDealerMeta h dh.deck.length } }).setHand
        tableID h.handId { dh with
          finalized := true
          shuffleDeadline := 0
          holeSharesDeadline := deadline })
  | encShare {msg : HandMsg} {tableID : Nat} {t : Table} {h : Hand}
      {dh : DealerHand} {epoch : DealerEpoch} {es : DealerEncShare} :
      EncShareChecked c tableID t h dh epoch es →
      HandAct c block msg tableID (c.setHand tableID h.handId { dh with
        encShares := sortEncShares (dh.encShares ++ [es]) })
  | advance {msg : HandMsg} {tableID : Nat} {t : Table} {h : Hand}
      {dh : DealerHand} {epoch : DealerEpoch} {shares : List DealerEncShare}
      {poker : Poker.State env.poker} :
      AtHand c tableID t h dh → AddsEncShare c tableID t h dh epoch shares →
      Poker.advanceAfterHoleSharesReady c.poker tableID h.handId block.unix =
        .ok poker →
      HandAct c block msg tableID { c.setHand tableID h.handId { dh with
        encShares := shares
        holeSharesDeadline := 0 } with poker := poker }
  | pubShare {req : MsgSubmitPubShare} {t : Table} {h : Hand} {dh : DealerHand}
      {epoch : DealerEpoch} {mem : DealerMember} {card : DealerCiphertext}
      {yHand c1 share : env.suite.Point} {proof : env.suite.ChaumPedersenProof} :
      AtHand c req.tableId t h dh → h.handId = req.handId →
      h.dealer.revealPos ≠ unsetPos → req.pos = h.dealer.revealPos →
      dh.deck[req.pos]? = some card → InEpoch c dh epoch →
      findEpochMember epoch mem.validator = some mem →
      req.validator = mem.validator →
      (∀ ps ∈ dh.pubShares, ps.pos = req.pos → ps.validator ≠ mem.validator) →
      handShareKey env.suite dh t.id h.handId mem = .ok yHand →
      env.suite.pointFromBytesCanonical card.c1 = .ok c1 →
      env.suite.pointFromBytesCanonical req.pubShare = .ok share →
      Suite.chaumPedersenVerify yHand c1 share proof = .ok true →
      HandAct c block (.submitPubShare req) req.tableId
        (c.setHand req.tableId h.handId { dh with
          pubShares := sortPubShares (dh.pubShares ++
            [⟨req.pos, mem.validator, mem.index, req.pubShare, req.proofShare⟩]) })
  | reveal {msg : HandMsg} {tableID : Nat} {t : Table} {h : Hand}
      {dh : DealerHand} {epoch : DealerEpoch} {pos cardID : Nat}
      {poker : Poker.State env.poker} :
      AtHand c tableID t h dh → h.dealer.revealPos ≠ unsetPos →
      pos = h.dealer.revealPos → InEpoch c dh epoch →
      revealCard env.suite dh epoch.threshold pos = .ok cardID →
      Poker.applyDealerReveal c.poker tableID h.handId pos cardID block.unix =
        .ok poker →
      HandAct c block msg tableID (Chain.cleanUp
        { c.setHand tableID h.handId { dh with
            reveals := sortSlice (fun a b => decide (a.pos < b.pos))
              (dh.reveals ++ [⟨pos, cardID⟩]) } with poker := poker }
        tableID h.handId)
  | abort {msg : HandMsg} {tableID handID : Nat} {poker : Poker.State env.poker} :
      Poker.abortHandRefundAllCommits c.poker tableID handID = .ok poker →
      HandAct c block msg tableID
        (Chain.deleteHand { c with poker := poker } tableID handID)
  | extend {msg : HandMsg} {tableID : Nat} {t : Table} {h : Hand}
      {dh : DealerHand} {deadline : Int} :
      AtHand c tableID t h dh → h.phase = .shuffle → dh.finalized = false →
      DeadlineFrom block t deadline →
      HandAct c block msg tableID (c.setHand tableID h.handId { dh with
        shuffleDeadline := deadline })

/-! ## One lemma per handler -/

section Handlers

variable {c c' : Chain env} {block : Block}

theorem deadlineFrom_of_checked {field : String} {deadline : Int}
    (hok : addInt64AndU64Checked block.unix (tableDealerTimeoutSecs t.params)
      field = .ok deadline) : DeadlineFrom block t deadline := by
  unfold addInt64AndU64Checked at hok
  split at hok
  · cases hok
  · split at hok
    · cases hok
    · cases hok
      rfl

variable {missing valoper : String} {mem : DealerMember} {req : MsgSubmitShuffle}

theorem activeHand_ok (hok : c.activeHand tableID handID missing = .ok (t, h)) :
    c.poker.getTable tableID = some t ∧ t.hand = some h ∧ h.handId = handID := by
  simp only [Chain.activeHand, ok_iff, Prod.mk.injEq, ne_eq, not_not] at hok
  obtain ⟨_, htable, _, hhand, -, hid, rfl, rfl⟩ := hok
  exact ⟨htable, hhand, hid⟩

theorem atHand_of_ok (hactive : c.activeHand tableID handID missing = .ok (t, h))
    (hdealer : c.dealerHand tableID handID = .ok dh) :
    AtHand c tableID t h dh ∧ h.handId = handID := by
  obtain ⟨htable, hhand, rfl⟩ := activeHand_ok hactive
  rw [Chain.dealerHand, require_eq_ok] at hdealer
  exact ⟨⟨htable, hhand, hdealer⟩, rfl⟩

theorem handEpoch_ok (hok : c.handEpoch dh = .ok epoch) : InEpoch c dh epoch := by
  simp only [Chain.handEpoch, ok_iff, ne_eq, not_not] at hok
  obtain ⟨_, hepoch, -, hid, rfl⟩ := hok
  exact ⟨hepoch, hid⟩

theorem activeMember_ok {role : String} (hok : activeMember epoch valoper role = .ok mem) :
    findEpochMember epoch valoper = some mem ∧ isSlashed epoch.slashed valoper = false := by
  simp only [activeMember, ok_iff, Bool.not_eq_true] at hok
  obtain ⟨_, hfind, -, hfree, rfl⟩ := hok
  exact ⟨hfind, hfree⟩

theorem findMember_some {members : List DealerMember}
    (hfind : findMember members valoper = some mem) :
    mem ∈ members ∧ mem.validator = valoper := by
  unfold findMember at hfind
  split at hfind
  · cases hfind
  · exact ⟨List.mem_of_find?_eq_some hfind, by simpa using List.find?_some hfind⟩

theorem initHand_act {lastBlockHash : Bytes} {req : MsgInitHand}
    (hok : initHand c block lastBlockHash req = .ok c') :
    HandAct c block (.initHand lastBlockHash req) req.tableId c' := by
  simp only [initHand, ok_iff, ne_eq, not_not, decodePoint, not_or, not_lt, gt_iff_lt,
    exists_const] at hok
  obtain ⟨-, -, -, -, t, htable, h, hhand, -, -, hid, hphase, hnone, epoch, hepoch, hepochId, ⟨hmin,
    hmax⟩, k, hk, pkEpoch, hpk, deck, hdeck, deadline, hdeadline, rfl⟩ := hok
  have hfrom := deadlineFrom_of_checked hdeadline
  rw [← hid] at hnone ⊢
  refine .init htable hhand hphase (by simpa using hnone) hepoch ?_ ?_ rfl
  · exact ⟨rfl, ⟨k, pkEpoch, hk, hpk, rfl, hdeck⟩, ⟨hmin, hmax⟩, rfl, rfl, rfl, rfl, rfl⟩
  · exact hfrom

theorem submitShuffle_spec (hok : submitShuffle c block req = .ok c') :
    ∃ t h dh epoch shuffler context deck deadline,
      AtHand c req.tableId t h dh ∧ h.handId = req.handId ∧ h.phase = .shuffle ∧
      dh.finalized = false ∧ InEpoch c dh epoch ∧
      (epochQualMembers epoch)[dh.shuffleStep]? = some shuffler ∧
      req.shuffler = shuffler.validator ∧
      Suite.buildShuffleContext req.tableId req.handId req.round req.shuffler = .ok context ∧
      verifyShuffle env.suite dh.pkHand dh.deck req.proofShuffle context = .ok deck ∧
      DeadlineFrom block t deadline ∧
      c' = c.setHand req.tableId h.handId { dh with
        deck := deck
        shuffleStep := dh.shuffleStep + 1
        shuffleDeadline := deadline } := by
  simp only [submitShuffle, ok_iff, ne_eq, not_not, exists_const] at hok
  obtain ⟨-, -, -, -, -, -, ⟨t, h⟩, hactive, hphase, dh, hdealer, -, hopen, hround, epoch, hepoch,
    _, -, shuffler, hexpected, hshuffler, ctx, hctx, deck, hverify, deadline, hdeadline, rfl⟩ := hok
  obtain ⟨hat, hid⟩ := atHand_of_ok hactive hdealer
  exact ⟨t, h, dh, epoch, shuffler, ctx, deck, deadline, hat, hid, hphase,
    by simpa using hopen, handEpoch_ok hepoch, hexpected, hshuffler, hctx, hverify,
    deadlineFrom_of_checked hdeadline, by rw [hround, hid]⟩

theorem submitShuffle_act (hok : submitShuffle c block req = .ok c') :
    HandAct c block (.submitShuffle req) req.tableId c' := by
  obtain ⟨t, h, dh, epoch, shuffler, ctx, deck, deadline, hat, hid, hphase, hopen,
    hepoch, hexpected, hshuffler, hctx, hverify, hdeadline, rfl⟩ :=
    submitShuffle_spec hok
  exact .shuffle hat hid hphase hopen hepoch hexpected hshuffler hctx hverify hdeadline

theorem finalizeDeck_act (hok : finalizeDeck c block tableID handID = .ok c') :
    HandAct c block msg tableID c' := by
  simp only [finalizeDeck, ok_iff, ne_eq, not_not, not_lt] at hok
  obtain ⟨⟨t, h⟩, hactive, -, hphase, dh, hdealer, -, hopen, epoch, hepoch, -,
    henough, -, hstep, deadline, hdeadline, rfl⟩ := hok
  obtain ⟨hat, hid⟩ := atHand_of_ok hactive hdealer
  rw [← hid]
  exact .finalizeDeck hat hphase (by simpa using hopen) (handEpoch_ok hepoch)
    henough hstep (deadlineFrom_of_checked hdeadline)

theorem advanceHand_act {shares : List DealerEncShare} (hat : AtHand c tableID t h dh)
    (hshares : AddsEncShare c tableID t h dh epoch shares)
    (hok : advanceHand c block tableID h.handId { dh with encShares := shares } =
      .ok c') : HandAct c block msg tableID c' := by
  simp only [advanceHand, ok_iff] at hok
  obtain ⟨poker, hadvance, rfl⟩ := hok
  exact .advance hat hshares hadvance

theorem submitEncShare_act {req : MsgSubmitEncShare} (hok : submitEncShare c block req = .ok c') :
    HandAct c block (.submitEncShare req) req.tableId c' := by
  simp only [submitEncShare, ok_iff, decodePoint, exists_const, requireLength] at hok
  obtain ⟨-, -, -, -, -, -, -, -, ⟨t, h⟩, hactive, hphase, hdeck, dh, hdealer, hfinal, card, hcard,
    -, -, epoch, hepoch, mem, hmember, seat, hseat, -, hpk, hfresh, hok⟩ := hok
  obtain ⟨yHand, hkey, c1, hc1, pkPlayer, hpkPlayer, u, hu, v, hv, proof, hproof, ok,
    hverify, htrue, ready, -, hrest⟩ := hok
  simp only [ne_eq, not_not, Bool.not_eq_false] at hphase hdeck hfinal hpk htrue
  subst htrue
  obtain ⟨hat, hid⟩ := atHand_of_ok hactive hdealer
  obtain ⟨hfind, hfree⟩ := activeMember_ok hmember
  have hchecked : EncShareChecked c req.tableId t h dh epoch
      ⟨req.pos, req.validator, mem.index, req.pkPlayer, req.encShare, req.proofEncShare⟩ := by
    refine ⟨hat, hphase, hdeck, hfinal, handEpoch_ok hepoch, hfree,
      ⟨mem, hfind, rfl, ?_⟩, ⟨seat, hseat, hpk⟩, fun other hother hpos hname => ?_⟩
    · exact ⟨card, yHand, c1, pkPlayer, u, v, proof, hcard, hkey, hc1, hpkPlayer,
        hu, hv, hproof, hverify⟩
    · refine hfresh (List.any_eq_true.mpr ⟨other, hother, ?_⟩)
      simp only [hpos, hname, decide_true, Bool.and_self]
  rw [← hid] at hrest
  split at hrest
  · exact advanceHand_act hat (.inr ⟨_, hchecked, rfl⟩) hrest
  · rw [pure_ok_iff] at hrest
    subst hrest
    exact .encShare hchecked

theorem submitPubShare_act {req : MsgSubmitPubShare} (hok : submitPubShare c block req = .ok c') :
    HandAct c block (.submitPubShare req) req.tableId c' := by
  simp only [submitPubShare, requireRevealPos, decodePoint, ok_iff, ne_eq, not_not,
    not_or, exists_const] at hok
  obtain ⟨-, -, -, -, -, -, ⟨t, h⟩, hactive, ⟨⟨hpos, -⟩, hsame⟩, -, dh, hdealer, card,
    hcard, epoch, hepoch, mem, hmember, hfresh, yHand, hkey, c1, hc1, share, hshare,
    proof, -, ok, hverify, htrue, rfl⟩ := hok
  obtain ⟨hat, hid⟩ := atHand_of_ok hactive hdealer
  obtain ⟨hfind, -⟩ := activeMember_ok hmember
  obtain ⟨-, hvalidator⟩ := findMember_some hfind
  rw [← hid] at ⊢
  rw [← hvalidator] at hfind hfresh ⊢
  rw [Bool.not_eq_false] at htrue
  subst htrue
  refine .pubShare hat hid hpos hsame hcard (handEpoch_ok hepoch) hfind
    hvalidator.symm ?_ hkey hc1 hshare hverify
  intro ps hps hat' hsame'
  refine hfresh (List.any_eq_true.mpr ⟨ps, hps, ?_⟩)
  simp [hat', hsame']

theorem finalizeReveal_act {tableID handID pos : Nat}
    (hok : finalizeReveal c block tableID handID pos = .ok c') :
    HandAct c block msg tableID c' := by
  simp only [finalizeReveal, requireRevealPos, ok_iff, ne_eq, not_not, not_or] at hok
  obtain ⟨⟨t, h⟩, hactive, -, ⟨-, ⟨hpos, -⟩, hsame⟩, dh, hdealer, -, -, epoch, hepoch,
    -, -, -, -, cardID, hcard, poker, hreveal, rfl⟩ := hok
  obtain ⟨hat, hid⟩ := atHand_of_ok hactive hdealer
  rw [← hid] at hreveal ⊢
  exact .reveal hat hpos hsame (handEpoch_ok hepoch) hcard hreveal

theorem abortHand_act (hok : abortHand c tableID handID = .ok c') :
    HandAct c block msg tableID c' := by
  simp only [abortHand, ok_iff] at hok
  obtain ⟨poker, habort, rfl⟩ := hok
  exact .abort habort

def HandEffect (c : Chain env) (block : Block) (msg : HandMsg) (tableID : Nat)
    (c' : Chain env) : Prop :=
  ∃ c₁, Penalised c c₁ ∧ HandAct c₁ block msg tableID c'

def HandPass (c : Chain env) (block : Block) (msg : HandMsg) (tableID : Nat)
    (c' : Chain env) : Prop :=
  ∃ c₁, PenaltyPass c block c₁ ∧ HandAct c₁ block msg tableID c'

theorem HandAct.pass (hact : HandAct c block msg tableID c') : HandPass c block msg tableID c' :=
  ⟨c, .none, hact⟩

theorem HandPass.effect (hpass : HandPass c block msg tableID c') :
    HandEffect c block msg tableID c' := by
  obtain ⟨c₁, hpenalty, hact⟩ := hpass
  exact ⟨c₁, hpenalty.penalised, hact⟩

theorem AtHand.penalised {c₁ : Chain env} (hat : AtHand c tableID t h dh)
    (hpenalty : Penalised c c₁) : AtHand c₁ tableID t h dh := by
  cases hpenalty with
  | none => exact hat
  | some _ _ => exact ⟨hat.table, hat.hand, hat.dealerHand⟩

section Timeout

variable {tableID : Nat} {t : Table} {h : Hand} {dh : DealerHand} {epoch : DealerEpoch}
  {msg : HandMsg} (hat : AtHand c tableID t h dh) (hepoch : c.dealer.epoch = some epoch)

include hat hepoch

theorem timeoutShuffle_pass (hphase : h.phase = .shuffle) (hopen : dh.finalized = false)
    (hok : timeoutShuffle c block tableID h.handId
      (tableDealerTimeoutSecs t.params) dh epoch = .ok c') :
    HandPass c block msg tableID c' := by
  simp only [timeoutShuffle, ok_iff] at hok
  obtain ⟨-, -, -, -, hok⟩ := hok
  split at hok
  · exact (abortHand_act hok).pass
  split at hok
  · exact (finalizeDeck_act hok).pass
  simp only [ok_iff] at hok
  obtain ⟨expected, -, ⟨c₁, epoch₁⟩, hpenalty, hok⟩ := hok
  have hpass : PenaltyPass c block c₁ := .some hepoch hpenalty
  refine ⟨c₁, hpass, ?_⟩
  split at hok
  · exact abortHand_act hok
  split at hok
  · exact finalizeDeck_act hok
  simp only [ok_iff] at hok
  obtain ⟨deadline, hdeadline, rfl⟩ := hok
  exact .extend (hat.penalised hpass.penalised) hphase hopen (deadlineFrom_of_checked hdeadline)

theorem timeoutHoleShares_pass
    (hok : timeoutHoleShares c block tableID h.handId t h dh epoch = .ok c') :
    HandPass c block msg tableID c' := by
  simp only [timeoutHoleShares, ok_iff] at hok
  obtain ⟨-, -, -, -, _, -, ⟨c₁, epoch₁⟩, hpenalty, hok⟩ := hok
  have hpass : PenaltyPass c block c₁ := .some hepoch hpenalty
  refine ⟨c₁, hpass, ?_⟩
  split at hok
  · exact abortHand_act hok
  simp only [ok_iff] at hok
  obtain ⟨ready, -, hok⟩ := hok
  split at hok
  · have hshares : AddsEncShare c₁ tableID t h dh epoch₁ dh.encShares := .inl rfl
    exact advanceHand_act (hat.penalised hpass.penalised) hshares hok
  · exact abortHand_act hok

omit hat in
theorem timeoutReveal_pass (hok : timeoutReveal c block tableID h.handId h dh epoch = .ok c') :
    HandPass c block msg tableID c' := by
  simp only [timeoutReveal, ok_iff] at hok
  obtain ⟨-, -, -, -, ⟨c₁, epoch₁⟩, hpenalty, hok⟩ := hok
  refine ⟨c₁, .some hepoch hpenalty, ?_⟩
  split at hok
  · exact abortHand_act hok
  · exact finalizeReveal_act hok

end Timeout

theorem timeoutHand_pass (hok : timeoutHand c block tableID handID = .ok c') :
    HandPass c block msg tableID c' := by
  simp only [timeoutHand, ok_iff] at hok
  obtain ⟨⟨t, h⟩, hactive, dh, hdealer, hok⟩ := hok
  obtain ⟨hat, rfl⟩ := atHand_of_ok hactive hdealer
  split at hok
  · exact (abortHand_act hok).pass
  rename_i epoch hcurrent
  have hepoch := (Option.filter_eq_some_iff.mp hcurrent).1
  simp only [ok_iff] at hok
  obtain ⟨-, -, -, -, hok⟩ := hok
  split at hok
  · rename_i hshuffling
    exact timeoutShuffle_pass hat hepoch hshuffling.1 hshuffling.2 hok
  split at hok
  · exact timeoutHoleShares_pass hat hepoch hok
  · exact timeoutReveal_pass hepoch hok

def HandMsg.tableId : HandMsg → Nat
  | .initHand _ req => req.tableId
  | .submitShuffle req => req.tableId
  | .finalizeDeck req => req.tableId
  | .submitEncShare req => req.tableId
  | .submitPubShare req => req.tableId
  | .finalizeReveal req => req.tableId
  | .timeout req => req.tableId

section

variable (hok : handleHand c block msg = .ok c')
include hok

theorem handleHand_act : HandAct c block msg msg.tableId c' ∨ ∃ req, msg = .timeout req ∧
      timeoutHand c block req.tableId req.handId = .ok c' := by
  cases msg with
  | initHand lastBlockHash req => exact .inl (initHand_act hok)
  | submitShuffle req => exact .inl (submitShuffle_act hok)
  | finalizeDeck req =>
    simp only [handleHand, msgFinalizeDeck, ok_iff] at hok
    obtain ⟨-, -, -, -, hok⟩ := hok
    exact .inl (finalizeDeck_act hok)
  | submitEncShare req => exact .inl (submitEncShare_act hok)
  | submitPubShare req => exact .inl (submitPubShare_act hok)
  | finalizeReveal req =>
    simp only [handleHand, msgFinalizeReveal, ok_iff] at hok
    obtain ⟨-, -, -, -, hok⟩ := hok
    exact .inl (finalizeReveal_act hok)
  | timeout req =>
    simp only [handleHand, msgTimeout, ok_iff] at hok
    obtain ⟨-, -, -, -, hok⟩ := hok
    exact .inr ⟨req, rfl, hok⟩

theorem handleHand_pass : HandPass c block msg msg.tableId c' := by
  rcases handleHand_act hok with hact | ⟨req, rfl, htimeout⟩
  · exact hact.pass
  · exact timeoutHand_pass htimeout

theorem handleHand_effect : HandEffect c block msg msg.tableId c' := (handleHand_pass hok).effect

end

end Handlers

end OnChainPoker.Dealer
