import OnChainPoker.Dealer.ThresholdKey

/-!
# Invariants of the DKG record and the epoch

What holds of the dealer's state after any run: the record of a DKG in flight
is well formed, the stored epoch has a shared key, and epoch numbers only grow,
so an epoch never returns once it has been replaced.
-/

namespace OnChainPoker.Dealer

open Foundation Crypto Polynomial
open Poker (Block)

variable {env : Env} {d : DealerDKG} {s : State env} {S : Suite} {params : Params} {e : DealerEpoch}
  {c c' : Chain env}

/-! ## The invariant -/

structure RecordValid (d : DealerDKG) : Prop where
  names : NamesValid d
  slashed : SlashedValid d.slashed
  threshold : 2 ≤ d.threshold
  committee : CommitteeValid d.members
  commits : CommitsFit d

structure EpochValid (S : Suite) (e : DealerEpoch) : Prop where
  slashed : SlashedValid e.slashed
  threshold : 2 ≤ e.threshold
  committee : CommitteeValid e.members
  key : ∃ f, SharedKey S f e

structure DealerSound (s : State env) : Prop where
  record : ∀ d, s.dkg = some d → RecordValid d
  epoch : ∀ e, s.epoch = some e → EpochValid env.suite e
  epoch_lt : ∀ e, s.epoch = some e → e.epochId < s.nextEpochId
  dkg_lt : ∀ d, s.dkg = some d → d.epochId < s.nextEpochId
  epoch_lt_dkg : ∀ e d, s.epoch = some e → s.dkg = some d → e.epochId < d.epochId

/-! ## Moves keep the record valid -/

variable {d' : DealerDKG} {height : Int} {e' : DealerEpoch} {s' : State env}
  {block : Block} {msg : Msg env} {tableID : Nat}

theorem Slashes.recordValid {guilty : Set String} (hslashes : Slashes d d' guilty)
    (hvalid : RecordValid d) : RecordValid d' := by
  obtain ⟨slashed, rfl, hslashed, -⟩ := hslashes
  exact ⟨⟨hvalid.names.members, hvalid.names.complaints⟩, hslashed,
    hvalid.threshold, hvalid.committee, hvalid.commits⟩

theorem FreshDkg.recordValid (hfresh : FreshDkg env s d) : RecordValid d := by
  obtain ⟨snaps, hmembers⟩ := hfresh.members
  have hcommittee := committeeValid_of_snapshots hmembers
  refine ⟨⟨hcommittee.named, ?_⟩, ?_, hfresh.threshold, hcommittee, ?_⟩
  · simp [hfresh.complaints]
  · rw [hfresh.slashed]
    exact slashedValid_nil
  · simp [CommitsFit, hfresh.commits]

theorem DkgMove.recordValid (hmove : DkgMove S params height d d') (hvalid : RecordValid d) :
    RecordValid d' := by
  cases hmove with
  | @commit dealer commitments key hnamed htime hmember hfresh hlength _ =>
    have hcommittee : CommitteeValid (if key = [] then d.members
        else setEphemeralPubkey dealer key d.members) := by
      split
      · exact hvalid.committee
      · exact hvalid.committee.of_perm (by rw [setEphemeralPubkey_ids])
    refine ⟨⟨hcommittee.named, hvalid.names.complaints⟩, hvalid.slashed,
      hvalid.threshold, hcommittee, fun commit hcommit => ?_⟩
    rw [sortDKGCommits, mem_sortSlice, List.mem_append, List.mem_singleton] at hcommit
    rcases hcommit with hold | rfl
    · exact hvalid.commits commit hold
    · exact hlength
  | encryptedShare _ _ | reveal _ _ _ _ _ _ _ =>
    exact ⟨⟨hvalid.names.members, hvalid.names.complaints⟩, hvalid.slashed,
      hvalid.threshold, hvalid.committee, hvalid.commits⟩
  | @complaint d₁ complainer dealer kind shareMsg hchecked hslashes =>
    have hvalid₁ := hslashes.recordValid hvalid
    refine ⟨⟨hvalid₁.names.members, fun row hrow => ?_⟩, hvalid₁.slashed,
      hvalid₁.threshold, hvalid₁.committee, hvalid₁.commits⟩
    rw [addComplaint, sortDKGComplaints, mem_sortSlice, List.mem_append, List.mem_singleton] at hrow
    rcases hrow with hold | rfl
    · exact hvalid₁.names.complaints row hold
    · exact hchecked.dealer_named
  | timeout _ hslashes => exact hslashes.recordValid hvalid

theorem DkgMove.epochId_eq (hmove : DkgMove S params height d d') : d'.epochId = d.epochId := by
  cases hmove with
  | commit _ _ _ _ _ _ | encryptedShare _ _ => rfl
  | complaint _ hslashes | timeout _ hslashes =>
    obtain ⟨slashed, rfl, -, -⟩ := hslashes
    rfl
  | reveal _ _ _ _ _ _ _ => rfl

/-! ## Epochs -/

theorem SlashGrows.sharedKey {f : S.Scalar[X]} (hgrows : SlashGrows e e')
    (hkey : SharedKey S f e) : SharedKey S f e' := by
  rw [hgrows.same]
  exact ⟨hkey.degree, hkey.key, hkey.shares⟩

theorem SlashGrows.epochValid (hgrows : SlashGrows e e') (hvalid : EpochValid S e) :
    EpochValid S e' := by
  obtain ⟨f, hkey⟩ := hvalid.key
  refine ⟨hgrows.valid hvalid.slashed, ?_, ?_, f, hgrows.sharedKey hkey⟩
  · rw [hgrows.same]
    exact hvalid.threshold
  · rw [hgrows.same]
    exact hvalid.committee

theorem computeEpoch_valid (hvalid : RecordValid d) (hok : computeEpoch S d = .ok e) :
    EpochValid S e ∧ e.epochId = d.epochId := by
  obtain ⟨hfrom, hkey⟩ := computeEpoch_spec hvalid.commits hok
  refine ⟨⟨?_, ?_, hvalid.committee.of_perm hfrom.ids, _, hkey⟩, hfrom.epochId⟩
  · rw [hfrom.slashed]
    exact hvalid.slashed
  · rw [hfrom.threshold]
    exact hvalid.threshold

/-! ## Steps -/

theorem DkgEffect.sound (heffect : DkgEffect s height s') (hsound : DealerSound s) :
    DealerSound s' := by
  cases heffect with
  | begun hnone hfresh =>
    refine ⟨fun d hd => ?_, hsound.epoch, fun e he => ?_, fun d hd => ?_, fun e d he hd => ?_⟩
    · cases hd
      exact hfresh.recordValid
    · exact (hsound.epoch_lt e he).trans (Nat.lt_succ_self _)
    · cases hd
      rw [hfresh.epochId]
      exact Nat.lt_succ_self _
    · cases hd
      rw [hfresh.epochId]
      exact hsound.epoch_lt e he
  | @moved d d' staking hd hmove =>
    refine ⟨fun d₁ hd₁ => ?_, hsound.epoch, hsound.epoch_lt, fun d₁ hd₁ => ?_,
      fun e d₁ he hd₁ => ?_⟩
    · cases hd₁
      exact hmove.recordValid (hsound.record d hd)
    · cases hd₁
      rw [hmove.epochId_eq]
      exact hsound.dkg_lt d hd
    · cases hd₁
      rw [hmove.epochId_eq]
      exact hsound.epoch_lt_dkg e d he hd
  | aborted hd =>
    exact ⟨fun _ h => (nomatch h), hsound.epoch, hsound.epoch_lt,
      fun _ h => (nomatch h), fun _ _ _ h => (nomatch h)⟩
  | @finalised d d' staking epoch hd hslashes _ hepoch =>
    have hvalid := hslashes.recordValid (hsound.record d hd)
    obtain ⟨hepochValid, hid⟩ := computeEpoch_valid hvalid hepoch
    obtain ⟨slashed, rfl, -, -⟩ := hslashes
    refine ⟨fun _ h => (nomatch h), fun e he => ?_, fun e he => ?_,
      fun _ h => (nomatch h), fun _ _ _ h => (nomatch h)⟩
    · cases he
      exact hepochValid
    · cases he
      rw [hid]
      exact hsound.dkg_lt d hd

theorem HandAct.dealer_frame {msg : HandMsg} (hact : HandAct c block msg tableID c') :
    c'.dealer = { c.dealer with hands := c'.dealer.hands } := by
  cases hact with
  | reveal _ _ _ _ _ _ =>
    unfold Chain.cleanUp
    split <;> rfl
  | _ => rfl

theorem DealerSound.congr (hsound : DealerSound s) (hdkg : s'.dkg = s.dkg)
    (hepoch : s'.epoch = s.epoch) (hnext : s'.nextEpochId = s.nextEpochId) :
    DealerSound s' := by
  refine ⟨?_, ?_, ?_, ?_, ?_⟩
  · rw [hdkg]
    exact hsound.record
  · rw [hepoch]
    exact hsound.epoch
  · rw [hepoch, hnext]
    exact hsound.epoch_lt
  · rw [hdkg, hnext]
    exact hsound.dkg_lt
  · rw [hdkg, hepoch]
    exact hsound.epoch_lt_dkg

theorem Penalised.sound (hpenalty : Penalised c c') (hsound : DealerSound c.dealer) :
    DealerSound c'.dealer := by
  cases hpenalty with
  | none => exact hsound
  | @some epoch epoch' staking hepoch hgrows =>
    have hid : epoch'.epochId = epoch.epochId := by rw [hgrows.same]
    refine ⟨hsound.record, fun e he => ?_, fun e he => ?_, hsound.dkg_lt, fun e d he hd => ?_⟩
    · cases he
      exact hgrows.epochValid (hsound.epoch epoch hepoch)
    · cases he
      rw [hid]
      exact hsound.epoch_lt epoch hepoch
    · cases he
      rw [hid]
      exact hsound.epoch_lt_dkg epoch d hepoch hd

theorem HandAct.sound {msg : HandMsg} (hact : HandAct c block msg tableID c')
    (hsound : DealerSound c.dealer) :
    DealerSound c'.dealer := by
  have hframe := hact.dealer_frame
  exact hsound.congr (by rw [hframe]) (by rw [hframe]) (by rw [hframe])

theorem dkg_effect {msg : DkgMsg} (hsound : DealerSound s) (hok : handleDkg s block msg = .ok s') :
    DkgEffect s block.height s' :=
  handleDkg_effect (fun d hd => (hsound.record d hd).slashed)
    (fun d hd => (hsound.record d hd).names) hok

theorem handle_sound (hsound : DealerSound c.dealer) (hok : handle c msg = .ok c') :
    DealerSound c'.dealer := by
  cases handle_step hok with
  | player msg _ _ => exact hsound
  | dkg block msg _ hdealer => exact (dkg_effect hsound hdealer).sound hsound
  | hand block msg _ =>
    obtain ⟨c₁, hpenalty, hact⟩ := handleHand_effect hok
    exact hact.sound (hpenalty.sound hsound)
  | otherStaking staking => exact hsound.congr rfl rfl rfl

structure SameDkg (c c' : Chain env) : Prop where
  dkg : c'.dealer.dkg = c.dealer.dkg
  params : c'.dealer.params = c.dealer.params
  nextEpochId : c'.dealer.nextEpochId = c.dealer.nextEpochId

theorem handle_sameDkg (hmsg : ∀ block m, msg ≠ .dkg block m) (hok : handle c msg = .ok c') :
    SameDkg c c' := by
  cases handle_step hok with
  | player _ _ _ | otherStaking _ => exact ⟨rfl, rfl, rfl⟩
  | dkg block m _ _ => exact absurd rfl (hmsg block m)
  | hand block m _ =>
    obtain ⟨c₁, hpenalty, hact⟩ := handleHand_effect hok
    have hframe := hact.dealer_frame
    cases hpenalty with
    | none | some _ _ => exact ⟨by rw [hframe], by rw [hframe], by rw [hframe]⟩

theorem handle_dkg_or_same (hok : handle c msg = .ok c') :
    (∃ block m dealer, msg = .dkg block m ∧ handleDkg c.dealer block m = .ok dealer ∧
      c' = { c with dealer := dealer }) ∨
    ((∀ block m, msg ≠ .dkg block m) ∧ SameDkg c c') := by
  by_cases hdkg : ∃ block m, msg = .dkg block m
  · obtain ⟨block, m, rfl⟩ := hdkg
    simp only [handle, ok_iff] at hok
    obtain ⟨dealer, hdealer, rfl⟩ := hok
    exact .inl ⟨block, m, dealer, rfl, hdealer, rfl⟩
  · push Not at hdkg
    exact .inr ⟨hdkg, handle_sameDkg hdkg hok⟩

theorem genesis_sound (env : Env) (staking : env.staking.Staking)
    (params : Params) : DealerSound (State.genesis env staking params) :=
  ⟨fun _ h => (nomatch h), fun _ h => (nomatch h), fun _ h => (nomatch h),
    fun _ h => (nomatch h), fun _ _ h => (nomatch h)⟩

theorem reachable_dealerSound (hreach : Reachable c) : DealerSound c.dealer := by
  apply hreach.invariant
  · rintro _ ⟨_, staking, params, rfl⟩
    exact genesis_sound env staking params
  · exact fun _ _ _ _ hsound hok => handle_sound hsound hok

/-! ## Where the key of an epoch comes from -/

structure Finalises (c c' : Chain env) (d : DealerDKG) (e : DealerEpoch) :
    Prop where
  inFlight : c.dealer.dkg = some d
  stored : c'.dealer.epoch = some e
  dkgOver : c'.dealer.dkg = none
  epochId : e.epochId = d.epochId

theorem epoch_step (hsound : DealerSound c.dealer) (hok : handle c msg = .ok c')
    (he : c'.dealer.epoch = some e') :
    (∃ e, c.dealer.epoch = some e ∧ SlashGrows e e') ∨
      ∃ d, Finalises c c' d e' ∧ SharedKey env.suite
        (jointPoly env.suite d (qualMembers d.members e'.slashed)) e' := by
  cases handle_step hok with
  | player msg _ _ | otherStaking staking => exact .inl ⟨e', he, .refl e'⟩
  | dkg block msg _ hdealer =>
    cases dkg_effect hsound hdealer with
    | begun _ _ | moved _ _ | aborted _ => exact .inl ⟨e', he, .refl e'⟩
    | @finalised d d' staking epoch hd hslashes _ hepoch =>
      cases he
      have hvalid := hslashes.recordValid (hsound.record d hd)
      obtain ⟨hfrom, hkey⟩ := computeEpoch_spec hvalid.commits hepoch
      obtain ⟨slashed, rfl, -, -⟩ := hslashes
      rw [← hfrom.slashed] at hkey
      exact .inr ⟨d, ⟨hd, rfl, rfl, hfrom.epochId⟩, hkey⟩
  | hand block msg _ =>
    obtain ⟨c₁, hpenalty, hact⟩ := handleHand_effect hok
    rw [hact.dealer_frame] at he
    cases hpenalty with
    | none => exact .inl ⟨e', he, .refl e'⟩
    | @some epoch epoch' staking hepoch hgrows =>
      cases he
      exact .inl ⟨epoch, hepoch, hgrows⟩

/-- In the run `log` a DKG was turned into the epoch, whose key is shared by the
sum of the polynomials of the members that were not slashed then. -/
def SharedFrom (start : Chain env) (log : List (Msg env)) (e : DealerEpoch) : Prop :=
  ∃ earlier msg later c₁ c₂ d e₀,
    log = later ++ msg :: earlier ∧ Reaches handle start earlier c₁ ∧
    handle c₁ msg = .ok c₂ ∧ Finalises c₁ c₂ d e₀ ∧ SlashGrows e₀ e ∧
    SharedKey env.suite (jointPoly env.suite d (qualMembers d.members e₀.slashed)) e

theorem sharedFrom_of_reaches {balances : env.poker.bank.Balances}
    {staking : env.staking.Staking} {log : List (Msg env)}
    (hreach : Reaches handle (Chain.genesis env balances staking params) log c)
    (he : c.dealer.epoch = some e) :
    SharedFrom (Chain.genesis env balances staking params) log e := by
  induction hreach generalizing e with
  | refl => cases he
  | @step log c₁ c₂ msg hreach hok ih =>
    have hsound := reachable_dealerSound (reachable_of_reaches hreach)
    rcases epoch_step hsound hok he with ⟨e₁, he₁, hgrows⟩ | ⟨d, hfinal, hkey⟩
    · obtain ⟨earlier, first, later, a, b, d, e₀, rfl, ha, hab, hfinal, hgrows₀, hkey⟩ := ih he₁
      exact ⟨earlier, first, msg :: later, a, b, d, e₀, rfl, ha, hab, hfinal,
        hgrows₀.trans hgrows, hgrows.sharedKey hkey⟩
    · exact ⟨log, msg, [], c₁, c₂, d, e, rfl, hreach, hok, hfinal, .refl e, hkey⟩

theorem threshold_key_consistent (env : Env) (balances : env.poker.bank.Balances)
    (staking : env.staking.Staking) (params : Params) (messages : List (Msg env))
    {e : DealerEpoch}
    (he : (run handle (Chain.genesis env balances staking params)
      messages).dealer.epoch = some e) :
    SharedFrom (Chain.genesis env balances staking params)
        (accepted handle (Chain.genesis env balances staking params) messages) e ∧
      ∀ indices : List Nat, indices.Nodup → indices.length = e.threshold →
        (∀ i ∈ indices, ∃ m ∈ e.members, m.index = i) →
        (∀ lambdas shares, env.suite.lagrangeAtZero indices = .ok lambdas →
          List.Forall₂ (fun i p => ∃ m ∈ e.members, m.index = i ∧
            env.suite.pointFromBytesCanonical m.pubShare = .ok p) indices shares →
          env.suite.pointFromBytesCanonical e.pkEpoch =
            .ok (List.zipWith (· • ·) lambdas shares).sum) ∧
        ((∀ i ∈ indices, i < env.suite.order) →
          ∃ lambdas, env.suite.lagrangeAtZero indices = .ok lambdas) := by
  have hreach : Reaches handle (Chain.genesis env balances staking params) _ _ :=
    reaches_run messages
  have hshared := sharedFrom_of_reaches hreach he
  refine ⟨hshared, fun indices hnodup hcount hmembers => ⟨?_, fun hlt => ?_⟩⟩
  · obtain ⟨_, _, _, _, _, d, e₀, -, -, -, -, -, hkey⟩ := hshared
    exact fun lambdas shares => hkey.recover hcount
  · have hvalid := (reachable_dealerSound (reachable_of_reaches hreach)).epoch e he
    have hthreshold := hvalid.threshold
    refine Suite.lagrangeAtZero_succeeds ?_ ?_ hnodup (Suite.indicesDistinct_of_lt hlt)
    · rintro rfl
      simp only [List.length_nil] at hcount
      omega
    · intro i hi
      obtain ⟨m, hm, rfl⟩ := hmembers i hi
      exact hvalid.committee.positive m hm

def twoDealersRun : List (Msg residueEnv) :=
  [beginEpochMsg 3, dkgCommitMsg "A" 3 1, dkgCommitMsg "B" 5 2, finalizeEpochMsg]

def twoDealersEpoch : DealerEpoch :=
  let member (operator : String) (index : Nat) (y : ZMod 53) (key : Bytes) :
      DealerMember :=
    ⟨operator, index, residueBytes y, List.replicate 32 0, 1, key⟩
  ⟨1, 2, residueBytes 8, List.replicate 32 0, 1, ["C"],
    [member "A" 1 11 (residueBytes 1), member "B" 2 14 (residueBytes 1),
      member "C" 3 17 []]⟩

theorem twoDealersRun_key :
    (run handle residueGenesis twoDealersRun).dealer.epoch = some twoDealersEpoch ∧
      SharedFrom residueGenesis (accepted handle residueGenesis twoDealersRun)
        twoDealersEpoch ∧
      residueSuite.pointFromBytesCanonical twoDealersEpoch.pkEpoch =
        .ok (List.zipWith (· • ·) [(28 : residueSuite.Scalar), 26]
          [residueSuite.mulBase 11, residueSuite.mulBase 17]).sum := by
  have hepoch : (run handle residueGenesis twoDealersRun).dealer.epoch =
      some twoDealersEpoch := by
    decide +kernel
  obtain ⟨hshared, hsets⟩ := threshold_key_consistent residueEnv (0 : Nat) ()
    residueParams twoDealersRun hepoch
  refine ⟨hepoch, hshared, (hsets [1, 3] (by decide) rfl ?_).1 _ _ ?_ ?_⟩
  · decide
  · decide +kernel
  · exact .cons (by decide +kernel) (.cons (by decide +kernel) .nil)

end OnChainPoker.Dealer
