import OnChainPoker.Dealer.Blame

/-!
# Delivery of the shares of a DKG

The record of a DKG holds exactly the encrypted shares and reveals that were accepted
for its epoch.  Turning it into an epoch does not look at the encrypted shares, so a
dealer who has delivered nothing stays in unless somebody has complained.
-/

namespace OnChainPoker.Dealer

open Foundation Crypto Polynomial

variable {env : Env}

/-! ## Shares and reveals on record -/

def HasShare (d : DealerDKG) (dealer : String) (index : Nat) : Prop :=
  ∃ es ∈ d.encryptedShares, es.dealer = dealer ∧ es.recipientIndex = index

def HasReveal (d : DealerDKG) (dealer recipient : String) : Prop :=
  ∃ row ∈ d.reveals, row.dealer = dealer ∧ row.recipient = recipient

instance (d : DealerDKG) (dealer : String) (index : Nat) :
    Decidable (HasShare d dealer index) :=
  inferInstanceAs (Decidable (∃ es ∈ d.encryptedShares, _))

instance (d : DealerDKG) (dealer recipient : String) :
    Decidable (HasReveal d dealer recipient) :=
  inferInstanceAs (Decidable (∃ row ∈ d.reveals, _))

def DkgMsg.Posts (dealer : String) (index epochId : Nat) : DkgMsg → Prop
  | .dkgEncryptedShare req =>
    req.epochId = epochId ∧ req.dealer = dealer ∧ req.recipientIndex = index
  | _ => False

def DkgMsg.Reveals (dealer recipient : String) (epochId : Nat) : DkgMsg → Prop
  | .dkgShareReveal req =>
    req.epochId = epochId ∧ req.dealer = dealer ∧ req.recipient = recipient
  | _ => False

section Rows

variable {params : Params} {height : Int} {d d' : DealerDKG} {msg : DkgMsg}

theorem RecordStep.hasShare_iff (hstep : RecordStep env params height d msg d')
    (dealer : String) (index : Nat) :
    HasShare d' dealer index ↔ msg.Posts dealer index d.epochId ∨ HasShare d dealer index := by
  cases hstep with
  | @encryptedShare req _ _ _ _ hid _ _ =>
    rw [or_comm]
    simp [HasShare, sortDKGEncryptedShares, mem_sortSlice, DkgMsg.Posts, hid, or_and_right,
      exists_or]
  | invalid _ _ _ hslashes | aeadBad _ _ hslashes | timeout _ hslashes =>
    obtain ⟨slashed, rfl, -, -⟩ := hslashes
    exact (iff_of_eq (false_or _)).symm
  | _ => exact (iff_of_eq (false_or _)).symm

theorem RecordStep.hasReveal_iff (hstep : RecordStep env params height d msg d')
    (dealer recipient : String) :
    HasReveal d' dealer recipient ↔
      msg.Reveals dealer recipient d.epochId ∨ HasReveal d dealer recipient := by
  cases hstep with
  | @reveal req _ _ _ hid _ _ _ _ _ _ =>
    rw [or_comm]
    simp [HasReveal, sortDKGReveals, mem_sortSlice, DkgMsg.Reveals, hid, or_and_right, exists_or]
  | invalid _ _ _ hslashes | aeadBad _ _ hslashes | timeout _ hslashes =>
    obtain ⟨slashed, rfl, -, -⟩ := hslashes
    exact (iff_of_eq (false_or _)).symm
  | _ => exact (iff_of_eq (false_or _)).symm

end Rows

theorem shares_keptBy (dealer : String) (index : Nat) :
    KeptBy env (HasShare · dealer index) (DkgMsg.Posts dealer index) := by
  constructor
  · intro epochId msg hposts
    cases msg with
    | dkgEncryptedShare req => exact congrArg some hposts.1
    | _ => exact hposts.elim
  · rintro s d hfresh ⟨es, hes, -⟩
    rw [hfresh.encryptedShares] at hes
    cases hes
  · intro params height d msg d' hstep
    exact hstep.hasShare_iff dealer index

theorem reveals_keptBy (dealer recipient : String) :
    KeptBy env (HasReveal · dealer recipient) (DkgMsg.Reveals dealer recipient) := by
  constructor
  · intro epochId msg hreveals
    cases msg with
    | dkgShareReveal req => exact congrArg some hreveals.1
    | _ => exact hreveals.elim
  · rintro s d hfresh ⟨row, hrow, -⟩
    rw [hfresh.reveals] at hrow
    cases hrow
  · intro params height d msg d' hstep
    exact hstep.hasReveal_iff dealer recipient

/-! ## Delivery -/

/-- The dealer's share for the recipient has been accepted by the chain, encrypted or
in the open. -/
def Delivered (log : List (Msg env)) (epochId : Nat) (dealer recipient : String)
    (index : Nat) : Prop :=
  Logged (DkgMsg.Posts dealer index epochId) log ∨
    Logged (DkgMsg.Reveals dealer recipient epochId) log

def OnChain (d : DealerDKG) (dealer recipient : String) (index : Nat) : Prop :=
  HasShare d dealer index ∨ HasReveal d dealer recipient

instance (d : DealerDKG) (dealer recipient : String) (index : Nat) :
    Decidable (OnChain d dealer recipient index) :=
  inferInstanceAs (Decidable (_ ∨ _))

variable {d : DealerDKG} {e : DealerEpoch}

theorem delivered_iff {balances : env.poker.bank.Balances} {staking : env.staking.Staking}
    {params : Params} {log : List (Msg env)} {c : Chain env}
    (hreach : Reaches handle (Chain.genesis env balances staking params) log c)
    (hd : c.dealer.dkg = some d) (dealer recipient : String) (index : Nat) :
    Delivered log d.epochId dealer recipient index ↔ OnChain d dealer recipient index := by
  have hshares := reachable_tracked (shares_keptBy dealer index) hreach
  have hreveals := reachable_tracked (reveals_keptBy dealer recipient) hreach
  rw [Delivered, OnChain, hshares.record d hd, hreveals.record d hd]

def AtFault (S : Suite) (d : DealerDKG) (v : String) : Prop :=
  v ∈ Uncommitted d ∪ Unresolved S d ∨ v ∈ d.slashed

theorem ComputedFrom.forall_members (hfrom : ComputedFrom d e) (P : String → Nat → Prop) :
    (∀ m ∈ e.members, P m.validator m.index) ↔ ∀ m ∈ d.members, P m.validator m.index := by
  have hpairs : ∀ members : List DealerMember,
      (∀ m ∈ members, P m.validator m.index) ↔
        ∀ id ∈ members.map fun m => (m.validator, m.index), P id.1 id.2 := by
    simp
  rw [hpairs, hpairs]
  simp only [hfrom.ids.mem_iff]

theorem qualMembers_ids {members members' : List DealerMember} (slashed : List String)
    (hids : (members.map fun m => (m.validator, m.index)).Perm
      (members'.map fun m => (m.validator, m.index))) :
    ((qualMembers members slashed).map (·.validator)).Perm
      ((qualMembers members' slashed).map (·.validator)) := by
  have hnames : (members.map (·.validator)).Perm (members'.map (·.validator)) := by
    simpa [Function.comp_def] using hids.map Prod.fst
  have hfilter := hnames.filter fun v => !isSlashed slashed v
  rwa [List.filter_map, List.filter_map] at hfilter

theorem pubShare_of_shares {S : Suite} (hfrom : ComputedFrom d e)
    (hkey : SharedKey S (jointPoly S d (qualMembers d.members d.slashed)) e)
    {r : DealerMember} (hr : r ∈ e.members) {share : String → S.Scalar}
    (hshares : ∀ m ∈ epochQualMembers e, S.mulBase (share m.validator) =
      S.evalPowers (commitmentPoints S d m.validator) (r.index : S.Scalar)) :
    S.pointFromBytesCanonical r.pubShare =
      .ok (S.mulBase ((epochQualMembers e).map (share ·.validator)).sum) := by
  have hperm := (qualMembers_ids d.slashed hfrom.ids).map fun v =>
    S.evalPowers (commitmentPoints S d v) (r.index : S.Scalar)
  rw [List.map_map, List.map_map] at hperm
  rw [hkey.shares r hr, Except.ok.injEq]
  calc (jointPoly S d (qualMembers d.members d.slashed)).eval (r.index : S.Scalar) •
          S.base
      = ((qualMembers d.members d.slashed).map fun m =>
          S.evalPowers (commitmentPoints S d m.validator) (r.index : S.Scalar)).sum := by
        simp only [jointPoly, eval_listSum, List.sum_smul, List.map_map,
          Function.comp_def, Suite.evalPowers_eq]
    _ = ((epochQualMembers e).map fun m =>
          S.evalPowers (commitmentPoints S d m.validator) (r.index : S.Scalar)).sum := by
        rw [epochQualMembers, hfrom.slashed]
        exact hperm.sum_eq.symm
    _ = ((epochQualMembers e).map fun m => S.mulBase (share m.validator)).sum := by
        rw [List.map_congr_left hshares]
    _ = S.mulBase ((epochQualMembers e).map (share ·.validator)).sum := by
        simp only [Suite.mulBase, List.sum_smul, List.map_map, Function.comp_def]

theorem shares_delivered_iff (env : Env) (balances : env.poker.bank.Balances)
    (staking : env.staking.Staking) (params : Params) (messages : List (Msg env))
    {msg : Msg env} {c' : Chain env} {d : DealerDKG} {e : DealerEpoch}
    (hok : handle (run handle (Chain.genesis env balances staking params) messages)
      msg = .ok c')
    (hfinal : Finalises
      (run handle (Chain.genesis env balances staking params) messages) c' d e) :
    ((∀ m ∈ e.members, ∀ r ∈ e.members, m.validator ≠ r.validator →
        m.validator ∉ e.slashed → r.validator ∉ e.slashed →
        Delivered (accepted handle (Chain.genesis env balances staking params) messages)
          e.epochId m.validator r.validator r.index) ↔
      ∀ m ∈ d.members, ∀ r ∈ d.members, m.validator ≠ r.validator →
        ¬ AtFault env.suite d m.validator → ¬ AtFault env.suite d r.validator →
        OnChain d m.validator r.validator r.index) ∧
      ∀ r ∈ e.members, ∀ share : String → env.suite.Scalar,
        (∀ m ∈ epochQualMembers e, env.suite.mulBase (share m.validator) =
          env.suite.evalPowers (commitmentPoints env.suite d m.validator)
            (r.index : env.suite.Scalar)) →
        env.suite.pointFromBytesCanonical r.pubShare =
          .ok (env.suite.mulBase ((epochQualMembers e).map (share ·.validator)).sum) := by
  have hreach : Reaches handle (Chain.genesis env balances staking params) _ _ :=
    reaches_run messages
  have hsound := reachable_dealerSound (reachable_of_reaches hreach)
  have hslashed : ∀ v, v ∈ e.slashed ↔ AtFault env.suite d v :=
    hfinal.slashed_iff hsound hok
  obtain ⟨d', ⟨slashed, rfl, -, -⟩, hfrom, hkey⟩ := hfinal.computed hsound hok
  constructor
  · simp only [hslashed, hfinal.epochId, delivered_iff hreach hfinal.inFlight]
    rw [hfrom.forall_members fun v _ => ∀ r ∈ e.members, v ≠ r.validator →
      ¬ AtFault env.suite d v → ¬ AtFault env.suite d r.validator →
      OnChain d v r.validator r.index]
    refine forall₂_congr fun m _ => ?_
    exact hfrom.forall_members fun recipient index => m.validator ≠ recipient →
      ¬ AtFault env.suite d m.validator → ¬ AtFault env.suite d recipient →
      OnChain d m.validator recipient index
  · intro r hr share hshares
    exact pubShare_of_shares hfrom hkey hr hshares

def undeliveredRun : List (Msg residueEnv) := twoDealersRun.take 3

theorem undeliveredRun_finalised :
    ∃ c' d e, handle (run handle residueGenesis undeliveredRun) finalizeEpochMsg =
        .ok c' ∧
      Finalises (run handle residueGenesis undeliveredRun) c' d e ∧
      ∃ m ∈ e.members, ∃ r ∈ e.members, m.validator ≠ r.validator ∧
        m.validator ∉ e.slashed ∧ r.validator ∉ e.slashed ∧
        ¬ Delivered (accepted handle residueGenesis undeliveredRun) e.epochId
          m.validator r.validator r.index := by
  obtain ⟨c', hok⟩ := isOk_iff.mp (by decide +kernel :
    (handle (run handle residueGenesis undeliveredRun) finalizeEpochMsg).isOk = true)
  obtain ⟨d, hd, e, he, hover, hid, m, hm, r, hr, hdiffer, hin, hin', hnone⟩ :
      ∃ d ∈ (run handle residueGenesis undeliveredRun).dealer.dkg,
      ∃ e ∈ (deliver handle (run handle residueGenesis undeliveredRun)
        finalizeEpochMsg).dealer.epoch,
      (deliver handle (run handle residueGenesis undeliveredRun)
        finalizeEpochMsg).dealer.dkg = none ∧ e.epochId = d.epochId ∧
      ∃ m ∈ e.members, ∃ r ∈ e.members, m.validator ≠ r.validator ∧
        m.validator ∉ e.slashed ∧ r.validator ∉ e.slashed ∧
        ¬ OnChain d m.validator r.validator r.index := by
    decide +kernel
  rw [deliver_of_ok hok] at he hover
  refine ⟨c', d, e, hok, ⟨hd, he, hover, hid⟩, m, hm, r, hr, hdiffer, hin, hin', ?_⟩
  rw [hid]
  exact fun hdelivered =>
    hnone ((delivered_iff (reaches_run undeliveredRun) hd _ _ _).mp hdelivered)

def deliveredRun : List (Msg residueEnv) :=
  [beginEpochMsg 2, dkgCommitMsg "A" 3 1, dkgCommitMsg "B" 5 2,
    encryptedShareMsg "A" 2 5, encryptedShareMsg "B" 1 7]

theorem deliveredRun_delivered :
    ∃ c' d e, handle (run handle residueGenesis deliveredRun) finalizeEpochMsg =
        .ok c' ∧
      Finalises (run handle residueGenesis deliveredRun) c' d e ∧
      e.members.length = 2 ∧ e.slashed = [] ∧
      ∀ m ∈ e.members, ∀ r ∈ e.members, m.validator ≠ r.validator →
        m.validator ∉ e.slashed → r.validator ∉ e.slashed →
        Delivered (accepted handle residueGenesis deliveredRun) e.epochId
          m.validator r.validator r.index := by
  obtain ⟨c', hok⟩ := isOk_iff.mp (by decide +kernel :
    (handle (run handle residueGenesis deliveredRun) finalizeEpochMsg).isOk = true)
  obtain ⟨d, hd, e, he, hover, hid, htwo, hnone, hall⟩ :
      ∃ d ∈ (run handle residueGenesis deliveredRun).dealer.dkg,
      ∃ e ∈ (deliver handle (run handle residueGenesis deliveredRun)
        finalizeEpochMsg).dealer.epoch,
      (deliver handle (run handle residueGenesis deliveredRun)
        finalizeEpochMsg).dealer.dkg = none ∧ e.epochId = d.epochId ∧
      e.members.length = 2 ∧ e.slashed = [] ∧
      ∀ m ∈ d.members, ∀ r ∈ d.members, m.validator ≠ r.validator →
        OnChain d m.validator r.validator r.index := by
    decide +kernel
  rw [deliver_of_ok hok] at he hover
  have hfinal : Finalises (run handle residueGenesis deliveredRun) c' d e :=
    ⟨hd, he, hover, hid⟩
  refine ⟨c', d, e, hok, hfinal, htwo, hnone, ?_⟩
  apply (shares_delivered_iff residueEnv (0 : Nat) () residueParams deliveredRun hok
    hfinal).1.mpr
  intro m hm r hr hdiffer _ _
  exact hall m hm r hr hdiffer

end OnChainPoker.Dealer
