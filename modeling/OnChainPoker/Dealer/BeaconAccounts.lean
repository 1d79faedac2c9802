import Mathlib.Data.Set.Card
import OnChainPoker.Dealer.BeaconSteps

/-!
# Whose salts a beacon holds

Every salt of a stored beacon was committed to in the commit window and revealed in the
reveal window, both times in the name of a bonded validator.  Names are compared as
texts and bonded validators as decoded addresses, so an account with two spellings can
count twice.
-/

namespace OnChainPoker.Dealer

open Foundation Crypto
open Poker (Block)

variable {env : Env} {rand : Randomness env} {genesis : Chain (env.withBeacon rand)}
  {log : List (FullMsg env)} {bs : BeaconState}

/-! ## Contributions -/

def CommittedTo (genesis : Chain (env.withBeacon rand)) (log : List (FullMsg env))
    (bs : BeaconState) (row : BeaconCommitEntry) (account : env.staking.ValAddr) : Prop :=
  ∃ c block, AcceptedAt handleFull genesis log c
      (.beacon block (.beaconCommit ⟨row.validator, bs.epochId, row.commit⟩)) ∧
    BondedAccount env c.dealer.staking.1 account ∧
    bs.commitOpenHeight ≤ block.height ∧ block.height ≤ bs.commitCloseHeight

/-- The account committed to the salt before the reveal window and revealed it there,
bonded both times. -/
structure Contributes (genesis : Chain (env.withBeacon rand)) (log : List (FullMsg env))
    (bs : BeaconState) (r : BeaconRevealEntry) (account : env.staking.ValAddr) : Prop where
  decodes : env.staking.valAddressFromBech32 r.validator = .ok account
  committed : ∃ commit, CommittedTo genesis log bs ⟨r.validator, commit⟩ account ∧
    Committee.commit rand.sha256 r.validator bs.epochId r.salt = .ok commit
  revealed : ∃ c block, AcceptedAt handleFull genesis log c
      (.beacon block (.beaconReveal ⟨r.validator, bs.epochId, r.salt⟩)) ∧
    BondedAccount env c.dealer.staking.1 account ∧
    bs.commitCloseHeight < block.height ∧ block.height ≤ bs.revealCloseHeight

def EnoughAccounts (genesis : Chain (env.withBeacon rand)) (log : List (FullMsg env))
    (bs : BeaconState) : Prop :=
  ∃ accounts : Finset env.staking.ValAddr, bs.threshold ≤ accounts.card ∧
    ∀ account ∈ accounts, ∃ r ∈ bs.reveals, Contributes genesis log bs r account

def revealAccounts (env : Env) (bs : BeaconState) : Set env.staking.ValAddr :=
  { account | ∃ r ∈ bs.reveals,
    env.staking.valAddressFromBech32 r.validator = .ok account }

/-! ## The rows of the beacon are on the log -/

structure BeaconValid (genesis : Chain (env.withBeacon rand)) (log : List (FullMsg env))
    (next : Nat) (bs : BeaconState) : Prop where
  commits : ∀ row ∈ bs.commits, ∃ account,
    env.staking.valAddressFromBech32 row.validator = .ok account ∧
      CommittedTo genesis log bs row account
  reveals : ∀ r ∈ bs.reveals, ∃ account, Contributes genesis log bs r account
  named : ∀ r ∈ bs.reveals, r.validator ≠ ""
  salts : ∀ r ∈ bs.reveals, r.salt.length = Committee.beaconSaltBytes
  distinct : (bs.reveals.map BeaconRevealEntry.validator).Nodup
  consumed : bs.final ≠ [] → bs.epochId < next

variable {account : env.staking.ValAddr} {r : BeaconRevealEntry} {next epochID : Nat}
  {sha256 : Bytes → Bytes} {c : Chain (env.withBeacon rand)} {m : FullMsg env}
  {bs' : BeaconState} {balances : env.poker.bank.Balances} {staking : env.staking.Staking}
  {params : Params} {reveals : List BeaconRevealEntry}

theorem CommittedTo.newer {row : BeaconCommitEntry}
    (h : CommittedTo genesis log bs row account) (m : FullMsg env) :
    CommittedTo genesis (m :: log) bs row account := by
  obtain ⟨c, block, hat, hbonded, hopen, hclose⟩ := h
  exact ⟨c, block, hat.newer m, hbonded, hopen, hclose⟩

theorem Contributes.newer (h : Contributes genesis log bs r account) (m : FullMsg env) :
    Contributes genesis (m :: log) bs r account := by
  obtain ⟨commit, hcommitted, hcommit⟩ := h.committed
  obtain ⟨c, block, hat, hbonded, hopen, hclose⟩ := h.revealed
  exact ⟨h.decodes, ⟨commit, hcommitted.newer m, hcommit⟩,
    ⟨c, block, hat.newer m, hbonded, hopen, hclose⟩⟩

theorem Contributes.of_rows (h : Contributes genesis log bs r account)
    (commits : List BeaconCommitEntry) (reveals : List BeaconRevealEntry) (final : Bytes)
    (fallback : Bool) :
    Contributes genesis log { bs with
      commits := commits, reveals := reveals, final := final, fallback := fallback }
      r account :=
  ⟨h.decodes, h.committed, h.revealed⟩

theorem BeaconValid.newer {next' : Nat} (h : BeaconValid genesis log next bs)
    (hnext : next ≤ next') (m : FullMsg env) :
    BeaconValid genesis (m :: log) next' bs := by
  constructor
  · intro row hrow
    obtain ⟨account, haccount, hcommitted⟩ := h.commits row hrow
    exact ⟨account, haccount, hcommitted.newer m⟩
  · intro r hr
    obtain ⟨account, hcontributes⟩ := h.reveals r hr
    exact ⟨account, hcontributes.newer m⟩
  · exact h.named
  · exact h.salts
  · exact h.distinct
  · exact fun hfinal => (h.consumed hfinal).trans_le hnext

theorem committee_commit_salt {validator : String} {salt commit : Bytes}
    (hok : Committee.commit sha256 validator epochID salt = .ok commit) :
    salt.length = Committee.beaconSaltBytes := by
  simp only [Committee.commit, ok_iff, ne_eq, not_not] at hok
  obtain ⟨-, -, -, hlength, -⟩ := hok
  exact hlength

theorem BeaconStep.valid {genesis c' : Chain (env.withBeacon rand)}
    (hstep : BeaconStep c.dealer m c'.dealer) (hreach : Reaches handleFull genesis log c)
    (hok : handleFull c m = .ok c')
    (hvalid : ∀ bs, c.dealer.beacon = some bs → BeaconValid genesis log c.dealer.nextEpochId bs)
    (hbs' : c'.dealer.beacon = some bs') :
    BeaconValid genesis (m :: log) c'.dealer.nextEpochId bs' := by
  cases hstep with
  | same hsame hnext =>
    rw [hsame] at hbs'
    exact (hvalid bs' hbs').newer hnext m
  | opened hopened hcommits hreveals hfinal _ =>
    cases hopened.symm.trans hbs'
    constructor
    · simp [hcommits]
    · simp [hreveals]
    · simp [hreveals]
    · simp [hreveals]
    · simp [hreveals]
    · exact fun hne => absurd hfinal hne
  | @committed block req bs account hm hbs haccount hbonded hepoch hopen hclose hnew
      hnext =>
      cases hnew.symm.trans hbs'
      have hold := (hvalid bs hbs).newer hnext.ge m
      refine ⟨fun row hrow => ?_, fun r hr => ?_, hold.named, hold.salts, hold.distinct,
        hold.consumed⟩
      · rw [mem_sortSlice, List.mem_append, List.mem_singleton] at hrow
        rcases hrow with hrow | rfl
        · exact hold.commits row hrow
        · refine ⟨account, haccount, c, block, ?_, hbonded, hopen, hclose⟩
          subst hm
          obtain ⟨validator, epochId, commit⟩ := req
          cases hepoch
          exact AcceptedAt.newest hreach hok
      · obtain ⟨other, hcontributes⟩ := hold.reveals r hr
        exact ⟨other, hcontributes.of_rows _ _ _ _⟩
  | @revealed block req bs account commit hm hbs hnamed haccount hbonded hepoch hopen
      hclose hrow hfresh hcommit hnew hnext =>
      cases hnew.symm.trans hbs'
      have hold := (hvalid bs hbs).newer hnext.ge m
      have hperm := sortSlice_perm
        (fun a b : BeaconRevealEntry => decide (a.validator < b.validator))
        (bs.reveals ++ [⟨req.validator, req.salt⟩])
      have hmem : ∀ r, r ∈ sortSlice
          (fun a b : BeaconRevealEntry => decide (a.validator < b.validator))
          (bs.reveals ++ [⟨req.validator, req.salt⟩]) →
          r ∈ bs.reveals ∨ r = ⟨req.validator, req.salt⟩ := by
        intro r hr
        simpa using hperm.mem_iff.mp hr
      refine ⟨hold.commits, fun r hr => ?_, fun r hr => ?_, fun r hr => ?_, ?_, hold.consumed⟩
      · rcases hmem r hr with hr | rfl
        · obtain ⟨other, hcontributes⟩ := hold.reveals r hr
          exact ⟨other, hcontributes.of_rows _ _ _ _⟩
        · obtain ⟨other, hother, hcommitted⟩ := hold.commits _ hrow
          cases haccount.symm.trans hother
          refine ⟨account, haccount, ⟨commit, hcommitted, hcommit⟩, c, block, ?_, hbonded,
            hopen, hclose⟩
          subst hm
          obtain ⟨validator, epochId, salt⟩ := req
          cases hepoch
          exact AcceptedAt.newest hreach hok
      · rcases hmem r hr with hr | rfl
        · exact hold.named r hr
        · exact hnamed
      · rcases hmem r hr with hr | rfl
        · exact hold.salts r hr
        · exact committee_commit_salt hcommit
      · apply (hperm.map BeaconRevealEntry.validator).nodup_iff.mpr
        rw [List.map_append, List.nodup_append]
        exact ⟨hold.distinct, by simp, by simpa using hfresh⟩
  | @consumed bs value fallback hbs hepoch hnew hnext =>
    cases hnew.symm.trans hbs'
    have hold := (hvalid bs hbs).newer (Nat.le_succ _) m
    refine ⟨hold.commits, fun r hr => ?_, hold.named, hold.salts, hold.distinct, fun _ => ?_⟩
    · obtain ⟨account, hcontributes⟩ := hold.reveals r hr
      exact ⟨account, hcontributes.of_rows _ _ _ _⟩
    · rw [hnext, ← hepoch]
      exact Nat.lt_succ_self _

theorem reachable_beaconValid
    (hreach : Reaches handleFull (fullGenesis rand balances staking params) log c) :
    ∀ bs, c.dealer.beacon = some bs →
      BeaconValid (fullGenesis rand balances staking params) log c.dealer.nextEpochId bs := by
  induction hreach with
  | refl => exact fun bs hbs => by cases hbs
  | step hbefore hok ih =>
    intro bs' hbs'
    have hstep := handleFull_step (reachable_fullSound hbefore) hok
    exact hstep.valid hbefore hok ih hbs'

/-! ## Counting accounts -/

theorem revealedSalts_eq {seen : List String} {salts : List Bytes}
    (hok : Committee.revealedSalts seen reveals = .ok salts) :
    salts = reveals.map BeaconRevealEntry.salt := by
  induction reveals generalizing seen salts with
  | nil =>
    cases hok
    rfl
  | cons r rest ih =>
    simp only [Committee.revealedSalts, ok_iff] at hok
    obtain ⟨-, -, -, -, -, -, salts, hrest, rfl⟩ := hok
    rw [List.map_cons, ih hrest]

theorem final_ok {chainID : String} {threshold : Nat} {value : Bytes}
    (hok : Committee.final sha256 chainID epochID reveals threshold = .ok (some value)) :
    threshold ≤ reveals.length ∧ value = Committee.hashDomain sha256 "ocp/v1/beacon/final"
        [stringBytes chainID, u64le epochID, (sortSlice (fun a b => decide (a < b))
          (reveals.map BeaconRevealEntry.salt)).flatMap lenBytes] := by
  simp only [Committee.final, ok_iff] at hok
  obtain ⟨salts, hsalts, hrest⟩ := hok
  cases revealedSalts_eq hsalts
  split at hrest
  · cases hrest
  · rename_i henough
    cases hrest
    rw [List.length_map] at henough
    exact ⟨not_lt.mp henough, rfl⟩

theorem BeaconValid.accounts (hvalid : BeaconValid genesis log next bs) :
    ∃ accounts : List env.staking.ValAddr,
      bs.reveals.map (fun r => env.staking.valAddressFromBech32 r.validator) =
        accounts.map .ok := by
  have hdecodes : ∀ r ∈ bs.reveals, ∃ account,
      env.staking.valAddressFromBech32 r.validator = .ok account := by
    intro r hr
    obtain ⟨account, hcontributes⟩ := hvalid.reveals r hr
    exact ⟨account, hcontributes.decodes⟩
  generalize bs.reveals = reveals at hdecodes
  induction reveals with
  | nil => exact ⟨[], rfl⟩
  | cons r rest ih =>
    obtain ⟨account, haccount⟩ := hdecodes r (by simp)
    obtain ⟨accounts, haccounts⟩ := ih fun r' hr' => hdecodes r' (by simp [hr'])
    exact ⟨account :: accounts, by simp [haccount, haccounts]⟩

theorem mem_revealAccounts {accounts : List env.staking.ValAddr}
    (haccounts : bs.reveals.map (fun r => env.staking.valAddressFromBech32 r.validator) =
      accounts.map .ok) (account : env.staking.ValAddr) :
    account ∈ revealAccounts env bs ↔ account ∈ accounts := by
  have hmem : (.ok account : Except String env.staking.ValAddr) ∈
      bs.reveals.map (fun r => env.staking.valAddressFromBech32 r.validator) ↔
        account ∈ accounts := by
    rw [haccounts]
    simp
  rw [← hmem, List.mem_map]
  rfl

theorem revealAccounts_finite (env : Env) (bs : BeaconState) : (revealAccounts env bs).Finite := by
  apply (List.finite_toSet (bs.reveals.filterMap fun r =>
    (env.staking.valAddressFromBech32 r.validator).toOption)).subset
  rintro account ⟨r, hr, hdecodes⟩
  apply List.mem_filterMap.mpr
  exact ⟨r, hr, by rw [hdecodes]; rfl⟩

theorem BeaconValid.enough_iff (hvalid : BeaconValid genesis log next bs) :
    EnoughAccounts genesis log bs ↔ bs.threshold ≤ (revealAccounts env bs).ncard := by
  have hfinite := revealAccounts_finite env bs
  constructor
  · rintro ⟨accounts, hcard, hall⟩
    apply hcard.trans
    rw [← Set.ncard_coe_finset]
    apply Set.ncard_le_ncard _ hfinite
    intro account haccount
    obtain ⟨r, hr, hcontributes⟩ := hall account haccount
    exact ⟨r, hr, hcontributes.decodes⟩
  · intro hcard
    refine ⟨hfinite.toFinset, ?_, fun account haccount => ?_⟩
    · rwa [← Set.ncard_eq_toFinset_card _ hfinite]
    · obtain ⟨r, hr, hdecodes⟩ := hfinite.mem_toFinset.mp haccount
      obtain ⟨other, hcontributes⟩ := hvalid.reveals r hr
      cases hdecodes.symm.trans hcontributes.decodes
      exact ⟨r, hr, hcontributes⟩

/-! ## One spelling for each account -/

/-- A reveal comes from an account that has not revealed yet, under whatever text. -/
def FreshReveal (c : Chain (env.withBeacon rand)) : FullMsg env → Prop
  | .beacon _ (.beaconReveal req) => ∀ bs, c.dealer.beacon = some bs → ∀ r ∈ bs.reveals,
      env.staking.valAddressFromBech32 r.validator ≠
        env.staking.valAddressFromBech32 req.validator
  | _ => True

def RevealsApart (env : Env) (bs : BeaconState) : Prop :=
  (bs.reveals.map fun r => env.staking.valAddressFromBech32 r.validator).Nodup

theorem BeaconStep.apart {s s' : State (env.withBeacon rand)} (hs : c.dealer = s)
    (hstep : BeaconStep s m s') (hfresh : FreshReveal c m)
    (hapart : ∀ bs, s.beacon = some bs → RevealsApart env bs)
    (hbs' : s'.beacon = some bs') : RevealsApart env bs' := by
  subst hs
  cases hstep with
  | same hsame _ =>
    rw [hsame] at hbs'
    exact hapart bs' hbs'
  | opened hopened _ hreveals _ _ =>
    cases hopened.symm.trans hbs'
    simp [RevealsApart, hreveals]
  | committed _ hbs _ _ _ _ _ hnew _ | consumed hbs _ hnew _ =>
    cases hnew.symm.trans hbs'
    have hold := hapart _ hbs
    exact hold
  | @revealed block req bs account commit hm hbs _ _ _ _ _ _ _ _ _ hnew _ =>
    cases hnew.symm.trans hbs'
    subst hm
    have hold := hapart bs hbs
    have hperm := sortSlice_perm
      (fun a b : BeaconRevealEntry => decide (a.validator < b.validator))
      (bs.reveals ++ [⟨req.validator, req.salt⟩])
    apply (hperm.map fun r => env.staking.valAddressFromBech32 r.validator).nodup_iff.mpr
    rw [List.map_append, List.nodup_append]
    refine ⟨hold, by simp, ?_⟩
    simpa using hfresh bs hbs

theorem run_revealsApart {messages : List (FullMsg env)}
    (hmeet : AcceptedMeet handleFull FreshReveal (fullGenesis rand balances staking params)
      messages) :
    ∀ bs, (run handleFull (fullGenesis rand balances staking params)
      messages).dealer.beacon = some bs → RevealsApart env bs := by
  have hinv := run_invariant_of_steps
    (fun c : Chain (env.withBeacon rand) => DealerSound c.dealer ∧
      ∀ bs, c.dealer.beacon = some bs → RevealsApart env bs) hmeet
    ⟨genesis_sound _ _ _, fun bs hbs => by cases hbs⟩ ?_
  · exact hinv.2
  · rintro c m c' hallowed ⟨hsound, hapart⟩ hok
    have hfresh := hallowed (by rw [hok]; rfl)
    obtain ⟨msg, hmsg⟩ := handleFull_core hok
    exact ⟨handle_sound hsound hmsg,
      fun bs' hbs' => (handleFull_step hsound hok).apart rfl hfresh hapart hbs'⟩

theorem ncard_revealAccounts {accounts : List env.staking.ValAddr}
    (haccounts : bs.reveals.map (fun r => env.staking.valAddressFromBech32 r.validator) =
      accounts.map .ok) (hapart : RevealsApart env bs) :
    (revealAccounts env bs).ncard = bs.reveals.length := by
  classical
  have hset : revealAccounts env bs = (accounts.toFinset : Set env.staking.ValAddr) := by
    ext account
    rw [mem_revealAccounts haccounts, Finset.mem_coe, List.mem_toFinset]
  have hnodup : accounts.Nodup := by
    unfold RevealsApart at hapart
    rw [haccounts] at hapart
    exact hapart.of_map _
  have hlength := congrArg List.length haccounts
  rw [List.length_map, List.length_map] at hlength
  rw [hset, Set.ncard_coe_finset, List.toFinset_card_of_nodup hnodup, hlength]

/-! ## Consumed beacons -/

/-- A beacon consumed without fallback holds the salts of enough accounts exactly when
enough accounts are among its reveals; it does when no account reveals twice. -/
theorem beacon_accounts_iff (env : Env) (rand : Randomness env)
    (balances : env.poker.bank.Balances) (staking : env.staking.Staking) (params : Params)
    (messages : List (FullMsg env)) (current : Params) (block : Block) (epochID : Nat)
    {value : Bytes} {staking' : env.staking.Staking} {bs : BeaconState}
    (hconsumed : consumeBeaconForEpoch rand current block epochID
      (run handleFull (fullGenesis rand balances staking params) messages).dealer.staking =
        .ok (value, staking', some bs))
    (hepoch : bs.epochId = epochID) (hfallback : bs.fallback = false) :
    let genesis := fullGenesis rand balances staking params
    let log := accepted handleFull genesis messages
    Committee.final rand.sha256 rand.chainId epochID bs.reveals bs.threshold =
        .ok (some value) ∧
      (EnoughAccounts genesis log bs ↔ bs.threshold ≤ (revealAccounts env bs).ncard) ∧
      (AcceptedMeet handleFull FreshReveal genesis messages →
        EnoughAccounts genesis log bs) := by
  intro genesis log
  have hreach : Reaches handleFull genesis log (run handleFull genesis messages) :=
    reaches_run messages
  rcases consumeBeaconForEpoch_ok hconsumed with ⟨hsame, hother⟩ | ⟨stored, hstored, hid, hok⟩
  · exact absurd hepoch (hother bs (by rw [← hsame]))
  · obtain ⟨-, fallback, hbs, hfinal⟩ := consumeBeacon_ok hok
    cases hbs
    have hvalid := reachable_beaconValid hreach stored hstored
    have hvalue := hfinal hfallback
    rw [hid] at hvalue
    have hcount : EnoughAccounts genesis log
        { stored with final := value, fallback := fallback } ↔
          EnoughAccounts genesis log stored := by
      constructor
      · rintro ⟨accounts, hcard, hall⟩
        refine ⟨accounts, hcard, fun account haccount => ?_⟩
        obtain ⟨r, hr, hcontributes⟩ := hall account haccount
        exact ⟨r, hr, hcontributes.of_rows _ _ _ _⟩
      · rintro ⟨accounts, hcard, hall⟩
        refine ⟨accounts, hcard, fun account haccount => ?_⟩
        obtain ⟨r, hr, hcontributes⟩ := hall account haccount
        exact ⟨r, hr, hcontributes.of_rows _ _ _ _⟩
    refine ⟨hvalue, ?_, fun hmeet => ?_⟩
    · rw [hcount]
      exact hvalid.enough_iff
    · rw [hcount, hvalid.enough_iff]
      obtain ⟨accounts, haccounts⟩ := hvalid.accounts
      rw [ncard_revealAccounts haccounts (run_revealsApart hmeet stored hstored)]
      exact (final_ok hvalue).1

def spellingStaking : StakingKeeper :=
  { lenientStaking with
    ValAddr := String
    valAddressFromBech32 := fun text =>
      if text.toList.all (fun ch => !ch.isUpper) ∨ text.toList.all (fun ch => !ch.isLower)
      then .ok (String.ofList (text.toList.map Char.toLower)) else .error "mixed case"
    bondedValidatorsByPower := fun _ => .ok ["ocp1aaa", "ocp1bbb"] }

def spellingEnv : Env :=
  { residueEnv with staking := spellingStaking
                    selectRandEpoch := fun staking _ _ _ randEpoch => .ok (randEpoch, staking)
                    sampleBondedMemberSnapshotsByPower := fun _ _ _ _ => .ok [] }

def spellingRandomness : Randomness spellingEnv where
  chainId := "ocp-1"
  sha256 := fun text => (text.reverse ++ List.replicate 32 0).take 32
  sha256_length := reversed_length
  lastBlockHash := fun _ => []
  consensusPower := fun _ _ => 1
  accAddrString := fun valAddr => valAddr
  valoper_accAddr := fun valAddr acc hacc => by
    cases hacc
    rfl

def spellingGenesis : Chain (spellingEnv.withBeacon spellingRandomness) :=
  fullGenesis spellingRandomness (0 : Nat) () residueParams

def beaconMsgAt (height : Int) (msg : BeaconMsg) : FullMsg spellingEnv :=
  .beacon ⟨height, 1000, Poker.thousand_pos, Poker.thousand_le⟩ msg

def twoNamesRun (first second : String) : List (FullMsg spellingEnv) :=
  [beaconMsgAt 1 (.openBeaconWindow ⟨"ocp1aaa", 1, 5, 5, 2⟩),
    beaconMsgAt 2 (.beaconCommit ⟨first, 1, List.replicate 32 1⟩),
    beaconMsgAt 2 (.beaconCommit ⟨second, 1, List.replicate 32 2⟩),
    beaconMsgAt 7 (.beaconReveal ⟨first, 1, List.replicate 32 1⟩),
    beaconMsgAt 7 (.beaconReveal ⟨second, 1, List.replicate 32 2⟩)]

def twoNamesBeacon (first second : String) : BeaconState :=
  ⟨1, 1, 6, 11, 2,
    [⟨first, List.replicate 32 1⟩, ⟨second, List.replicate 32 2⟩],
    [⟨first, List.replicate 32 1⟩, ⟨second, List.replicate 32 2⟩],
    List.replicate 32 2, false⟩

instance : DecidableEq spellingEnv.staking.withBeacon.Staking :=
  inferInstanceAs (DecidableEq (Unit × Option BeaconState))

theorem twoNamesRun_accounts :
    EnoughAccounts spellingGenesis
      (accepted handleFull spellingGenesis (twoNamesRun "ocp1aaa" "ocp1bbb"))
      (twoNamesBeacon "ocp1aaa" "ocp1bbb") := by
  have hconsumed : consumeBeaconForEpoch spellingRandomness residueParams
      ⟨12, 1000, by decide, by decide⟩ 1
      (run handleFull spellingGenesis (twoNamesRun "ocp1aaa" "ocp1bbb")).dealer.staking =
      .ok (List.replicate 32 2, (), some (twoNamesBeacon "ocp1aaa" "ocp1bbb")) := by
    decide +kernel
  obtain ⟨-, henough, -⟩ := beacon_accounts_iff spellingEnv spellingRandomness (0 : Nat) ()
    residueParams (twoNamesRun "ocp1aaa" "ocp1bbb") residueParams _ 1 hconsumed rfl rfl
  apply henough.mpr
  have htwo : ({"ocp1aaa", "ocp1bbb"} : Set String) ⊆
      revealAccounts spellingEnv (twoNamesBeacon "ocp1aaa" "ocp1bbb") := by
    rintro account (rfl | rfl)
    · exact ⟨⟨"ocp1aaa", List.replicate 32 1⟩, by simp [twoNamesBeacon], rfl⟩
    · exact ⟨⟨"ocp1bbb", List.replicate 32 2⟩, by simp [twoNamesBeacon], rfl⟩
  calc (twoNamesBeacon "ocp1aaa" "ocp1bbb").threshold
      = ({"ocp1aaa", "ocp1bbb"} : Set String).ncard := (Set.ncard_pair (by decide)).symm
    _ ≤ _ := Set.ncard_le_ncard htwo (revealAccounts_finite _ _)

theorem twoSpellings_one_account :
    consumeBeaconForEpoch spellingRandomness residueParams
        ⟨12, 1000, by decide, by decide⟩ 1
        (run handleFull spellingGenesis (twoNamesRun "OCP1AAA" "ocp1aaa")).dealer.staking =
        .ok (List.replicate 32 2, (), some (twoNamesBeacon "OCP1AAA" "ocp1aaa")) ∧
      ¬ EnoughAccounts spellingGenesis
        (accepted handleFull spellingGenesis (twoNamesRun "OCP1AAA" "ocp1aaa"))
        (twoNamesBeacon "OCP1AAA" "ocp1aaa") := by
  refine ⟨by decide +kernel, ?_⟩
  rintro ⟨accounts, hcard, hall⟩
  have hone : accounts ⊆ {("ocp1aaa" : String)} := by
    intro account haccount
    obtain ⟨r, hr, hcontributes⟩ := hall account haccount
    have hdecodes : spellingEnv.staking.valAddressFromBech32 r.validator =
        .ok "ocp1aaa" := by
      simp only [twoNamesBeacon, List.mem_cons, List.not_mem_nil, or_false] at hr
      rcases hr with rfl | rfl
      · rfl
      · rfl
    cases hdecodes.symm.trans hcontributes.decodes
    exact Finset.mem_singleton_self _
  have htwo : 2 ≤ accounts.card := hcard
  have hle : accounts.card ≤ 1 :=
    (Finset.card_le_card hone).trans (Finset.card_singleton _).le
  omega

end OnChainPoker.Dealer
