import OnChainPoker.Dealer.BeaconLiveness

/-!
# What a withheld reveal costs

`BeginEpoch` penalises the validators that committed to a salt and did not reveal it when
it consumes their window.  Below the threshold it is rejected on a production chain, and
its penalties with it; from the recovery height on such a window is overwritten, and the
record of who committed is gone.
-/

namespace OnChainPoker.Dealer

open Foundation Crypto
open Poker (Block)

variable {env : Env} {rand : Randomness env} {params : Params} {block : Block}
  {staking : env.staking.Staking} {epochID : Nat} {value : Bytes} {bs : BeaconState}
  {c c' : Chain (env.withBeacon rand)} {m : FullMsg env}

/-! ## Penalties on account of a window -/

def beaconPenalties (c : Chain (env.withBeacon rand)) : FullMsg env → List String
  | .dkg block (.beginEpoch _) =>
    match c.dealer.beacon with
    | some bs =>
      if bs.epochId = c.dealer.nextEpochId ∧ bs.revealCloseHeight < block.height then
        (beaconMissingReveals bs).filter fun v =>
          (env.staking.valAddressFromBech32 v).isOk
      else []
    | none => []
  | _ => []

def OpensWindow (c : Chain (env.withBeacon rand)) : FullMsg env → Prop
  | .beacon _ (.openBeaconWindow _) => True
  | .beacon block .beginBlock =>
    (maybeAutoOpenBeacon c.dealer block).beacon ≠ c.dealer.beacon
  | _ => False

instance (c : Chain (env.withBeacon rand)) : ∀ m, Decidable (OpensWindow c m)
  | .beacon _ (.openBeaconWindow _) => isTrue trivial
  | .beacon block .beginBlock => inferInstanceAs
      (Decidable ((maybeAutoOpenBeacon c.dealer block).beacon ≠ c.dealer.beacon))
  | .beacon _ (.beaconCommit _) => isFalse id
  | .beacon _ (.beaconReveal _) => isFalse id
  | .player _ => isFalse id
  | .dkg _ _ => isFalse id
  | .hand _ _ => isFalse id
  | .otherStaking _ => isFalse id

def recordPenalties (c : Chain (env.withBeacon rand)) (m : FullMsg env)
    (made : List String) : List String :=
  if OpensWindow c m then [] else made ++ beaconPenalties c m

def windowPenalties (genesis : Chain (env.withBeacon rand))
    (messages : List (FullMsg env)) : List String :=
  (run (withHistory handleFull recordPenalties) (genesis, []) messages).2

def EndsWindow (c : Chain (env.withBeacon rand)) (m : FullMsg env)
    (c' : Chain (env.withBeacon rand)) (bs : BeaconState) : Prop :=
  OpensWindow c m ∨ ∃ value fallback, value ≠ [] ∧
    c'.dealer.beacon = some { bs with final := value, fallback := fallback }

def Withholds (env : Env) (bs : BeaconState) (account : env.staking.ValAddr) : Prop :=
  (∃ row ∈ bs.commits, env.staking.valAddressFromBech32 row.validator = .ok account) ∧
    ∀ r ∈ bs.reveals, env.staking.valAddressFromBech32 r.validator ≠ .ok account

open Classical in
noncomputable def namesOf (env : Env) (account : env.staking.ValAddr)
    (names : List String) : Nat :=
  names.countP fun v => env.staking.valAddressFromBech32 v = .ok account

/-! ## The penalties are made -/

theorem penaliseMissingReveals_calls (epochID : Nat)
    {staking staking' : env.staking.Staking} {names : List String}
    (hok : penaliseMissingReveals rand params block staking names = .ok staking') :
    ∃ calls : List PenaltyCall, calls.map PenaltyCall.validator =
        names.filter (fun v => (env.staking.valAddressFromBech32 v).isOk) ∧
      calls.foldlM (PenaltyCall.apply env.staking) staking = .ok staking' := by
  induction names generalizing staking with
  | nil => exact ⟨[], rfl, by cases hok; rfl⟩
  | cons v rest ih =>
    unfold penaliseMissingReveals at hok
    cases hdecode : env.staking.valAddressFromBech32 v with
    | error err =>
      simp only [hdecode] at hok
      obtain ⟨calls, hnames, hmade⟩ := ih hok
      refine ⟨calls, ?_, hmade⟩
      rw [hnames, List.filter_cons_of_neg]
      simp [hdecode, Except.isOk, Except.toBool]
    | ok account =>
      simp only [hdecode, ok_iff] at hok
      obtain ⟨middle, hcall, hrest⟩ := hok
      obtain ⟨calls, hnames, hmade⟩ := ih hrest
      refine ⟨⟨epochID, v, block.height, rand.consensusPower staking account,
        params.slashBpsDkg, params.jailSecondsDkg, block.unix⟩ :: calls, ?_, ?_⟩
      · rw [List.map_cons, hnames, List.filter_cons_of_pos]
        simp [hdecode, Except.isOk, Except.toBool]
      · rw [List.foldlM_cons, PenaltyCall.apply, hcall]
        exact hmade

theorem hashDomain_ne_nil (rand : Randomness env) (domain : String) (parts : List Bytes) :
    Committee.hashDomain rand.sha256 domain parts ≠ [] := by
  intro hnil
  have hlength := rand.sha256_length (stringBytes domain ++ parts.flatMap lenBytes)
  unfold Committee.hashDomain at hnil
  rw [hnil] at hlength
  cases hlength

theorem consumeBeacon_production (hprod : Committee.isDevnetChainID rand.chainId = false)
    {s' : env.staking.withBeacon.Staking}
    (hok : consumeBeacon rand params block staking bs = .ok (value, s')) :
    value ≠ [] ∧ bs.threshold ≤ bs.reveals.length ∧
      s'.2 = some { bs with final := value, fallback := false } ∧
      penaliseMissingReveals rand params block staking (beaconMissingReveals bs) = .ok s'.1 := by
  simp only [consumeBeacon, ok_iff] at hok
  obtain ⟨-, -, penalised, hpenalised, result, hfinal, hrest⟩ := hok
  cases result with
  | some final =>
    cases hrest
    obtain ⟨henough, rfl⟩ := final_ok hfinal
    exact ⟨hashDomain_ne_nil rand _ _, henough, rfl, hpenalised⟩
  | none =>
    simp only [hprod, rejectIf, if_true] at hrest
    cases hrest

inductive WindowAtBegin (c : Chain (env.withBeacon rand)) (m : FullMsg env)
    (c' : Chain (env.withBeacon rand)) : Prop
  | consumed {bs : BeaconState} {value : Bytes} : c.dealer.beacon = some bs →
      bs.epochId = c.dealer.nextEpochId → value ≠ [] →
      bs.threshold ≤ bs.reveals.length →
      c'.dealer.beacon = some { bs with final := value, fallback := false } →
      beaconPenalties c m = (beaconMissingReveals bs).filter
        (fun v => (env.staking.valAddressFromBech32 v).isOk) →
      (∃ calls : List PenaltyCall,
        calls.map PenaltyCall.validator = beaconPenalties c m ∧
        calls.foldlM (PenaltyCall.apply env.staking) c.dealer.staking.1 =
          .ok c'.dealer.staking.1) → WindowAtBegin c m c'

variable {req : MsgBeginEpoch} {log : List (FullMsg env)}

section

variable (hprod : Committee.isDevnetChainID rand.chainId = false)
  (hok : handleFull c (.dkg block (.beginEpoch req)) = .ok c')
include hprod hok

theorem beginEpoch_consumes :
    ∃ bs value, c.dealer.beacon = some bs ∧ bs.epochId = c.dealer.nextEpochId ∧
      c'.dealer.nextEpochId = c.dealer.nextEpochId + 1 ∧
      consumeBeaconForEpoch rand c.dealer.params block bs.epochId c.dealer.staking =
        .ok (value, c'.dealer.staking) := by
  simp only [handleFull, handle, handleDkg, ok_iff] at hok
  obtain ⟨dealer, hdealer, rfl⟩ := hok
  obtain ⟨hnext, value, hdrawn⟩ := beginEpoch_draws hdealer
  have hselect : selectRandEpoch rand c.dealer.staking c.dealer.params block
      c.dealer.nextEpochId req.randEpoch = .ok (value, dealer.staking) := hdrawn
  simp only [selectRandEpoch, hprod, rejectIf, if_true] at hselect
  split at hselect
  · rename_i hmatch
    rw [Option.any_eq_true] at hmatch
    obtain ⟨bs, hbs, hdue⟩ := hmatch
    have hid : bs.epochId = c.dealer.nextEpochId := (of_decide_eq_true hdue).1
    exact ⟨bs, value, hbs, hid, hnext, hid ▸ hselect⟩
  · cases hselect

theorem beginEpoch_window : WindowAtBegin c (.dkg block (.beginEpoch req)) c' := by
  obtain ⟨bs, value, hbs, hid, -, hdrawn⟩ := beginEpoch_consumes hprod hok
  rcases consumeBeaconForEpoch_ok hdrawn with ⟨-, hother⟩ | ⟨stored, hstored, -, hconsumed⟩
  · exact absurd rfl (hother bs hbs)
  · cases hbs.symm.trans hstored
    have hclosed := (consumeBeacon_ok hconsumed).1
    obtain ⟨hvalue, henough, hnew, hpenalised⟩ := consumeBeacon_production hprod hconsumed
    have hpenalties : beaconPenalties c (.dkg block (.beginEpoch req)) =
        (beaconMissingReveals bs).filter (fun v => (env.staking.valAddressFromBech32 v).isOk) := by
      simp [beaconPenalties, hbs, hid, hclosed]
    refine .consumed hbs hid hvalue henough hnew hpenalties ?_
    rw [hpenalties]
    exact penaliseMissingReveals_calls bs.epochId hpenalised

end

/-! ## Opening -/

theorem BeaconState.below_of_free (hbs : c.dealer.beacon = some bs) (hopen : bs.final = [])
    (hfree : c.dealer.beacon.any (·.blocksOpening block.height) = false) :
    bs.reveals.length < bs.threshold := by
  rw [hbs, Option.any_some, BeaconState.blocksOpening, ← Bool.not_eq_true] at hfree
  by_contra henough
  apply hfree
  simp [hopen, not_lt.mp henough]

theorem OpensWindow.auto_eq {dealer : State (env.withBeacon rand)}
    (hopens : ¬ OpensWindow c (.beacon block .beginBlock))
    (hok : handleBeacon c.dealer block .beginBlock = .ok dealer) :
    c.dealer.beacon = dealer.beacon := by
  simp only [handleBeacon, pure_ok_iff] at hok
  rw [← hok]
  exact (not_not.mp hopens).symm

theorem OpensWindow.below (hopens : OpensWindow c m) (hok : handleFull c m = .ok c')
    (hbs : c.dealer.beacon = some bs) (hopen : bs.final = []) :
    bs.reveals.length < bs.threshold := by
  cases m with
  | beacon block msg =>
    simp only [handleFull, ok_iff] at hok
    obtain ⟨dealer, hdealer, -⟩ := hok
    cases handleBeacon_handled hdealer with
    | idle =>
      simp only [handleBeacon, pure_ok_iff] at hdealer
      exact absurd (congrArg State.beacon hdealer) hopens
    | autoOpened hfree | opened hfree => exact BeaconState.below_of_free hbs hopen hfree
    | committed | revealed => exact hopens.elim
  | player msg | dkg block msg | hand block msg | otherStaking staking => exact hopens.elim

theorem OpensWindow.beaconPenalties_eq (hopens : OpensWindow c m) : beaconPenalties c m = [] := by
  cases m with
  | dkg block msg => exact hopens.elim
  | _ => rfl

/-! ## Windows that are not consumed -/

def Unpunished (s : Chain (env.withBeacon rand) × List String) : Prop :=
  ∀ bs, s.1.dealer.beacon = some bs → bs.final = [] → s.2 = []

theorem beaconPenalties_of_ne (hm : ∀ block req, m ≠ .dkg block (.beginEpoch req)) :
    beaconPenalties c m = [] := by
  unfold beaconPenalties
  split
  · exact absurd rfl (hm _ _)
  · rfl

theorem final_kept (hsound : DealerSound c.dealer) (hok : handleFull c m = .ok c')
    (hopens : ¬ OpensWindow c m) (hbegin : ∀ block req, m ≠ .dkg block (.beginEpoch req))
    {bs' : BeaconState} (hbs' : c'.dealer.beacon = some bs') :
    ∃ bs, c.dealer.beacon = some bs ∧ bs.final = bs'.final := by
  by_cases hbeacon : ∃ block msg, m = .beacon block msg
  · obtain ⟨block, msg, rfl⟩ := hbeacon
    simp only [handleFull, ok_iff] at hok
    obtain ⟨dealer, hdealer, rfl⟩ := hok
    cases handleBeacon_handled hdealer with
    | idle => exact ⟨bs', hbs', rfl⟩
    | autoOpened _ =>
      rw [← OpensWindow.auto_eq hopens hdealer] at hbs'
      exact ⟨bs', hbs', rfl⟩
    | opened _ => exact absurd trivial hopens
    | committed hbs | revealed hbs =>
      cases hbs'
      exact ⟨_, hbs, rfl⟩
  · push Not at hbeacon
    rcases handleFull_other hsound hok hbeacon with ⟨hsame, -⟩ | ⟨⟨block, req, rfl⟩, -⟩
    · exact ⟨bs', hsame ▸ hbs', rfl⟩
    · exact absurd rfl (hbegin block req)

section

variable (hprod : Committee.isDevnetChainID rand.chainId = false)
include hprod

theorem Unpunished.step {made : List String} (hsound : DealerSound c.dealer)
    (hnone : Unpunished (c, made)) (hok : handleFull c m = .ok c') :
    Unpunished (c', recordPenalties c m made) := by
  intro bs' hbs' hopen
  by_cases hopens : OpensWindow c m
  · exact if_pos hopens
  · simp only [recordPenalties, if_neg hopens, List.append_eq_nil_iff]
    by_cases hbegin : ∃ block req, m = .dkg block (.beginEpoch req)
    · obtain ⟨block, req, rfl⟩ := hbegin
      cases beginEpoch_window hprod hok with
      | consumed _ _ hvalue _ hnew _ _ =>
        cases hnew.symm.trans hbs'
        exact absurd hopen hvalue
    · push Not at hbegin
      obtain ⟨bs, hbs, hfinal⟩ := final_kept hsound hok hopens hbegin hbs'
      exact ⟨hnone bs hbs (hfinal.trans hopen), beaconPenalties_of_ne hbegin⟩

theorem reachable_unpunished {balances : env.poker.bank.Balances}
    {s : Chain (env.withBeacon rand) × List String}
    (hreach : Reaches (withHistory handleFull recordPenalties)
      (fullGenesis rand balances staking params, []) log s) :
    DealerSound s.1.dealer ∧ Unpunished s := by
  induction hreach with
  | refl => exact ⟨genesis_sound _ _ _, fun bs hbs => by cases hbs⟩
  | step _ hok ih =>
    obtain ⟨hstep, hmade⟩ := withHistory_ok hok
    obtain ⟨msg, hmsg⟩ := handleFull_core hstep
    refine ⟨handle_sound ih.1 hmsg, ?_⟩
    have hnone := ih.2.step hprod ih.1 hstep
    rw [← hmade] at hnone
    exact hnone

theorem windowPenalties_unconsumed (balances : env.poker.bank.Balances)
    (staking : env.staking.Staking) (params : Params) (messages : List (FullMsg env))
    (hbs : (run handleFull (fullGenesis rand balances staking params) messages).dealer.beacon =
      some bs)
    (hopen : bs.final = []) :
    windowPenalties (fullGenesis rand balances staking params) messages = [] := by
  have hreach : Reaches (withHistory handleFull recordPenalties)
      (fullGenesis rand balances staking params, []) _ _ := reaches_run messages
  apply (reachable_unpunished hprod hreach).2 bs _ hopen
  rw [run_withHistory]
  exact hbs

end

/-! ## Counting -/

theorem mem_beaconMissingReveals {v : String} :
    v ∈ beaconMissingReveals bs ↔ v ∈ bs.commits.map BeaconCommitEntry.validator ∧
      v ∉ bs.reveals.map BeaconRevealEntry.validator := by
  simp [beaconMissingReveals]

theorem Withholds.namesOf_missing {account : env.staking.ValAddr}
    (hwithholds : Withholds env bs account) :
    namesOf env account (beaconMissingReveals bs) =
      namesOf env account (bs.commits.map BeaconCommitEntry.validator) := by
  unfold namesOf beaconMissingReveals
  rw [List.countP_filter]
  apply List.countP_congr
  intro v _
  simp only [Bool.and_eq_true, decide_eq_true_eq, and_iff_left_iff_imp]
  intro hdecodes hrevealed
  obtain ⟨r, hr, rfl⟩ := List.mem_map.mp hrevealed
  exact hwithholds.2 r hr hdecodes

theorem BeaconValid.missing_decode {genesis : Chain (env.withBeacon rand)} {next : Nat}
    (hvalid : BeaconValid genesis log next bs) :
    (beaconMissingReveals bs).filter (fun v => (env.staking.valAddressFromBech32 v).isOk) =
      beaconMissingReveals bs := by
  apply List.filter_eq_self.mpr
  intro v hv
  obtain ⟨row, hrow, rfl⟩ := List.mem_map.mp (mem_beaconMissingReveals.mp hv).1
  obtain ⟨account, haccount, -⟩ := hvalid.commits row hrow
  exact isOk_iff.mpr ⟨account, haccount⟩

/-! ## Ends of windows -/

theorem consumes_of_final (hprod : Committee.isDevnetChainID rand.chainId = false)
    (hsound : DealerSound c.dealer) (hok : handleFull c m = .ok c')
    (hopens : ¬ OpensWindow c m) {fallback : Bool} (hbs : c.dealer.beacon = some bs)
    (hopen : bs.final = []) (hvalue : value ≠ [])
    (hnew : c'.dealer.beacon = some { bs with final := value, fallback := fallback }) :
    bs.threshold ≤ bs.reveals.length ∧ beaconPenalties c m =
      (beaconMissingReveals bs).filter fun v => (env.staking.valAddressFromBech32 v).isOk := by
  by_cases hbegin : ∃ block req, m = .dkg block (.beginEpoch req)
  · obtain ⟨block, req, rfl⟩ := hbegin
    cases beginEpoch_window hprod hok with
    | consumed hstored _ _ henough _ hpenalties _ =>
      cases hstored.symm.trans hbs
      exact ⟨henough, hpenalties⟩
  · push Not at hbegin
    obtain ⟨stored, hstored, hfinal⟩ := final_kept hsound hok hopens hbegin hnew
    cases hstored.symm.trans hbs
    exact absurd (hfinal.symm.trans hopen) hvalue

/-- In every run on a production chain, an account that withholds its reveal is penalised
exactly once by the time its window is consumed or overwritten if and only if the window
reached its threshold and the account committed under one name.  A consumed window
penalises nobody again, and what is recorded as a penalty is one. -/
theorem withheld_reveal_penalised_iff (env : Env) (rand : Randomness env)
    (balances : env.poker.bank.Balances) (staking : env.staking.Staking) (params : Params)
    (messages : List (FullMsg env))
    (hprod : Committee.isDevnetChainID rand.chainId = false) :
    let genesis := fullGenesis rand balances staking params
    let c := run handleFull genesis messages
    (∀ m c' bs account, handleFull c m = .ok c' → c.dealer.beacon = some bs →
      bs.final = [] → EndsWindow c m c' bs → Withholds env bs account →
      (namesOf env account (windowPenalties genesis messages ++ beaconPenalties c m) = 1 ↔
        bs.threshold ≤ bs.reveals.length ∧
          namesOf env account (bs.commits.map BeaconCommitEntry.validator) = 1)) ∧
    (∀ m c' bs, handleFull c m = .ok c' → c.dealer.beacon = some bs → bs.final ≠ [] →
      beaconPenalties c m = []) ∧
    ∀ m c', handleFull c m = .ok c' → beaconPenalties c m ≠ [] →
      ∃ calls : List PenaltyCall,
        calls.map PenaltyCall.validator = beaconPenalties c m ∧
        calls.foldlM (PenaltyCall.apply env.staking) c.dealer.staking.1 =
          .ok c'.dealer.staking.1 := by
  intro genesis c
  have hreach : Reaches handleFull genesis (accepted handleFull genesis messages) c :=
    reaches_run messages
  have hsound := reachable_fullSound hreach
  refine ⟨?_, ?_, ?_⟩
  · intro m c' bs account hok hbs hopen hends hwithholds
    have hbefore : windowPenalties genesis messages = [] :=
      windowPenalties_unconsumed hprod balances staking params messages hbs hopen
    rw [hbefore, List.nil_append]
    by_cases hopens : OpensWindow c m
    · have hbelow := hopens.below hok hbs hopen
      rw [hopens.beaconPenalties_eq]
      simp [namesOf, not_le.mpr hbelow]
    · obtain ⟨value, fallback, hvalue, hnew⟩ := hends.resolve_left hopens
      obtain ⟨henough, hpenalties⟩ :=
        consumes_of_final hprod hsound hok hopens hbs hopen hvalue hnew
      rw [hpenalties, (reachable_beaconValid hreach bs hbs).missing_decode,
        hwithholds.namesOf_missing, and_iff_right henough]
  · intro m c' bs hok hbs hfinal
    by_cases hbegin : ∃ block req, m = .dkg block (.beginEpoch req)
    · obtain ⟨block, req, rfl⟩ := hbegin
      cases beginEpoch_window hprod hok with
      | consumed hstored hid _ _ _ _ _ =>
        -- A consumed window is for an earlier epoch.
        cases hstored.symm.trans hbs
        exact absurd hid ((reachable_beaconValid hreach bs hbs).consumed hfinal).ne
    · push Not at hbegin
      exact beaconPenalties_of_ne hbegin
  · intro m c' hok hsome
    by_cases hbegin : ∃ block req, m = .dkg block (.beginEpoch req)
    · obtain ⟨block, req, rfl⟩ := hbegin
      cases beginEpoch_window hprod hok with
      | consumed _ _ _ _ _ _ hcalls => exact hcalls
    · push Not at hbegin
      exact absurd (beaconPenalties_of_ne hbegin) hsome

def threeEnv : Env :=
  { spellingEnv with
    staking := { spellingStaking with
      bondedValidatorsByPower := fun _ => .ok ["ocp1aaa", "ocp1bbb", "ocp1ccc"] }
    selectRandEpoch := fun staking _ _ _ randEpoch => .ok (randEpoch, staking)
    sampleBondedMemberSnapshotsByPower := fun _ _ _ k =>
      .ok ((["ocp1aaa", "ocp1bbb", "ocp1ccc"].map snapshot).take k) }

def threeRandomness : Randomness threeEnv where
  chainId := "ocp-1"
  sha256 := spellingRandomness.sha256
  sha256_length := spellingRandomness.sha256_length
  lastBlockHash := fun _ => []
  consensusPower := fun _ _ => 1
  accAddrString := fun valAddr => valAddr
  valoper_accAddr := fun valAddr acc hacc => by
    cases hacc
    rfl

def threeGenesis : Chain (threeEnv.withBeacon threeRandomness) :=
  fullGenesis threeRandomness (0 : Nat) () residueParams

def threeBlock (height : Int) : Block :=
  ⟨height, 1000, Poker.thousand_pos, Poker.thousand_le⟩

def withheldRun (revealing : List (String × UInt8)) : List (FullMsg threeEnv) :=
  [.beacon (threeBlock 1036000) (.openBeaconWindow ⟨"ocp1aaa", 1, 5, 5, 2⟩),
    .beacon (threeBlock 1036001) (.beaconCommit ⟨"ocp1aaa", 1, List.replicate 32 1⟩),
    .beacon (threeBlock 1036001) (.beaconCommit ⟨"ocp1bbb", 1, List.replicate 32 2⟩),
    .beacon (threeBlock 1036001) (.beaconCommit ⟨"ocp1ccc", 1, List.replicate 32 3⟩)] ++
  revealing.map fun r =>
    .beacon (threeBlock 1036006) (.beaconReveal ⟨r.1, 1, List.replicate 32 r.2⟩)

def withheldBeacon (revealing : List (String × UInt8)) : BeaconState :=
  ⟨1, 1036000, 1036005, 1036010, 2,
    [⟨"ocp1aaa", List.replicate 32 1⟩, ⟨"ocp1bbb", List.replicate 32 2⟩,
      ⟨"ocp1ccc", List.replicate 32 3⟩],
    revealing.map fun r => ⟨r.1, List.replicate 32 r.2⟩, [], false⟩

def nextEpochMsg : FullMsg threeEnv :=
  .dkg (threeBlock 1036011) (.beginEpoch ⟨"ocp1aaa", 1, 3, 2, [], 1, 1, 1, 1⟩)

def nextBlockMsg : FullMsg threeEnv := .beacon (threeBlock 1036011) .beginBlock

def twoReveals : List (String × UInt8) := [("ocp1aaa", 1), ("ocp1bbb", 2)]

theorem withheldRun_penalised :
    Withholds threeEnv (withheldBeacon twoReveals) "ocp1ccc" ∧
      namesOf threeEnv "ocp1ccc"
        (windowPenalties threeGenesis (withheldRun twoReveals) ++
          beaconPenalties (run handleFull threeGenesis (withheldRun twoReveals))
            nextEpochMsg) = 1 := by
  obtain ⟨hok, hbs, hvalue, hnew⟩ :
      (handleFull (run handleFull threeGenesis (withheldRun twoReveals))
        nextEpochMsg).isOk = true ∧
      (run handleFull threeGenesis (withheldRun twoReveals)).dealer.beacon =
        some (withheldBeacon twoReveals) ∧
      List.replicate 32 2 ≠ ([] : Bytes) ∧
      (deliver handleFull (run handleFull threeGenesis (withheldRun twoReveals))
        nextEpochMsg).dealer.beacon =
          some { withheldBeacon twoReveals with
            final := List.replicate 32 2, fallback := false } := by
    decide +kernel
  obtain ⟨c', hc'⟩ := isOk_iff.mp hok
  rw [deliver_of_ok hc'] at hnew
  have hdecode : threeEnv.staking.valAddressFromBech32 "ocp1ccc" = .ok "ocp1ccc" := rfl
  have hfirst : threeEnv.staking.valAddressFromBech32 "ocp1aaa" ≠ .ok "ocp1ccc" :=
    fun h => absurd (Except.ok.inj h) (by decide : ("ocp1aaa" : String) ≠ "ocp1ccc")
  have hsecond : threeEnv.staking.valAddressFromBech32 "ocp1bbb" ≠ .ok "ocp1ccc" :=
    fun h => absurd (Except.ok.inj h) (by decide : ("ocp1bbb" : String) ≠ "ocp1ccc")
  have hwithholds : Withholds threeEnv (withheldBeacon twoReveals) "ocp1ccc" := by
    constructor
    · exact ⟨⟨"ocp1ccc", List.replicate 32 3⟩, by simp [withheldBeacon], hdecode⟩
    · intro r hr
      simp only [withheldBeacon, twoReveals, List.map_cons, List.map_nil, List.mem_cons,
        List.not_mem_nil, or_false] at hr
      rcases hr with rfl | rfl
      · exact hfirst
      · exact hsecond
  refine ⟨hwithholds, ?_⟩
  have hiff := (withheld_reveal_penalised_iff threeEnv threeRandomness (0 : Nat) ()
    residueParams (withheldRun twoReveals) (by decide +kernel)).1
    nextEpochMsg c' _ "ocp1ccc" hc' hbs rfl (.inr ⟨_, _, hvalue, hnew⟩) hwithholds
  apply hiff.mpr
  refine ⟨by decide, ?_⟩
  simp [namesOf, withheldBeacon, twoReveals, hdecode, hfirst, hsecond]

/-- One salt of three is revealed: `BeginEpoch` is rejected, the next block overwrites the
window, and the two who withheld theirs are not penalised. -/
theorem withheldRun_escapes :
    (handleFull (run handleFull threeGenesis (withheldRun [("ocp1aaa", 1)]))
        nextEpochMsg).isOk = false ∧
      (handleFull (run handleFull threeGenesis (withheldRun [("ocp1aaa", 1)]))
        nextBlockMsg).isOk = true ∧
      OpensWindow (run handleFull threeGenesis (withheldRun [("ocp1aaa", 1)]))
        nextBlockMsg ∧
      (run handleFull threeGenesis (withheldRun [("ocp1aaa", 1)])).dealer.beacon =
        some (withheldBeacon [("ocp1aaa", 1)]) ∧
      beaconMissingReveals (withheldBeacon [("ocp1aaa", 1)]) = ["ocp1bbb", "ocp1ccc"] ∧
      windowPenalties threeGenesis (withheldRun [("ocp1aaa", 1)]) ++
        beaconPenalties (run handleFull threeGenesis (withheldRun [("ocp1aaa", 1)]))
          nextBlockMsg = [] := by
  decide +kernel

end OnChainPoker.Dealer
