import OnChainPoker.Dealer.BeaconPenalties

/-!
# What fixes the value of a beacon

Once the commit window is closed a validator can only open the commit that is stored for
it.  So the value that `BeginEpoch` draws from a window depends on who reveals, and on
nothing else: neither on the order of the reveals nor on any other message.
-/

namespace OnChainPoker.Dealer

open Foundation Crypto
open Poker (Block)

variable {env : Env} {rand : Randomness env} {bs bs' bs₁ bs₂ : BeaconState} {names : List String}
  {value : Bytes} {c c' : Chain (env.withBeacon rand)} {m : FullMsg env}

/-- A commit fixes its salt: among the texts of commits of one validator for one epoch the
hash has no collision. -/
def BindsSalts (rand : Randomness env) : Prop :=
  ∀ validator epochID salt salt' commit,
    Committee.commit rand.sha256 validator epochID salt = .ok commit →
    Committee.commit rand.sha256 validator epochID salt' = .ok commit → salt = salt'

def AfterCommits (bs : BeaconState) (c : Chain (env.withBeacon rand)) (m : FullMsg env) :
    Prop :=
  (∀ block msg, m = .beacon block msg → bs.commitCloseHeight < block.height) ∧
    ¬ OpensWindow c m

def recordReveal (_ : Chain (env.withBeacon rand)) :
    FullMsg env → List String → List String
  | .beacon _ (.beaconReveal req), names => req.validator :: names
  | _, names => names

def revealers (c : Chain (env.withBeacon rand)) (messages : List (FullMsg env)) :
    List String :=
  (run (withHistory handleFull recordReveal) (c, []) messages).2

/-! ## The window after the end of its commit window -/

def OpensCommit (rand : Randomness env) (bs : BeaconState) (r : BeaconRevealEntry) : Prop :=
  ∃ row, bs.commits.find? (·.validator = r.validator) = some row ∧
    Committee.commit rand.sha256 r.validator bs.epochId r.salt = .ok row.commit

structure Continues (rand : Randomness env) (bs : BeaconState) (names : List String)
    (bs' : BeaconState) : Prop where
  epochId : bs'.epochId = bs.epochId
  commitClose : bs'.commitCloseHeight = bs.commitCloseHeight
  commits : bs'.commits = bs.commits
  kept : ∀ r ∈ bs.reveals, r ∈ bs'.reveals
  named : ∀ v ∈ names, ∃ r ∈ bs'.reveals, r.validator = v
  rows : ∀ r ∈ bs'.reveals, r ∈ bs.reveals ∨ r.validator ∈ names ∧ OpensCommit rand bs r

theorem Continues.step (hcont : Continues rand bs names bs') (hsound : DealerSound c.dealer)
    (hok : handleFull c m = .ok c') (hafter : AfterCommits bs c m)
    (hbs' : c.dealer.beacon = some bs') :
    ∃ bs'', c'.dealer.beacon = some bs'' ∧ Continues rand bs (recordReveal c m names) bs'' := by
  by_cases hbeacon : ∃ block msg, m = .beacon block msg
  · obtain ⟨block, msg, rfl⟩ := hbeacon
    have hlate := hafter.1 block msg rfl
    simp only [handleFull, ok_iff] at hok
    obtain ⟨dealer, hdealer, rfl⟩ := hok
    cases handleBeacon_handled hdealer with
    | idle => exact ⟨bs', hbs', hcont⟩
    | autoOpened _ =>
      rw [OpensWindow.auto_eq hafter.2 hdealer] at hbs'
      exact ⟨bs', hbs', hcont⟩
    | opened _ => exact absurd trivial hafter.2
    | committed hstored _ _ _ _ hclose =>
      cases hbs'.symm.trans hstored
      rw [hcont.commitClose] at hclose
      omega
    | @revealed req stored account row hstored _ _ _ _ _ _ hrow _ hcommit =>
      cases hbs'.symm.trans hstored
      refine ⟨_, rfl, hcont.epochId, hcont.commitClose, hcont.commits,
        fun r hr => ?_, fun v hv => ?_, fun r hr => ?_⟩
      · exact mem_sortSlice.mpr (List.mem_append_left _ (hcont.kept r hr))
      · rcases List.mem_cons.mp hv with rfl | hold
        · exact ⟨⟨req.validator, req.salt⟩, mem_sortSlice.mpr (by simp), rfl⟩
        · obtain ⟨r, hr, hname⟩ := hcont.named v hold
          exact ⟨r, mem_sortSlice.mpr (List.mem_append_left _ hr), hname⟩
      · rcases List.mem_append.mp (mem_sortSlice.mp hr) with hold | hnew
        · exact (hcont.rows r hold).imp_right fun h => ⟨List.mem_cons_of_mem _ h.1, h.2⟩
        · rw [List.mem_singleton] at hnew
          subst hnew
          rw [hcont.commits] at hrow
          rw [hcont.epochId] at hcommit
          exact .inr ⟨List.mem_cons_self, row, hrow, hcommit⟩
  · push Not at hbeacon
    have hnames : recordReveal c m names = names := by
      unfold recordReveal
      split
      · exact absurd rfl (hbeacon _ _)
      · rfl
    rw [hnames]
    rcases handleFull_other hsound hok hbeacon with
      ⟨hsame, -⟩ | ⟨-, stored, value, fallback, hstored, -, hnew, -⟩
    · exact ⟨bs', hsame.trans hbs', hcont⟩
    · cases hbs'.symm.trans hstored
      exact ⟨_, hnew, hcont.epochId, hcont.commitClose, hcont.commits,
        hcont.kept, hcont.named, hcont.rows⟩

theorem Continues.run {balances : env.poker.bank.Balances}
    {staking : env.staking.Staking} {params : Params} {log messages : List (FullMsg env)}
    (hreach : Reaches handleFull (fullGenesis rand balances staking params) log c)
    (hbs : c.dealer.beacon = some bs)
    (hmeet : AcceptedMeet handleFull (AfterCommits bs) c messages) :
    ∃ bs', (Foundation.run handleFull c messages).dealer.beacon = some bs' ∧
      Continues rand bs (revealers c messages) bs' := by
  have hinv := run_invariant_of_steps (fun s : Chain (env.withBeacon rand) × List String =>
      (∃ log, Reaches handleFull (fullGenesis rand balances staking params) log s.1) ∧
        ∃ bs', s.1.dealer.beacon = some bs' ∧ Continues rand bs s.2 bs')
    (StepsMeet.withHistory hmeet recordReveal []) ?_ ?_
  · rw [run_withHistory] at hinv
    exact hinv.2
  · exact ⟨⟨log, hreach⟩, bs, hbs, rfl, rfl, rfl, fun r hr => hr,
      fun v hv => (List.not_mem_nil hv).elim, fun r hr => .inl hr⟩
  · rintro s m s' hallowed ⟨⟨log, hlog⟩, bs', hbs', hcont⟩ hok
    obtain ⟨hok, hrecord⟩ := withHistory_ok hok
    refine ⟨⟨_, hlog.step hok⟩, ?_⟩
    rw [hrecord]
    exact hcont.step (reachable_fullSound hlog) hok (hallowed (by rw [hok]; rfl)) hbs'

/-! ## Equal reveals -/

theorem Continues.subset {names₁ names₂ : List String} (hbinds : BindsSalts rand)
    (hdistinct : (bs₁.reveals.map BeaconRevealEntry.validator).Nodup)
    (hfirst : Continues rand bs names₁ bs₁) (hsecond : Continues rand bs names₂ bs₂)
    (hnames : ∀ v ∈ names₁, v ∈ names₂) : bs₁.reveals ⊆ bs₂.reveals := by
  intro r hr
  rcases hfirst.rows r hr with hold | ⟨hname, row, hrow, hopens⟩
  · exact hsecond.kept r hold
  · obtain ⟨r', hr', hsame⟩ := hsecond.named _ (hnames _ hname)
    have heq : r = r' := by
      rcases hsecond.rows r' hr' with hold | ⟨-, row', hrow', hopens'⟩
      · exact List.inj_on_of_nodup_map hdistinct hr (hfirst.kept r' hold) hsame.symm
      · rw [hsame] at hrow' hopens'
        cases hrow.symm.trans hrow'
        obtain ⟨validator, salt⟩ := r
        obtain ⟨validator', salt'⟩ := r'
        cases hsame
        cases hbinds _ _ _ _ _ hopens hopens'
        rfl
    rwa [heq]

theorem consumed_value (hprod : Committee.isDevnetChainID rand.chainId = false) {params : Params}
    {block : Block} {s s' : env.staking.withBeacon.Staking} (hbs : s.2 = some bs)
    (hok : consumeBeaconForEpoch rand params block bs.epochId s = .ok (value, s')) :
    value = Committee.hashDomain rand.sha256 "ocp/v1/beacon/final"
      [stringBytes rand.chainId, u64le bs.epochId, (sortSlice (fun a b => decide (a < b))
          (bs.reveals.map BeaconRevealEntry.salt)).flatMap lenBytes] := by
  rcases consumeBeaconForEpoch_ok hok with ⟨-, hother⟩ | ⟨stored, hstored, -, hconsumed⟩
  · exact absurd rfl (hother bs hbs)
  · cases hbs.symm.trans hstored
    obtain ⟨-, -, hnew, -⟩ := consumeBeacon_production hprod hconsumed
    obtain ⟨-, fallback, hnew', hfinal⟩ := consumeBeacon_ok hconsumed
    cases hnew.symm.trans hnew'
    exact (final_ok (hfinal rfl)).2

/-- After every run of a production chain: two continuations from the end of the commit
window in which the same validators reveal draw the same value from the window; an
accepted reveal opens a commit of the commit window; and a window consumed by `BeginEpoch`
is of a later epoch than every one consumed before. -/
theorem beacon_value_fixed (env : Env) (rand : Randomness env)
    (balances : env.poker.bank.Balances) (staking : env.staking.Staking) (params : Params)
    (messages : List (FullMsg env)) {c : Chain (env.withBeacon rand)}
    (hprod : Committee.isDevnetChainID rand.chainId = false) (hbinds : BindsSalts rand)
    (hc : run handleFull (fullGenesis rand balances staking params) messages = c) :
    (∀ bs first second, c.dealer.beacon = some bs →
      AcceptedMeet handleFull (AfterCommits bs) c first →
      AcceptedMeet handleFull (AfterCommits bs) c second →
      (∀ v, v ∈ revealers c first ↔ v ∈ revealers c second) →
      ∀ params₁ block₁ value₁ s₁ params₂ block₂ value₂ s₂,
        consumeBeaconForEpoch rand params₁ block₁ bs.epochId
          (run handleFull c first).dealer.staking = .ok (value₁, s₁) →
        consumeBeaconForEpoch rand params₂ block₂ bs.epochId
          (run handleFull c second).dealer.staking = .ok (value₂, s₂) →
        value₁ = value₂ ∧ value₁.length = 32) ∧
    (∀ block req c', handleFull c (.beacon block (.beaconReveal req)) = .ok c' →
      ∃ bs commit account, c.dealer.beacon = some bs ∧ req.epochId = bs.epochId ∧
        CommittedTo (fullGenesis rand balances staking params)
          (accepted handleFull (fullGenesis rand balances staking params) messages) bs
          ⟨req.validator, commit⟩ account ∧
        Committee.commit rand.sha256 req.validator bs.epochId req.salt = .ok commit) ∧
    ∀ block req c', handleFull c (.dkg block (.beginEpoch req)) = .ok c' →
      ∃ bs value, c.dealer.beacon = some bs ∧
        consumeBeaconForEpoch rand c.dealer.params block bs.epochId c.dealer.staking =
          .ok (value, c'.dealer.staking) ∧
        ∀ later block' req' c'', handleFull (run handleFull c' later)
            (.dkg block' (.beginEpoch req')) = .ok c'' →
          ∃ bs', (run handleFull c' later).dealer.beacon = some bs' ∧
            bs.epochId < bs'.epochId := by
  have hreach : Reaches handleFull (fullGenesis rand balances staking params) _ c :=
    hc ▸ reaches_run messages
  refine ⟨?_, ?_, ?_⟩
  · intro bs first second hbs hfirst hsecond hsame _ _ value₁ _ _ _ value₂ _ hvalue₁ hvalue₂
    obtain ⟨bs₁, hbs₁, hcont₁⟩ := Continues.run hreach hbs hfirst
    obtain ⟨bs₂, hbs₂, hcont₂⟩ := Continues.run hreach hbs hsecond
    have hvalid₁ := reachable_beaconValid (hreach.run first) bs₁ hbs₁
    have hvalid₂ := reachable_beaconValid (hreach.run second) bs₂ hbs₂
    have hperm : bs₁.reveals.Perm bs₂.reveals :=
      (List.perm_ext_iff_of_nodup hvalid₁.distinct.of_map hvalid₂.distinct.of_map).mpr
        fun r => ⟨fun hr => hcont₁.subset hbinds hvalid₁.distinct hcont₂
            (fun v => (hsame v).mp) hr,
          fun hr => hcont₂.subset hbinds hvalid₂.distinct hcont₁ (fun v => (hsame v).mpr) hr⟩
    rw [← hcont₁.epochId] at hvalue₁
    rw [← hcont₂.epochId] at hvalue₂
    cases consumed_value hprod hbs₁ hvalue₁
    cases consumed_value hprod hbs₂ hvalue₂
    refine ⟨?_, rand.sha256_length _⟩
    have hsalts : sortSlice (fun a b => decide (a < b)) (bs₁.reveals.map (·.salt)) =
        sortSlice (fun a b => decide (a < b)) (bs₂.reveals.map (·.salt)) :=
      sortSlice_eq_of_perm (fun a b => (List.le_total a b).imp decide_eq_false decide_eq_false)
        (fun a b c hab hbc => decide_eq_false
          (List.le_trans (of_decide_eq_false hab) (of_decide_eq_false hbc))) (hperm.map _)
        fun a _ b _ hab hba =>
          List.le_antisymm (of_decide_eq_false hab) (of_decide_eq_false hba)
    rw [hsalts, hcont₁.epochId, hcont₂.epochId]
  · intro block req c' hok
    simp only [handleFull, ok_iff] at hok
    obtain ⟨dealer, hdealer, rfl⟩ := hok
    cases handleBeacon_handled hdealer with
    | @revealed _ bs _ row hbs _ _ _ hid _ _ hrow _ hcommit =>
      have hname : row.validator = req.validator := by simpa using List.find?_some hrow
      obtain ⟨account, -, hcommitted⟩ := (reachable_beaconValid hreach bs hbs).commits row
        (List.mem_of_find?_eq_some hrow)
      exact ⟨bs, row.commit, account, hbs, hid, hname ▸ hcommitted, hcommit⟩
  · intro block req c' hok
    obtain ⟨bs, value, hbs, hid, hnext, hvalue⟩ := beginEpoch_consumes hprod hok
    refine ⟨bs, value, hbs, hvalue, fun later block' req' c'' hok' => ?_⟩
    obtain ⟨bs', _, hbs', hid', -, -⟩ := beginEpoch_consumes hprod hok'
    have hlater := (reaches_nextEpochId (reachable_fullSound (hreach.step hok))
      (reaches_run later)).2
    exact ⟨bs', hbs', by omega⟩

theorem threeRandomness_bindsSalts : BindsSalts threeRandomness := by
  have hsalt : ∀ {validator : String} {epochID : Nat} {salt commit : Bytes},
      Committee.commit threeRandomness.sha256 validator epochID salt = .ok commit →
      commit = salt.reverse := by
    intro validator epochID salt commit hok
    have hlength := committee_commit_salt hok
    simp only [Committee.commit, ok_iff] at hok
    obtain ⟨-, -, -, -, rfl⟩ := hok
    change ((_ ++ List.flatMap lenBytes _).reverse ++ _).take 32 = _
    simp only [List.flatMap_cons, List.flatMap_nil, lenBytes, List.reverse_append,
      List.append_assoc, List.nil_append, List.reverse_nil]
    exact List.take_left' (by rw [List.length_reverse, hlength]; rfl)
  intro validator epochID salt salt' commit hok hok'
  exact List.reverse_injective ((hsalt hok).symm.trans (hsalt hok'))

def revealBoth (swap : Bool) : List (FullMsg threeEnv) :=
  (if swap then [("ocp1bbb", 2), ("ocp1aaa", 1)] else [("ocp1aaa", 1), ("ocp1bbb", 2)]).map
    fun r : String × UInt8 =>
      .beacon (threeBlock 1036006) (.beaconReveal ⟨r.1, 1, List.replicate 32 r.2⟩)

def drawnAfter (swap : Bool) :
    Except String (Bytes × threeEnv.staking.withBeacon.Staking) :=
  consumeBeaconForEpoch threeRandomness residueParams (threeBlock 1036011) 1
    (run handleFull (run handleFull threeGenesis (withheldRun []))
      (revealBoth swap)).dealer.staking

theorem revealOrders_one_value :
    ∃ value s₁ s₂, value.length = 32 ∧ drawnAfter false = .ok (value, s₁) ∧
      drawnAfter true = .ok (value, s₂) := by
  obtain ⟨hbs, hdrawn, hnames₁, hnames₂⟩ :
      (run handleFull threeGenesis (withheldRun [])).dealer.beacon =
        some (withheldBeacon []) ∧
      (∀ swap, (drawnAfter swap).isOk = true) ∧
      revealers (run handleFull threeGenesis (withheldRun [])) (revealBoth false) =
        ["ocp1bbb", "ocp1aaa"] ∧
      revealers (run handleFull threeGenesis (withheldRun [])) (revealBoth true) =
        ["ocp1aaa", "ocp1bbb"] := by
    decide +kernel
  obtain ⟨⟨value₁, s₁⟩, hvalue₁⟩ := isOk_iff.mp (hdrawn false)
  obtain ⟨⟨value₂, s₂⟩, hvalue₂⟩ := isOk_iff.mp (hdrawn true)
  have hafter : ∀ swap, AcceptedMeet handleFull (AfterCommits (withheldBeacon []))
      (run handleFull threeGenesis (withheldRun [])) (revealBoth swap) := by
    intro swap
    apply stepsMeet_of_mem
    intro m hm c _
    obtain ⟨r, -, rfl⟩ := List.mem_map.mp hm
    exact ⟨fun block msg h => by cases h; decide, id⟩
  have hrevealers : ∀ v,
      v ∈ revealers (run handleFull threeGenesis (withheldRun [])) (revealBoth false) ↔
        v ∈ revealers (run handleFull threeGenesis (withheldRun [])) (revealBoth true) := by
    intro v
    rw [hnames₁, hnames₂]
    simp [or_comm]
  obtain ⟨hsame, hlength⟩ := (beacon_value_fixed threeEnv threeRandomness (0 : Nat) ()
    residueParams (withheldRun []) (by decide +kernel) threeRandomness_bindsSalts rfl).1
    (withheldBeacon []) _ _ hbs (hafter false) (hafter true) hrevealers _ _ value₁ s₁ _ _ value₂ s₂
    hvalue₁ hvalue₂
  exact ⟨value₁, s₁, s₂, hlength, hvalue₁, hsame ▸ hvalue₂⟩

end OnChainPoker.Dealer
