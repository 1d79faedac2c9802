import OnChainPoker.Dealer.DkgRecord

/-!
# Who is slashed in a DKG

While a DKG is in flight a member is slashed for a missing commit or by a
complaint that convicts it.  When the DKG is turned into an epoch, every dealer
that a complaint names and no revealed share clears is slashed as well.  In
version two nothing is ever revealed, so there a complaint of any kind, a
spurious one included, slashes the dealer it names.
-/

namespace OnChainPoker.Dealer

open Foundation Crypto
open Poker (Block)

variable {env : Env} {s : State env} {d : DealerDKG} {v : String} {S : Suite} {params : Params}
  {clock height : Int} {c c' : Chain env} {msg : Msg env}

/-! ## The clock -/

def recordHeight (_ : Chain env) : Msg env → Int → Int
  | .dkg block _, _ => block.height
  | _, clock => clock

def handleAt : Chain env × Int → Msg env → Except Err (Chain env × Int) :=
  withHistory handle recordHeight

def HeightsGrow (s : Chain env × Int) : Msg env → Prop
  | .dkg block _ => s.2 ≤ block.height
  | _ => True

instance (s : Chain env × Int) : ∀ msg, Decidable (HeightsGrow s msg)
  | .dkg block _ => inferInstanceAs (Decidable (s.2 ≤ block.height))
  | .player _ => isTrue trivial
  | .hand _ _ => isTrue trivial
  | .otherStaking _ => isTrue trivial

/-! ## Reasons for a slash -/

def Convicted (d : DealerDKG) (v : String) : Prop :=
  ∃ row ∈ d.complaints, v ∈ guiltyOf row.kind row.complainer row.dealer

def Accused (d : DealerDKG) (v : String) : Prop := ∃ row ∈ d.complaints, row.dealer = v

def FiledSpurious (d : DealerDKG) (v : String) : Prop :=
  ∃ row ∈ d.complaints, row.complainer = v ∧ row.kind = .aeadSpurious

instance (d : DealerDKG) (v : String) : Decidable (FiledSpurious d v) :=
  inferInstanceAs (Decidable (∃ row ∈ d.complaints, _ ∧ _))

structure Accounted (d : DealerDKG) (clock : Int) : Prop where
  reason : ∀ v ∈ d.slashed,
    Convicted d v ∨ findDKGCommit d v = none ∧ d.commitDeadline < clock
  convicted : ∀ v, Convicted d v → v ∈ d.slashed

theorem FreshDkg.accounted (hfresh : FreshDkg env s d) (clock : Int) : Accounted d clock := by
  constructor
  · simp [hfresh.slashed]
  · simp [Convicted, hfresh.complaints]

theorem convicted_addComplaint {complainer dealer v : String} {kind : ComplaintKind}
    {shareMsg : Bytes} :
    Convicted (addComplaint d complainer dealer kind shareMsg) v ↔
      Convicted d v ∨ v ∈ guiltyOf kind complainer dealer := by
  simp [Convicted, addComplaint, sortDKGComplaints, mem_sortSlice, or_and_right, exists_or]

variable {d' : DealerDKG} {s' : Chain env × Int} {e : DealerEpoch}

theorem DkgMove.accounted (hmove : DkgMove S params height d d')
    (haccounted : Accounted d clock) (hclock : clock ≤ height) :
    Accounted d' height := by
  cases hmove with
  | commit _ htime _ _ _ _ =>
    -- A slash for a missing commit lies after the last block for commits.
    refine ⟨fun v hv => ?_, haccounted.convicted⟩
    rcases haccounted.reason v hv with hrow | ⟨-, hlate⟩
    · exact .inl hrow
    · exact absurd (hlate.trans_le hclock) (not_lt.mpr htime)
  | encryptedShare _ _ | reveal _ _ _ _ _ _ _ =>
    refine ⟨fun v hv => ?_, haccounted.convicted⟩
    exact (haccounted.reason v hv).imp_right fun h => ⟨h.1, h.2.trans_le hclock⟩
  | complaint _ hslashes =>
    obtain ⟨slashed, rfl, -, hmem⟩ := hslashes
    refine ⟨fun v hv => ?_, fun v hv => ?_⟩
    · rw [convicted_addComplaint]
      rcases (hmem v).mp hv with hguilty | hold
      · exact .inl (.inr hguilty)
      · rcases haccounted.reason v hold with hrow | ⟨hnone, hlate⟩
        · exact .inl (.inl hrow)
        · exact .inr ⟨hnone, hlate.trans_le hclock⟩
    · rcases convicted_addComplaint.mp hv with hold | hguilty
      · exact (hmem v).mpr (.inr (haccounted.convicted v hold))
      · exact (hmem v).mpr (.inl hguilty)
  | timeout htime hslashes =>
    obtain ⟨slashed, rfl, -, hmem⟩ := hslashes
    refine ⟨fun v hv => ?_, fun v hv => ?_⟩
    · rcases (hmem v).mp hv with ⟨m, -, hnone, rfl⟩ | hold
      · exact .inr ⟨hnone, htime⟩
      · exact (haccounted.reason v hold).imp_right fun h => ⟨h.1, h.2.trans_le hclock⟩
    · exact (hmem v).mpr (.inr (haccounted.convicted v hv))

theorem DkgMove.noReveals (hmove : DkgMove S params height d d')
    (hversion : 2 ≤ params.dkgVersionOrDefault) (hnone : d.reveals = []) :
    d'.reveals = [] := by
  cases hmove with
  | commit _ _ _ _ _ _ | encryptedShare _ _ => exact hnone
  | complaint _ hslashes | timeout _ hslashes =>
    obtain ⟨slashed, rfl, -, -⟩ := hslashes
    exact hnone
  | reveal hold _ _ _ _ _ _ => exact absurd hversion (not_le.mpr hold)

/-! ## Runs of version two -/

structure BlameSound (s : State env) (clock : Int) : Prop where
  sound : DealerSound s
  version : 2 ≤ s.params.dkgVersionOrDefault
  accounted : ∀ d, s.dkg = some d → Accounted d clock
  noReveals : ∀ d, s.dkg = some d → d.reveals = []

theorem DkgEffect.blame {s s' : State env} (heffect : DkgEffect s height s')
    (hinv : BlameSound s clock) (hclock : clock ≤ height) : BlameSound s' height := by
  have hsound := heffect.sound hinv.sound
  cases heffect with
  | begun _ hfresh =>
    refine ⟨hsound, hinv.version, fun d hd => ?_, fun d hd => ?_⟩
    · cases hd
      exact hfresh.accounted height
    · cases hd
      exact hfresh.reveals
  | @moved d _ _ hd hmove =>
    refine ⟨hsound, hinv.version, fun d' hd' => ?_, fun d' hd' => ?_⟩
    · cases hd'
      exact hmove.accounted (hinv.accounted d hd) hclock
    · cases hd'
      exact hmove.noReveals hinv.version (hinv.noReveals d hd)
  | aborted _ | finalised _ _ _ _ =>
    exact ⟨hsound, hinv.version, fun _ h => (nomatch h), fun _ h => (nomatch h)⟩

theorem handleAt_cases {s : Chain env × Int} (hok : handleAt s msg = .ok s') :
    (∃ block m dealer, msg = .dkg block m ∧ handleDkg s.1.dealer block m = .ok dealer ∧
      s' = ({ s.1 with dealer := dealer }, block.height)) ∨
    SameDkg s.1 s'.1 ∧ s'.2 = s.2 := by
  obtain ⟨hstep, hclock⟩ := withHistory_ok hok
  rcases handle_dkg_or_same hstep with
    ⟨block, m, dealer, rfl, hdealer, hchain⟩ | ⟨hdkg, hsame⟩
  · exact .inl ⟨block, m, dealer, rfl, hdealer, Prod.ext hchain hclock⟩
  · refine .inr ⟨hsame, ?_⟩
    cases msg with
    | dkg block m => exact absurd rfl (hdkg block m)
    | player _ | hand _ _ | otherStaking _ => exact hclock

theorem handleAt_blame {s : Chain env × Int} (hgrow : HeightsGrow s msg)
    (hinv : BlameSound s.1.dealer s.2) (hok : handleAt s msg = .ok s') :
    BlameSound s'.1.dealer s'.2 := by
  have hsound := handle_sound hinv.sound (withHistory_ok hok).1
  rcases handleAt_cases hok with ⟨block, m, dealer, rfl, hdealer, rfl⟩ | ⟨hsame, hclock⟩
  · exact (dkg_effect hinv.sound hdealer).blame hinv hgrow
  · refine ⟨hsound, ?_, ?_, ?_⟩
    · rw [hsame.params]
      exact hinv.version
    · rw [hsame.dkg, hclock]
      exact hinv.accounted
    · rw [hsame.dkg]
      exact hinv.noReveals

theorem run_blame {balances : env.poker.bank.Balances} {staking : env.staking.Staking}
    (hversion : 2 ≤ params.dkgVersionOrDefault) {start : Int} {messages : List (Msg env)}
    (hgrow : StepsMeet handleAt HeightsGrow
      (Chain.genesis env balances staking params, start) messages) :
    BlameSound (run handleAt (Chain.genesis env balances staking params, start) messages).1.dealer
      (run handleAt (Chain.genesis env balances staking params, start) messages).2 := by
  refine run_invariant_of_steps
    (fun s : Chain env × Int => BlameSound s.1.dealer s.2) hgrow ?_
    fun s msg s' hallowed hinv hok => handleAt_blame hallowed hinv hok
  exact ⟨genesis_sound env staking params, hversion, fun _ h => (nomatch h), fun _ h => (nomatch h)⟩

/-! ## Verdicts -/

theorem BlameSound.slashed_iff (hinv : BlameSound s clock) (hd : s.dkg = some d)
    (hcommit : (findDKGCommit d v).isSome) : v ∈ d.slashed ↔ Convicted d v := by
  have haccounted := hinv.accounted d hd
  constructor
  · intro hv
    rcases haccounted.reason v hv with hrow | ⟨hnone, -⟩
    · exact hrow
    · simp [hnone] at hcommit
  · exact haccounted.convicted v

theorem Finalises.computed (hsound : DealerSound c.dealer) (hok : handle c msg = .ok c')
    (hfinal : Finalises c c' d e) :
    ∃ d', Slashes d d' (Uncommitted d ∪ Unresolved env.suite d) ∧
      ComputedFrom d' e ∧
      SharedKey env.suite (jointPoly env.suite d' (qualMembers d'.members d'.slashed)) e := by
  rcases handle_dkg_or_same hok with
    ⟨_, _, _, rfl, hdealer, rfl⟩ | ⟨_, hsame⟩
  · cases dkg_effect hsound hdealer with
    | begun hnone _ => exact absurd hfinal.inFlight (by simp [hnone])
    | moved _ _ => exact absurd hfinal.dkgOver (by simp)
    | aborted _ =>
      -- The epoch is an older one then, and its number is smaller.
      have hlt := hsound.epoch_lt_dkg e d hfinal.stored hfinal.inFlight
      exact absurd hfinal.epochId hlt.ne
    | @finalised d₁ d' staking epoch hd₁ hslashes _ hepoch =>
      cases hd₁.symm.trans hfinal.inFlight
      cases hfinal.stored
      have hvalid := hslashes.recordValid (hsound.record d hd₁)
      obtain ⟨hfrom, hkey⟩ := computeEpoch_spec hvalid.commits hepoch
      exact ⟨d', hslashes, hfrom, hkey⟩
  · have hsame := hsame.dkg
    rw [hfinal.dkgOver, hfinal.inFlight] at hsame
    cases hsame

theorem Finalises.slashed_iff (hsound : DealerSound c.dealer)
    (hok : handle c msg = .ok c') (hfinal : Finalises c c' d e) (v : String) :
    v ∈ e.slashed ↔ v ∈ Uncommitted d ∪ Unresolved env.suite d ∨ v ∈ d.slashed := by
  obtain ⟨d', hslashes, hfrom, -⟩ := hfinal.computed hsound hok
  rw [hfrom.slashed]
  exact hslashes.mem_iff v

theorem complaintResolved_of_noReveals (hnone : d.reveals = []) (row : DealerDKGComplaint) :
    complaintResolved S d row = false := by
  have hreveal : findDKGReveal d row.dealer row.complainer = none := by simp [findDKGReveal, hnone]
  unfold complaintResolved
  rw [hreveal]
  cases findDKGCommit d row.dealer <;> rfl

theorem BlameSound.epoch_slashed_iff (hinv : BlameSound c.dealer clock)
    (hok : handle c msg = .ok c') (hfinal : Finalises c c' d e)
    (hcommit : (findDKGCommit d v).isSome) :
    v ∈ e.slashed ↔ Convicted d v ∨ Accused d v := by
  have hcommitted : v ∉ Uncommitted d := by
    rintro ⟨m, -, hnone, rfl⟩
    simp [hnone] at hcommit
  have haccused : v ∈ Unresolved env.suite d ↔ Accused d v := by
    have hnone := hinv.noReveals d hfinal.inFlight
    simp [Unresolved, Accused, complaintResolved_of_noReveals hnone, eq_comm]
  rw [hfinal.slashed_iff hinv.sound hok, Set.mem_union,
    hinv.slashed_iff hfinal.inFlight hcommit, haccused]
  simp only [hcommitted, false_or]
  exact or_comm

/-! ## Honest dealers -/

/-- The dealer has committed, has posted an encrypted share for every other
member with a key, and is named by missing-share complaints at most. -/
structure HonestDealer (d : DealerDKG) (v : String) : Prop where
  committed : (findDKGCommit d v).isSome
  posted : ∀ m ∈ d.members, m.validator ≠ v → m.ephemeralPubkey ≠ [] →
    (findEncryptedShare d v m.index).isSome
  unaccused : ∀ row ∈ d.complaints, row.dealer = v → row.kind = .missing

instance (d : DealerDKG) (v : String) : Decidable (HonestDealer d v) :=
  decidable_of_iff ((findDKGCommit d v).isSome ∧
      (∀ m ∈ d.members, m.validator ≠ v → m.ephemeralPubkey ≠ [] →
        (findEncryptedShare d v m.index).isSome) ∧
      ∀ row ∈ d.complaints, row.dealer = v → row.kind = .missing)
    ⟨fun h => ⟨h.1, h.2.1, h.2.2⟩, fun h => ⟨h.committed, h.posted, h.unaccused⟩⟩

theorem HonestDealer.convicted_iff (hhonest : HonestDealer d v) :
    Convicted d v ↔ FiledSpurious d v := by
  constructor
  · rintro ⟨row, hrow, hguilty⟩
    cases hkind : row.kind with
    | missing => simp [hkind, guiltyOf] at hguilty
    | invalid | aeadBad =>
      rw [hkind] at hguilty
      exact absurd (hhonest.unaccused row hrow hguilty.symm) (by simp [hkind])
    | aeadSpurious =>
      rw [hkind] at hguilty
      exact ⟨row, hrow, hguilty.symm, hkind⟩
  · rintro ⟨row, hrow, rfl, hkind⟩
    exact ⟨row, hrow, by rw [hkind]; rfl⟩

theorem honest_dealer_slashed_iff (env : Env) (balances : env.poker.bank.Balances)
    (staking : env.staking.Staking) (params : Params) (start : Int)
    (messages : List (Msg env)) (hversion : 2 ≤ params.dkgVersionOrDefault)
    (hgrow : StepsMeet handleAt HeightsGrow
      (Chain.genesis env balances staking params, start) messages)
    {d : DealerDKG} {v : String}
    (hd : (run handleAt (Chain.genesis env balances staking params, start)
      messages).1.dealer.dkg = some d) (hhonest : HonestDealer d v) :
    (v ∈ d.slashed ↔ FiledSpurious d v) ∧
      ∀ msg c' e,
        handle (run handleAt (Chain.genesis env balances staking params, start)
          messages).1 msg = .ok c' →
        Finalises (run handleAt (Chain.genesis env balances staking params, start)
          messages).1 c' d e →
        (v ∈ e.slashed ↔ FiledSpurious d v ∨ Accused d v) := by
  have hinv := run_blame hversion hgrow
  constructor
  · rw [hinv.slashed_iff hd hhonest.committed, hhonest.convicted_iff]
  · intro msg c' e hok hfinal
    rw [hinv.epoch_slashed_iff hok hfinal hhonest.committed, hhonest.convicted_iff]

def encryptedShareMsg (dealer : String) (recipient : Nat) (share : ZMod 53) :
    Msg residueEnv :=
  dkgMsgAt 2 (.dkgEncryptedShare ⟨dealer, 1, recipient, residueBytes 1,
    residueBytes (share + 1),
    residueBytes 0 ++ residueBytes 0 ++ residueBytes 0 ++ residueBytes share ++
      residueBytes 1,
    residueBytes share ++ List.replicate 16 0⟩)

/-- `B` commits to `5 + 2 x` and posts both shares; `C` calls its share missing. -/
def missingComplaintRun : List (Msg residueEnv) :=
  [beginEpochMsg 3, dkgCommitMsg "A" 3 1, dkgCommitMsg "B" 5 2,
    dkgCommitMsg "C" 7 4, encryptedShareMsg "B" 1 7, encryptedShareMsg "B" 3 11,
    dkgMsgAt 3 (.dkgComplaintMissing ⟨"C", 1, "B"⟩)]

theorem missingComplaintRun_slashes_honest :
    StepsMeet handleAt HeightsGrow (residueGenesis, 0)
        (missingComplaintRun ++ [finalizeEpochMsg]) ∧
      ∃ d ∈ (run handleAt (residueGenesis, 0) missingComplaintRun).1.dealer.dkg,
        HonestDealer d "B" ∧ ¬ FiledSpurious d "B" ∧
        ∃ e ∈ (run handleAt (residueGenesis, 0)
            (missingComplaintRun ++ [finalizeEpochMsg])).1.dealer.epoch,
          e.epochId = d.epochId ∧ "B" ∈ e.slashed := by
  decide +kernel

theorem missingComplaintRun_slashed_iff :
    ∃ d, (run handleAt (residueGenesis, 0) missingComplaintRun).1.dealer.dkg = some d ∧
      ("B" ∈ d.slashed ↔ FiledSpurious d "B") ∧
      ∀ msg c' e,
        handle (run handleAt (residueGenesis, 0) missingComplaintRun).1 msg = .ok c' →
        Finalises (run handleAt (residueGenesis, 0) missingComplaintRun).1 c' d e →
        ("B" ∈ e.slashed ↔ FiledSpurious d "B" ∨ Accused d "B") := by
  have hgrow : StepsMeet handleAt HeightsGrow (residueGenesis, 0)
      missingComplaintRun := by
    decide +kernel
  obtain ⟨d, hd, hhonest⟩ : ∃ d ∈ (run handleAt (residueGenesis, 0)
      missingComplaintRun).1.dealer.dkg, HonestDealer d "B" := by
    decide +kernel
  refine ⟨d, hd, ?_⟩
  unfold residueGenesis at hgrow hd ⊢
  exact honest_dealer_slashed_iff residueEnv (0 : Nat) () residueParams 0
    missingComplaintRun (by decide) hgrow hd hhonest

/-! ## AEAD complaints -/

def NamedByOthers (d : DealerDKG) (row : DealerDKGComplaint) : Prop :=
  ∃ other ∈ d.complaints, other ≠ row ∧ other.dealer = row.dealer

/-- Only the side that the complaint was decided against is slashed on its account. -/
structure OneSided (d : DealerDKG) (row : DealerDKGComplaint) (slashed : List String) :
    Prop where
  bad : row.kind = .aeadBad → row.dealer ∈ slashed ∧ (row.complainer ∈ slashed →
    findDKGCommit d row.complainer = none ∨ ∃ other ∈ d.complaints, other ≠ row ∧
      (row.complainer ∈ guiltyOf other.kind other.complainer other.dealer ∨
        other.dealer = row.complainer))
  spurious : row.kind = .aeadSpurious → row.complainer ∈ slashed ∧
    ((findDKGCommit d row.dealer).isSome → ¬ NamedByOthers d row → row.dealer ∉ slashed)

/-- What that takes of the record before a message, which may settle the complaints. -/
def VerdictStands (d : DealerDKG) (row : DealerDKGComplaint) (settles : Prop) : Prop :=
  row.kind = .aeadBad ∨ findDKGCommit d row.dealer = none ∨ NamedByOthers d row ∨
    ¬ settles ∧ ¬ FiledSpurious d row.dealer

section Row

variable {c : Chain env} {clock : Int} {d : DealerDKG} {row : DealerDKGComplaint}
  {slashed : List String} {missing : Set String} {settles : Prop}
  (hinv : BlameSound c.dealer clock) (hd : c.dealer.dkg = some d) (hrow : row ∈ d.complaints)
  (hmissing : ∀ v ∈ missing, findDKGCommit d v = none)
  (hslashed : ∀ v, v ∈ slashed ↔
    v ∈ missing ∪ {v | settles ∧ v ∈ Unresolved env.suite d} ∨ v ∈ d.slashed)

include hinv hd hrow hmissing hslashed

theorem BlameSound.oneSided_bad (hdiffer : row.complainer ≠ row.dealer)
    (hkind : row.kind = .aeadBad) : OneSided d row slashed := by
  have haccounted := hinv.accounted d hd
  refine ⟨fun _ => ⟨?_, fun hcomplainer => ?_⟩, fun hspurious => ?_⟩
  · exact (hslashed _).mpr (.inr (haccounted.convicted _ ⟨row, hrow, by rw [hkind]; rfl⟩))
  · rcases (hslashed _).mp hcomplainer with (hgone | ⟨-, other, hother, -, hnamed⟩) | hold
    · exact .inl (hmissing _ hgone)
    · refine .inr ⟨other, hother, ?_, .inr hnamed.symm⟩
      rintro rfl
      exact hdiffer hnamed
    · rcases haccounted.reason _ hold with ⟨other, hother, hguilty⟩ | ⟨hnone, -⟩
      · refine .inr ⟨other, hother, ?_, .inl hguilty⟩
        rintro rfl
        rw [hkind] at hguilty
        exact hdiffer hguilty
      · exact .inl hnone
  · rw [hkind] at hspurious
    cases hspurious

theorem BlameSound.oneSided_spurious_iff (hkind : row.kind = .aeadSpurious) :
    OneSided d row slashed ↔ VerdictStands d row settles := by
  have haccounted := hinv.accounted d hd
  have hconvicted : ∀ v, Convicted d v → v ∈ slashed := fun v hv =>
    (hslashed v).mpr (.inr (haccounted.convicted v hv))
  constructor
  · intro hone
    by_contra hfalls
    simp only [VerdictStands, not_or, not_and, not_not] at hfalls
    obtain ⟨-, hcommit, halone, hguilty⟩ := hfalls
    refine (hone.spurious hkind).2 (Option.isSome_iff_ne_none.mpr hcommit) halone ?_
    by_cases hsettles : settles
    · have hopen := complaintResolved_of_noReveals (S := env.suite) (hinv.noReveals d hd) row
      exact (hslashed _).mpr (.inl (.inr ⟨hsettles, row, hrow, hopen, rfl⟩))
    · obtain ⟨other, hother, hfiled, hkind'⟩ := hguilty hsettles
      exact hconvicted _ ⟨other, hother, by rw [hkind', ← hfiled]; rfl⟩
  · intro hstands
    refine ⟨fun hbad => ?_, fun _ => ⟨?_, fun hcommit halone hin => ?_⟩⟩
    · rw [hkind] at hbad
      cases hbad
    · exact hconvicted _ ⟨row, hrow, by rw [hkind]; rfl⟩
    · rw [Option.isSome_iff_ne_none] at hcommit
      simp only [VerdictStands, hkind, hcommit, halone, reduceCtorEq, false_or] at hstands
      rcases (hslashed _).mp hin with (hgone | ⟨hsettles, -⟩) | hold
      · exact hcommit (hmissing _ hgone)
      · exact hstands.1 hsettles
      · rcases haccounted.reason _ hold with ⟨other, hother, hguilty⟩ | ⟨hnone, -⟩
        · cases hother' : other.kind with
          | missing => simp [hother', guiltyOf] at hguilty
          | invalid | aeadBad =>
            rw [hother'] at hguilty
            refine halone ⟨other, hother, ?_, hguilty.symm⟩
            rintro rfl
            rw [hkind] at hother'
            cases hother'
          | aeadSpurious =>
            rw [hother'] at hguilty
            exact hstands.2 ⟨other, hother, hguilty.symm, hother'⟩
        · exact hcommit hnone

theorem BlameSound.oneSided_iff (hdiffer : row.complainer ≠ row.dealer)
    (hkind : row.kind = .aeadBad ∨ row.kind = .aeadSpurious) :
    OneSided d row slashed ↔ VerdictStands d row settles := by
  rcases hkind with hbad | hspurious
  · exact iff_of_true (hinv.oneSided_bad hd hrow hmissing hslashed hdiffer hbad) (.inl hbad)
  · exact hinv.oneSided_spurious_iff hd hrow hmissing hslashed hspurious

end Row

/-- Only one side is slashed exactly if the verdict stands: in the record in flight, and in
the one that a message leaves with which the DKG ends or times out. -/
structure VerdictKept (c : Chain env) (d : DealerDKG) (row : DealerDKGComplaint) : Prop where
  inFlight : OneSided d row d.slashed ↔ VerdictStands d row False
  ending : ∀ block m c', m.Ending → handle c (.dkg block m) = .ok c' →
    ∃ d', finalRecord c.dealer block m = .ok d' ∧
      (c'.dealer.dkg = some d' ∨ EndsWith c.dealer c'.dealer d') ∧
      (OneSided d row d'.slashed ↔ VerdictStands d row (m.Settles d block))

theorem BlameSound.verdictKept {row : DealerDKGComplaint} (hinv : BlameSound c.dealer clock)
    (hd : c.dealer.dkg = some d) (hrow : row ∈ d.complaints) (hdiffer : row.complainer ≠ row.dealer)
    (hkind : row.kind = .aeadBad ∨ row.kind = .aeadSpurious) : VerdictKept c d row := by
  constructor
  · have hnobody : ∀ v ∈ (∅ : Set String), findDKGCommit d v = none := by simp
    exact hinv.oneSided_iff hd hrow hnobody (by simp) hdiffer hkind
  · intro block m c' hending hok
    simp only [handle, ok_iff] at hok
    obtain ⟨dealer, hdealer, rfl⟩ := hok
    obtain ⟨d', hfinal, hends, -, slashed, rfl, -, hmem⟩ :=
      ending_record (hinv.sound.record d hd) hd hending hdealer
    refine ⟨_, hfinal, hends, hinv.oneSided_iff hd hrow ?_ hmem hdiffer hkind⟩
    rintro v ⟨mem, -, hnone, rfl⟩
    exact hnone

/-! ## Complaints stay on record -/

theorem complaint_stable (row : DealerDKGComplaint) : RecordStable env (row ∈ ·.complaints) := by
  intro params height d msg d' _ hrow hstep
  have hfiled : ∀ (d : DealerDKG) complainer dealer kind shareMsg,
      row ∈ d.complaints → row ∈ (addComplaint d complainer dealer kind shareMsg).complaints := by
    intro d complainer dealer kind shareMsg hrow
    rw [addComplaint, sortDKGComplaints, mem_sortSlice]
    exact List.mem_append_left _ hrow
  cases hstep with
  | commit | encryptedShare | reveal => exact hrow
  | missing _ => exact hfiled _ _ _ _ _ hrow
  | invalid _ _ _ hslashes | aeadBad _ _ hslashes =>
    obtain ⟨slashed, rfl, -, -⟩ := hslashes
    exact hfiled _ _ _ _ _ hrow
  | timeout _ hslashes =>
    obtain ⟨slashed, rfl, -, -⟩ := hslashes
    exact hrow

theorem aead_complaint_verdict (env : Env) (balances : env.poker.bank.Balances)
    (staking : env.staking.Staking) (params : Params) (start : Int)
    (messages : List (Msg env)) (hversion : 2 ≤ params.dkgVersionOrDefault)
    (hgrow : StepsMeet handleAt HeightsGrow
      (Chain.genesis env balances staking params, start) messages)
    (block : Block) (req : MsgDkgComplaintAEADBad) {c : Chain env}
    (htime : (run handleAt (Chain.genesis env balances staking params, start)
      messages).2 ≤ block.height)
    (hok : handle (run handleAt (Chain.genesis env balances staking params, start)
      messages).1 (.dkg block (.dkgComplaintAEADBad req)) = .ok c) :
    ∃ d d₁ row es dh v,
      (run handleAt (Chain.genesis env balances staking params, start)
        messages).1.dealer.dkg = some d ∧
      findEncryptedShare d req.dealer req.recipientIndex = some es ∧
      env.suite.pointFromBytesCanonical es.v = .ok v ∧
      env.suite.pointFromBytesCanonical req.dhShare = .ok dh ∧
      row = ⟨d.epochId, req.complainer, req.dealer, adjudicate env.suite dh v es, []⟩ ∧
      c.dealer.dkg = some d₁ ∧
      (row.kind = .aeadBad ∧
          (row.complainer ∈ d₁.slashed ↔ row.complainer ∈ d.slashed) ∨
        row.kind = .aeadSpurious ∧ (row.dealer ∈ d₁.slashed ↔ row.dealer ∈ d.slashed)) ∧
      ∀ later, StepsMeet handleAt HeightsGrow (c, block.height) later →
        ∀ d₂, (run handleAt (c, block.height) later).1.dealer.dkg = some d₂ →
          d₂.epochId = d.epochId →
          VerdictKept (run handleAt (c, block.height) later).1 d₂ row := by
  have hinv := run_blame hversion hgrow
  generalize run handleAt (Chain.genesis env balances staking params, start)
    messages = s at hinv htime hok ⊢
  have hstep : handleAt s (.dkg block (.dkgComplaintAEADBad req)) =
      .ok (c, block.height) := by
    rw [handleAt, withHistory, hok]
    rfl
  have hallowed : HeightsGrow s (.dkg block (.dkgComplaintAEADBad req)) := htime
  have hinv₁ := handleAt_blame hallowed hinv hstep
  simp only [handle, ok_iff] at hok
  obtain ⟨dealer, hdealer, rfl⟩ := hok
  obtain ⟨d, hd, -, hhandled⟩ := handleDkg_handled (by simp) hdealer
  cases hhandled
  rename_i es _ _ v dh _ next hfiled hproved _ hpenalty
  obtain ⟨staking, d₁⟩ := next
  have hchecked := hfiled.checked
  have hslashes := atFault_slashes hchecked (hinv.sound.record d hd).slashed hpenalty
  refine ⟨d, _, ⟨d.epochId, req.complainer, req.dealer,
    adjudicate env.suite dh v es, []⟩, es, dh, v, hd, hproved.share, hproved.decodedV,
    hproved.decodedDh, rfl, rfl, ?_,
    fun later hlater d₂ hd₂ hid => ?_⟩
  · obtain ⟨slashed, rfl, -, hmem⟩ := hslashes
    rcases adjudicate_eq dh v es with hbad | hspurious
    · refine .inl ⟨hbad, (hmem _).trans ?_⟩
      rw [hbad]
      exact or_iff_right hchecked.differ
    · refine .inr ⟨hspurious, (hmem _).trans ?_⟩
      rw [hspurious]
      exact or_iff_right (Ne.symm hchecked.differ)
  · have hrun := run_invariant_of_steps (fun s : Chain env × Int =>
        BlameSound s.1.dealer s.2 ∧ Lasts (⟨d.epochId, req.complainer, req.dealer,
          adjudicate env.suite dh v es, []⟩ ∈ ·.complaints) d.epochId s.1.dealer)
        hlater ⟨hinv₁, ?_⟩ ?_
    · obtain ⟨hlast, hrecord⟩ := hrun
      exact hlast.verdictKept hd₂ (hrecord.record d₂ hd₂ hid) hchecked.differ
        (adjudicate_eq dh v es)
    · refine ⟨hinv.sound.dkg_lt d hd, fun d' hd' _ => ?_⟩
      cases hd'
      obtain ⟨slashed, rfl, -, -⟩ := hslashes
      rw [addComplaint, sortDKGComplaints, mem_sortSlice]
      exact List.mem_append_right _ (List.mem_singleton_self _)
    · rintro s msg s' hallowed ⟨hblame, hrecord⟩ hok
      exact ⟨handleAt_blame hallowed hblame hok,
        hrecord.handle (complaint_stable _) hblame.sound (withHistory_ok hok).1⟩

def correctShareRun : List (Msg residueEnv) :=
  [beginEpochMsg 4, dkgCommitMsg "A" 3 1, dkgCommitMsg "B" 5 2,
    dkgCommitMsg "C" 7 4, dkgCommitMsg "D" 1 1, encryptedShareMsg "B" 3 11]

def aeadComplaint : MsgDkgComplaintAEADBad :=
  ⟨"C", 1, "B", 3, residueBytes 1, residueBytes 0 ++ residueBytes 0 ++ residueBytes 1⟩

theorem spuriousComplaint_slashes_both :
    StepsMeet handleAt HeightsGrow (residueGenesis, 0) (correctShareRun ++
        [dkgMsgAt 3 (.dkgComplaintAEADBad aeadComplaint), finalizeEpochMsg]) ∧
      ∃ d ∈ (run handleAt (residueGenesis, 0) (correctShareRun ++
          [dkgMsgAt 3 (.dkgComplaintAEADBad aeadComplaint)])).1.dealer.dkg,
        d.complaints = [⟨1, "C", "B", .aeadSpurious, []⟩] ∧
        (findDKGCommit d "B").isSome ∧ d.slashed = ["C"] ∧
        ∃ e ∈ (run handleAt (residueGenesis, 0) (correctShareRun ++
            [dkgMsgAt 3 (.dkgComplaintAEADBad aeadComplaint),
              finalizeEpochMsg])).1.dealer.epoch,
          e.epochId = d.epochId ∧ e.slashed = ["B", "C"] := by
  decide +kernel

theorem correctShareRun_verdict :
    ∃ c d row, handle (run handleAt (residueGenesis, 0) correctShareRun).1
        (dkgMsgAt 3 (.dkgComplaintAEADBad aeadComplaint)) = .ok c ∧
      (run handleAt (residueGenesis, 0) correctShareRun).1.dealer.dkg = some d ∧
      row.complainer = "C" ∧ row.dealer = "B" ∧
      ∀ later, StepsMeet handleAt HeightsGrow (c, 3) later →
        ∀ d₂, (run handleAt (c, 3) later).1.dealer.dkg = some d₂ →
          d₂.epochId = d.epochId → VerdictKept (run handleAt (c, 3) later).1 d₂ row := by
  have hgrow : StepsMeet handleAt HeightsGrow (residueGenesis, 0) correctShareRun := by
    decide +kernel
  have htime : (run handleAt (residueGenesis, 0) correctShareRun).2 ≤ 3 := by
    decide +kernel
  obtain ⟨c, hok⟩ := isOk_iff.mp
    (by decide +kernel : (handle (run handleAt (residueGenesis, 0)
      correctShareRun).1 (dkgMsgAt 3 (.dkgComplaintAEADBad aeadComplaint))).isOk)
  unfold residueGenesis at hgrow htime hok ⊢
  obtain ⟨d, d₁, row, es, dh, v, hd, -, -, -, hrow, -, -, hlater⟩ :=
    aead_complaint_verdict residueEnv (0 : Nat) () residueParams 0 correctShareRun
      (by decide) hgrow ⟨3, 1000, by decide, by decide⟩ aeadComplaint htime hok
  exact ⟨c, d, row, hok, hd, by rw [hrow]; rfl, by rw [hrow]; rfl, hlater⟩

end OnChainPoker.Dealer
