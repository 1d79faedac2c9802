import OnChainPoker.Dealer.Daemon
import OnChainPoker.Dealer.Delivery
import OnChainPoker.Dealer.Genesis
import OnChainPoker.Dealer.Survival

/-!
# How much of a polynomial the daemons publish

In version one a daemon complains about every other member and answers every complaint
about itself with its polynomial at the index of the member that complained.  An accepted
reveal adds an index to those at which the polynomial of its dealer is public.  Below the
threshold these values are compatible with every constant term; from the threshold on
they determine it.
-/

namespace OnChainPoker.Dealer

open Foundation Crypto Polynomial
open Poker (Block)

/-! ## Indices at which a polynomial is public -/

def revealedIndices (d : DealerDKG) (dealer : String) : Finset Nat :=
  ((d.members.filter fun m => HasReveal d dealer m.validator).map (·.index)).toFinset

theorem mem_revealedIndices {d : DealerDKG} {dealer : String} {j : Nat} :
    j ∈ revealedIndices d dealer ↔
      ∃ m ∈ d.members, HasReveal d dealer m.validator ∧ m.index = j := by
  simp only [revealedIndices, List.mem_toFinset, List.mem_map, List.mem_filter,
    decide_eq_true_eq, and_assoc]

theorem exists_member_iff {members members' : List DealerMember}
    (hids : (members'.map fun m => (m.validator, m.index)) =
      members.map fun m => (m.validator, m.index)) (P : String → Nat → Prop) :
    (∃ m ∈ members', P m.validator m.index) ↔ ∃ m ∈ members, P m.validator m.index := by
  have hpairs : ∀ l : List DealerMember, (∃ m ∈ l, P m.validator m.index) ↔
      ∃ p ∈ l.map fun m => (m.validator, m.index), P p.1 p.2 := by
    intro l
    simp
  rw [hpairs, hpairs, hids]

section Step

variable {env : Env} {params : Params} {height : Int} {d d' : DealerDKG} {msg : DkgMsg}

theorem RecordStep.ids_eq (hstep : RecordStep env params height d msg d') :
    (d'.members.map fun m => (m.validator, m.index)) =
      d.members.map fun m => (m.validator, m.index) := by
  cases hstep with
  | commit _ _ _ _ _ =>
    split
    · rfl
    · exact setEphemeralPubkey_ids _ _ _
  | invalid _ _ _ hslashes | aeadBad _ _ hslashes | timeout _ hslashes =>
    obtain ⟨slashed, rfl, -, -⟩ := hslashes
    rfl
  | _ => rfl

theorem RecordStep.threshold_eq (hstep : RecordStep env params height d msg d') :
    d'.threshold = d.threshold := by
  cases hstep with
  | invalid _ _ _ hslashes | aeadBad _ _ hslashes | timeout _ hslashes =>
    obtain ⟨slashed, rfl, -, -⟩ := hslashes
    rfl
  | _ => rfl

variable {dealer : String} {req : MsgDkgShareReveal}

theorem RecordStep.revealedIndices_eq (hstep : RecordStep env params height d msg d')
    (hother : ∀ recipient, ¬ msg.Reveals dealer recipient d.epochId) :
    revealedIndices d' dealer = revealedIndices d dealer := by
  ext j
  have hsame : ∀ recipient, HasReveal d' dealer recipient ↔ HasReveal d dealer recipient := by
    intro recipient
    rw [hstep.hasReveal_iff]
    exact or_iff_right (hother recipient)
  simp only [mem_revealedIndices, hsame]
  exact exists_member_iff hstep.ids_eq fun validator index =>
    HasReveal d dealer validator ∧ index = j

theorem findDKGReveal_none {recipient : String} (hdealer : dealer ≠ "")
    (hrecipient : recipient ≠ "") (hnone : findDKGReveal d dealer recipient = none) :
    ¬ HasReveal d dealer recipient := by
  rintro ⟨row, hrow, hfrom, hfor⟩
  rw [findDKGReveal, if_neg (by simp [hdealer, hrecipient]), List.find?_eq_none] at hnone
  exact hnone row hrow (by simp [hfrom, hfor])

section

variable (hvalid : RecordValid d) (hstep : RecordStep env params height d (.dkgShareReveal req) d')
include hvalid hstep

theorem RecordStep.reveal_new : d'.members = d.members ∧ req.epochId = d.epochId ∧
      ¬ HasReveal d req.dealer req.recipient ∧
      ∃ mem ∈ d.members, mem.validator = req.recipient := by
  cases hstep with
  | @reveal _ commit mem _ hid _ hmem _ hfirst hcommit _ =>
    obtain ⟨hin, hname⟩ := findMember_some hmem
    refine ⟨rfl, hid, ?_, mem, hin, hname⟩
    apply findDKGReveal_none _ (hname ▸ hvalid.committee.named mem hin) hfirst
    rintro hempty
    rw [findDKGCommit, if_pos hempty] at hcommit
    cases hcommit

theorem RecordStep.card_revealedIndices :
    (revealedIndices d' req.dealer).card = (revealedIndices d req.dealer).card + 1 := by
  obtain ⟨hmembers, hid, hfirst, mem, hin, hname⟩ := hstep.reveal_new hvalid
  have hiff : ∀ recipient, HasReveal d' req.dealer recipient ↔
      req.recipient = recipient ∨ HasReveal d req.dealer recipient := by
    intro recipient
    rw [hstep.hasReveal_iff]
    simp [DkgMsg.Reveals, hid]
  have hnew : mem.index ∉ revealedIndices d req.dealer := by
    rw [mem_revealedIndices]
    rintro ⟨m, hm, hreveal, hindex⟩
    rw [List.inj_on_of_nodup_map hvalid.committee.indices hm hin hindex, hname] at hreveal
    exact hfirst hreveal
  have hinsert : revealedIndices d' req.dealer =
      insert mem.index (revealedIndices d req.dealer) := by
    ext j
    rw [Finset.mem_insert, mem_revealedIndices, mem_revealedIndices, hmembers]
    constructor
    · rintro ⟨m, hm, hreveal, rfl⟩
      rcases (hiff m.validator).mp hreveal with hnow | hold
      · left
        rw [List.inj_on_of_nodup_map hvalid.committee.validators hm hin
          (hnow.symm.trans hname.symm)]
      · exact .inr ⟨m, hm, hold, rfl⟩
    · rintro (rfl | ⟨m, hm, hreveal, rfl⟩)
      · exact ⟨mem, hin, (hiff mem.validator).mpr (.inl hname.symm), rfl⟩
      · exact ⟨m, hm, (hiff m.validator).mpr (.inr hreveal), rfl⟩
  rw [hinsert, Finset.card_insert_of_notMem hnew]

end

/-! ## Committees no larger than the threshold -/

structure OthersOnly (d : DealerDKG) : Prop where
  complaints : ∀ row ∈ d.complaints, row.complainer ≠ row.dealer ∧
    ∃ m ∈ d.members, m.validator = row.dealer
  reveals : ∀ row ∈ d.reveals, row.recipient ≠ row.dealer ∧
    ∃ m ∈ d.members, m.validator = row.dealer

theorem addComplaint_othersOnly (hothers : OthersOnly d) {complainer : String}
    (hchecked : ComplaintChecked d height complainer dealer) (kind : ComplaintKind)
    (shareMsg : Bytes) (slashed : List String) :
    OthersOnly (addComplaint { d with slashed := slashed } complainer dealer kind shareMsg) := by
  refine ⟨fun row hrow => ?_, hothers.reveals⟩
  simp only [addComplaint, sortDKGComplaints, mem_sortSlice, List.mem_append,
    List.mem_singleton] at hrow
  rcases hrow with hold | rfl
  · exact hothers.complaints row hold
  · obtain ⟨mem, hmem⟩ := Option.isSome_iff_exists.mp hchecked.dealer_member
    obtain ⟨hin, hname⟩ := findMember_some hmem
    exact ⟨hchecked.differ, mem, hin, hname⟩

theorem othersOnly_stable : RecordStable env OthersOnly := by
  intro params height d msg d' hvalid hothers hstep
  have hids := hstep.ids_eq
  cases hstep with
  | commit _ _ _ _ _ =>
    constructor
    · intro row hrow
      obtain ⟨hdiffer, hdealer⟩ := hothers.complaints row hrow
      exact ⟨hdiffer, (exists_member_iff hids fun validator _ =>
        validator = row.dealer).mpr hdealer⟩
    · intro row hrow
      obtain ⟨hdiffer, hdealer⟩ := hothers.reveals row hrow
      exact ⟨hdiffer, (exists_member_iff hids fun validator _ =>
        validator = row.dealer).mpr hdealer⟩
  | missing hfiled => exact addComplaint_othersOnly hothers hfiled.checked .missing [] d.slashed
  | invalid hfiled _ _ hslashes | aeadBad hfiled _ hslashes =>
    obtain ⟨slashed, rfl, -, -⟩ := hslashes
    exact addComplaint_othersOnly hothers hfiled.checked _ _ slashed
  | @reveal req _ _ _ _ _ _ hcomplaint _ _ _ =>
    refine ⟨hothers.complaints, fun row hrow => ?_⟩
    simp only [sortDKGReveals, mem_sortSlice, List.mem_append, List.mem_singleton] at hrow
    rcases hrow with hold | rfl
    · exact hothers.reveals row hold
    · obtain ⟨complaint, hfind⟩ := Option.isSome_iff_exists.mp hcomplaint
      unfold findDKGComplaint at hfind
      split at hfind
      · cases hfind
      · have hmatch := List.find?_some hfind
        simp only [Bool.decide_and, Bool.and_eq_true, decide_eq_true_eq] at hmatch
        have hrow := hothers.complaints complaint (List.mem_of_find?_eq_some hfind)
        rwa [hmatch.1, hmatch.2] at hrow
  | timeout _ hslashes =>
    obtain ⟨slashed, rfl, -, -⟩ := hslashes
    exact ⟨hothers.complaints, hothers.reveals⟩
  | _ => exact ⟨hothers.complaints, hothers.reveals⟩

theorem OthersOnly.card_lt (hvalid : RecordValid d) (hothers : OthersOnly d)
    (hsmall : d.members.length ≤ d.threshold) (dealer : String) :
    (revealedIndices d dealer).card < d.threshold := by
  have hcard : (revealedIndices d dealer).card ≤
      (d.members.filter fun m => HasReveal d dealer m.validator).length := by
    apply (List.toFinset_card_le _).trans
    rw [List.length_map]
  by_cases hnone : d.reveals.any (·.dealer = dealer) = true
  · rw [List.any_eq_true] at hnone
    obtain ⟨row, hrow, hdealer⟩ := hnone
    rw [decide_eq_true_eq] at hdealer
    obtain ⟨-, mem, hin, hname⟩ := hothers.reveals row hrow
    have hself : ¬ HasReveal d dealer mem.validator := by
      rintro ⟨row', hrow', hfrom, hfor⟩
      apply (hothers.reveals row' hrow').1
      rw [hfrom, hfor, hname, hdealer]
    have hlt : (d.members.filter fun m => HasReveal d dealer m.validator).length <
        d.members.length := by
      apply List.length_filter_lt_length_iff_exists.mpr
      exact ⟨mem, hin, by simpa using hself⟩
    omega
  · have hempty : (d.members.filter fun m => HasReveal d dealer m.validator) = [] := by
      rw [List.filter_eq_nil_iff]
      intro m _ hreveal
      rw [decide_eq_true_eq] at hreveal
      obtain ⟨row, hrow, hfrom, -⟩ := hreveal
      apply hnone
      rw [List.any_eq_true]
      exact ⟨row, hrow, by simpa using hfrom⟩
    rw [hempty, List.length_nil] at hcard
    have := hvalid.threshold
    omega

end Step

/-! ## What the revealed shares say about the constant term -/

section Secret

variable {S : Suite} {d : DealerDKG} {dealer : String}

noncomputable def dealerPoly (S : Suite) (d : DealerDKG) (dealer : String) : S.Scalar[X] :=
  Suite.committedPoly (commitmentPoints S d dealer)

structure FitsReveals (S : Suite) (d : DealerDKG) (dealer : String) (g : S.Scalar[X]) :
    Prop where
  degree : g.degree < d.threshold
  shares : ∀ row ∈ d.reveals, row.dealer = dealer → ∀ m ∈ d.members,
    m.validator = row.recipient → S.scalarBytes (g.eval (m.index : S.Scalar)) = row.share

def SecretOpen (S : Suite) (d : DealerDKG) (dealer : String) : Prop :=
  ∀ z : S.Scalar, ∃ g, FitsReveals S d dealer g ∧ g.eval 0 = z

theorem dealerPoly_degree (hvalid : RecordValid d) :
    (dealerPoly S d dealer).degree < d.threshold := by
  apply (Suite.committedPoly_degree_lt _).trans_le
  rw [commitmentPoints, List.length_map]
  cases hcommit : findDKGCommit d dealer with
  | none => exact_mod_cast Nat.zero_le _
  | some commit => rw [Option.elim_some, hvalid.commits commit (findDKGCommit_mem hcommit)]

theorem dkgVerifyShare_true {commit : DealerDKGCommit} {index : Nat} {share : Bytes}
    (hcommit : findDKGCommit d dealer = some commit)
    (hverify : dkgVerifyShare S commit.commitments index share = .ok true) :
    S.scalarBytes ((dealerPoly S d dealer).eval (index : S.Scalar)) = share := by
  simp only [dkgVerifyShare, dkgEvalCommitment, ok_iff, decide_eq_true_eq] at hverify
  obtain ⟨-, -, x, hx, y, ⟨points, hpoints, rfl⟩, hequal⟩ := hverify
  have hx' := S.scalarFromBytesCanonical_eq_ok.mp hx
  have hcommitted : S.mulBase x = (dealerPoly S d dealer).eval (index : S.Scalar) • S.base := by
    rw [dealerPoly, ← Suite.evalPowers_eq, commitmentPoints, hcommit, Option.elim_some,
      ← decodeCommitments_eq hpoints]
    exact hequal
  rw [← Suite.smul_base_injective hcommitted]
  exact hx'

theorem dealerPoly_fits (hvalid : RecordValid d) (hverified : RevealsVerified S d)
    (hdealer : dealer ≠ "") : FitsReveals S d dealer (dealerPoly S d dealer) := by
  refine ⟨dealerPoly_degree hvalid, fun row hrow hfrom m hm hfor => ?_⟩
  obtain ⟨commit, hcommit, howner, mem, hmem, hrecipient, hverify⟩ := hverified.verified row hrow
  have hfound : findDKGCommit d dealer = some commit := by
    rw [findDKGCommit, if_neg hdealer, ← hfrom, ← howner]
    exact find?_key_of_mem hverified.once hcommit
  rw [List.inj_on_of_nodup_map hvalid.committee.validators hm hmem (hfor.trans hrecipient.symm)]
  exact dkgVerifyShare_true hfound hverify

noncomputable def revealedNodes (S : Suite) (d : DealerDKG) (dealer : String) :
    Finset S.Scalar :=
  (revealedIndices d dealer).image (Nat.cast : ℕ → S.Scalar)

theorem FitsReveals.of_nodes {f g : S.Scalar[X]} (hf : FitsReveals S d dealer f)
    (hdegree : g.degree < d.threshold)
    (hsame : ∀ x ∈ revealedNodes S d dealer, g.eval x = f.eval x) :
    FitsReveals S d dealer g := by
  refine ⟨hdegree, fun row hrow hfrom m hm hfor => ?_⟩
  rw [hsame]
  · exact hf.shares row hrow hfrom m hm hfor
  · apply Finset.mem_image_of_mem
    exact mem_revealedIndices.mpr ⟨m, hm, ⟨row, hrow, hfrom, hfor.symm⟩, rfl⟩

theorem FitsReveals.eval_eq {f g : S.Scalar[X]} (hf : FitsReveals S d dealer f)
    (hg : FitsReveals S d dealer g) {x : S.Scalar} (hx : x ∈ revealedNodes S d dealer) :
    g.eval x = f.eval x := by
  obtain ⟨j, hj, rfl⟩ := Finset.mem_image.mp hx
  obtain ⟨m, hm, ⟨row, hrow, hfrom, hfor⟩, rfl⟩ := mem_revealedIndices.mp hj
  have hbytes := (hg.shares row hrow hfrom m hm hfor.symm).trans
    (hf.shares row hrow hfrom m hm hfor.symm).symm
  exact Except.ok.inj ((S.setCanonicalScalar_iff.mpr hbytes).symm.trans
    (S.setCanonicalScalar_iff.mpr rfl))

theorem secretOpen_iff (hvalid : RecordValid d) (hverified : RevealsVerified S d)
    (hdealer : dealer ≠ "") (hrange : ∀ m ∈ d.members, m.index < S.order) :
    SecretOpen S d dealer ↔ (revealedIndices d dealer).card < d.threshold := by
  have hfits := dealerPoly_fits hvalid hverified hdealer
  have hindex : ∀ j ∈ revealedIndices d dealer, j ≠ 0 ∧ j < S.order := by
    intro j hj
    obtain ⟨m, hm, -, rfl⟩ := mem_revealedIndices.mp hj
    exact ⟨hvalid.committee.positive m hm, hrange m hm⟩
  have hcard : (revealedNodes S d dealer).card = (revealedIndices d dealer).card := by
    apply Finset.card_image_of_injOn
    intro i hi j hj hij
    have hmod := (ZMod.natCast_eq_natCast_iff' i j S.order).mp hij
    rwa [Nat.mod_eq_of_lt (hindex i hi).2, Nat.mod_eq_of_lt (hindex j hj).2] at hmod
  constructor
  · intro hopen
    by_contra hmany
    have hunique : ∀ g, FitsReveals S d dealer g → g = dealerPoly S d dealer := by
      intro g hg
      have henough : (d.threshold : WithBot ℕ) ≤ (revealedNodes S d dealer).card := by
        rw [hcard]
        exact_mod_cast not_lt.mp hmany
      exact eq_of_degrees_lt_of_eval_finset_eq _ (hg.degree.trans_le henough)
        (hfits.degree.trans_le henough) fun x hx => hfits.eval_eq hg hx
    obtain ⟨g, hg, hzero⟩ := hopen 0
    obtain ⟨g', hg', hone⟩ := hopen 1
    rw [hunique g hg] at hzero
    rw [hunique g' hg', hzero] at hone
    exact zero_ne_one hone
  · intro hfew z
    have hzero : (0 : S.Scalar) ∉ revealedNodes S d dealer := by
      intro hmem
      obtain ⟨j, hj, hcast⟩ := Finset.mem_image.mp hmem
      have hdvd := (ZMod.natCast_eq_zero_iff j S.order).mp hcast
      obtain ⟨hpos, hlt⟩ := hindex j hj
      exact absurd (Nat.le_of_dvd (Nat.pos_of_ne_zero hpos) hdvd) (not_le.mpr hlt)
    obtain ⟨g, hdegree, hsame, hz⟩ := exists_eval_zero hzero (hcard ▸ hfew)
      (fun x => (dealerPoly S d dealer).eval x) z
    exact ⟨g, hfits.of_nodes hdegree hsame, hz⟩

end Secret

/-! ## Messages of the chain -/

section Chain

variable {env : Env}

/-- Every polynomial is public at fewer indices than the threshold. -/
def PolynomialsHidden (c : Chain env) : Prop :=
  ∀ d, c.dealer.dkg = some d → ∀ dealer, (revealedIndices d dealer).card < d.threshold

def RevealSpares (c : Chain env) (msg : Msg env) : Prop :=
  ∀ block req, msg = .dkg block (.dkgShareReveal req) → ∀ d, c.dealer.dkg = some d →
    (revealedIndices d req.dealer).card + 1 < d.threshold

theorem FreshDkg.hidden {s : State env} {d : DealerDKG} (hfresh : FreshDkg env s d)
    (dealer : String) : (revealedIndices d dealer).card < d.threshold := by
  have hnone : revealedIndices d dealer = ∅ := by
    apply Finset.eq_empty_of_forall_notMem
    intro j hj
    obtain ⟨m, -, ⟨row, hrow, -⟩, -⟩ := mem_revealedIndices.mp hj
    rw [hfresh.reveals] at hrow
    cases hrow
  rw [hnone, Finset.card_empty]
  have := hfresh.threshold
  omega

theorem dkgShareReveal_inFlight {s s' : State env} {block : Block} {req : MsgDkgShareReveal}
    (hok : dkgShareReveal s block req = .ok s') : s'.dkg ≠ none := by
  have hok : handleDkg s block (.dkgShareReveal req) = .ok s' := hok
  obtain ⟨d, -, -, hhandled⟩ := handleDkg_handled (by simp) hok
  cases hhandled
  exact Option.some_ne_none _

theorem RecordStep.hidden_iff {params : Params} {height : Int} {d d' : DealerDKG} {m : DkgMsg}
    (hvalid : RecordValid d) (hhidden : ∀ dealer, (revealedIndices d dealer).card < d.threshold)
    (hstep : RecordStep env params height d m d') :
    (∀ dealer, (revealedIndices d' dealer).card < d'.threshold) ↔
      ∀ req, m = .dkgShareReveal req → (revealedIndices d req.dealer).card + 1 < d.threshold := by
  rw [hstep.threshold_eq]
  constructor
  · rintro hafter req rfl
    rw [← hstep.card_revealedIndices hvalid]
    exact hafter req.dealer
  · intro hspares dealer
    by_cases hreveals : ∃ recipient, m.Reveals dealer recipient d.epochId
    · obtain ⟨recipient, hreveals⟩ := hreveals
      cases m with
      | dkgShareReveal req =>
        obtain ⟨-, rfl, -⟩ := hreveals
        rw [hstep.card_revealedIndices hvalid]
        exact hspares req rfl
      | _ => exact hreveals.elim
    · rw [hstep.revealedIndices_eq fun recipient hnow => hreveals ⟨recipient, hnow⟩]
      exact hhidden dealer

theorem handle_hidden_iff {c c' : Chain env} {msg : Msg env}
    (hsound : DealerSound c.dealer) (hhidden : PolynomialsHidden c)
    (hok : handle c msg = .ok c') : PolynomialsHidden c' ↔ RevealSpares c msg := by
  rcases handle_dkg_or_same hok with
    ⟨block, _, _, rfl, hdealer, rfl⟩ | ⟨hdkg, hsame⟩
  · cases dkg_effect hsound hdealer with
    | begun hnone hfresh =>
      apply iff_of_true
      · rintro d hd
        cases hd
        exact hfresh.hidden
      · intro _ _ _ d hd
        rw [hnone] at hd
        cases hd
    | @moved d d' _ hd hmove =>
      have hiff := (handleDkg_record hsound hd hdealer rfl).hidden_iff
        (hsound.record d hd) (hhidden d hd)
      constructor
      · rintro hafter _ req hmsg d₁ hd₁
        cases hmsg
        cases hd.symm.trans hd₁
        exact hiff.mp (hafter d' rfl) req rfl
      · rintro hspares d₁ hd₁
        cases hd₁
        exact hiff.mpr fun req hm => hspares block req (by rw [hm]) d hd
    | aborted _ | finalised _ _ _ _ =>
      apply iff_of_true
      · exact fun _ h => (nomatch h)
      · rintro _ req hmsg
        cases hmsg
        exact absurd rfl (dkgShareReveal_inFlight hdealer)
  · apply iff_of_true
    · rw [PolynomialsHidden, hsame.dkg]
      exact hhidden
    · intro block req hmsg
      exact absurd hmsg (hdkg block _)

end Chain

/-! ## The network -/

section Network

variable {env : Env} {aesGcmSeal : Seal}

def Network.delivers (n : Network env) : Event env → Option (Msg env)
  | .poll _ _ => none
  | .submit name block => (n.daemon name).outbox.head?.map fun tx => .dkg block tx.msg
  | .other msg => some msg

/-- A reveal that the chain accepts finds the polynomial of its dealer public at fewer than
`threshold - 1` indices. -/
def SparesPolynomials (n : Network env) (e : Event env) : Prop :=
  ∀ msg, n.delivers e = some msg → (handle n.chain msg).isOk = true →
    RevealSpares n.chain msg

theorem Network.handle_chain {n n' : Network env} {e : Event env}
    (hok : n.handle aesGcmSeal e = .ok n') :
    (∃ msg, n.delivers e = some msg ∧ Dealer.handle n.chain msg = .ok n'.chain) ∨
      n'.chain = n.chain ∧
        ∀ msg, n.delivers e = some msg → (Dealer.handle n.chain msg).isOk = false := by
  cases e with
  | poll name draws =>
    simp only [Network.handle, ok_iff] at hok
    obtain ⟨-, -, rfl⟩ := hok
    exact .inr ⟨rfl, fun _ hnone => by cases hnone⟩
  | submit name block =>
    unfold Network.handle at hok
    cases houtbox : (n.daemon name).outbox with
    | nil =>
      simp only [houtbox] at hok
      cases hok
    | cons tx rest =>
      simp only [houtbox, pure_ok_iff] at hok
      subst hok
      have hsent : n.delivers (.submit name block) = some (.dkg block tx.msg) := by
        simp [Network.delivers, houtbox]
      unfold Network.submit
      cases hchain : Dealer.handle n.chain (.dkg block tx.msg) with
      | ok chain => exact .inl ⟨_, hsent, hchain⟩
      | error err =>
        refine .inr ⟨rfl, fun msg hmsg => ?_⟩
        cases hsent.symm.trans hmsg
        rw [hchain]
        rfl
  | other msg =>
    simp only [Network.handle, ok_iff] at hok
    obtain ⟨-, -, chain, hchain, rfl⟩ := hok
    exact .inl ⟨msg, rfl, hchain⟩

variable {balances : env.poker.bank.Balances} {staking : env.staking.Staking}
  {params : Params} {threshold : String → Nat} {log : List (Event env)} {n : Network env}

theorem Network.reachable_chain (hreach : Reaches (Network.handle aesGcmSeal)
      (Network.genesis env balances staking params threshold) log n) :
    ∃ log', Reaches Dealer.handle (Chain.genesis env balances staking params) log' n.chain := by
  induction hreach with
  | refl => exact ⟨[], .refl⟩
  | step _ hok ih =>
    obtain ⟨log', hlog'⟩ := ih
    rcases Network.handle_chain hok with ⟨msg, -, hmsg⟩ | ⟨hsame, -⟩
    · exact ⟨msg :: log', hlog'.step hmsg⟩
    · rw [hsame]
      exact ⟨log', hlog'⟩

theorem Network.hidden_iff {n n' : Network env} {e : Event env}
    (hsound : DealerSound n.chain.dealer) (hhidden : PolynomialsHidden n.chain)
    (hok : n.handle aesGcmSeal e = .ok n') :
    PolynomialsHidden n'.chain ↔ SparesPolynomials n e := by
  rcases Network.handle_chain hok with ⟨msg, hsent, hmsg⟩ | ⟨hsame, hrejected⟩
  · rw [handle_hidden_iff hsound hhidden hmsg]
    constructor
    · intro hspares msg' hsent' _
      cases hsent.symm.trans hsent'
      exact hspares
    · intro hspares
      exact hspares msg hsent (isOk_iff.mpr ⟨_, hmsg⟩)
  · apply iff_of_true
    · rwa [hsame]
    · intro msg hsent haccepted
      rw [hrejected msg hsent] at haccepted
      cases haccepted

theorem hidden_genesis :
    PolynomialsHidden (Network.genesis env balances staking params threshold).chain :=
  fun _ h => (nomatch h)

theorem Network.hidden_of_versionTwo (hversion : 2 ≤ params.dkgVersionOrDefault)
    (hreach : Reaches (Network.handle aesGcmSeal)
      (Network.genesis env balances staking params threshold) log n) :
    PolynomialsHidden n.chain := by
  induction hreach with
  | refl => exact hidden_genesis
  | step hbefore hok ih =>
    obtain ⟨log', hchain⟩ := Network.reachable_chain hbefore
    have hsound := reachable_dealerSound (reachable_of_reaches hchain)
    apply (Network.hidden_iff hsound ih hok).mpr
    rintro _ - haccepted block req rfl
    obtain ⟨c', hc'⟩ := isOk_iff.mp haccepted
    simp only [Dealer.handle, handleDkg, dkgShareReveal, ok_iff,
      (reachable_epochsFromOne hchain).params] at hc'
    obtain ⟨_, ⟨-, hold, -⟩, -⟩ := hc'
    exact absurd hversion hold

/-- No polynomial becomes public at as many indices as the threshold under version two, which
accepts no reveal, nor in a committee of threshold size, which has too few complainers.  In
other runs it is up to the state that each accepted reveal finds.  The revealed shares leave
the constant term of a polynomial open exactly while they are fewer than the threshold. -/
theorem polynomials_hidden_iff (env : Env) (aesGcmSeal : Seal)
    (balances : env.poker.bank.Balances) (staking : env.staking.Staking) (params : Params)
    (threshold : String → Nat) (events : List (Event env)) :
    ((∀ k, PolynomialsHidden (run (Network.handle aesGcmSeal)
        (Network.genesis env balances staking params threshold) (events.take k)).chain) ↔
      AcceptedMeet (Network.handle aesGcmSeal) SparesPolynomials
        (Network.genesis env balances staking params threshold) events) ∧
    (2 ≤ params.dkgVersionOrDefault →
      PolynomialsHidden (run (Network.handle aesGcmSeal)
        (Network.genesis env balances staking params threshold) events).chain) ∧
    ∀ d, (run (Network.handle aesGcmSeal)
        (Network.genesis env balances staking params threshold)
        events).chain.dealer.dkg = some d →
      (d.members.length ≤ d.threshold →
        ∀ dealer, (revealedIndices d dealer).card < d.threshold) ∧
      ((∀ m ∈ d.members, m.index < env.suite.order) → ∀ m ∈ d.members,
        (SecretOpen env.suite d m.validator ↔
          (revealedIndices d m.validator).card < d.threshold)) := by
  refine ⟨?_, fun hversion => Network.hidden_of_versionTwo hversion (reaches_run events),
    fun d hd => ?_⟩
  · apply forall_take_iff (P := fun n : Network env => PolynomialsHidden n.chain)
    · intro log n e n' hreach hhidden hok
      obtain ⟨log', hchain⟩ := Network.reachable_chain hreach
      have hsound := reachable_dealerSound (reachable_of_reaches hchain)
      exact Network.hidden_iff hsound hhidden hok
    · exact hidden_genesis
  · have hreach : Reaches (Network.handle aesGcmSeal)
        (Network.genesis env balances staking params threshold) _ _ := reaches_run events
    obtain ⟨log', hchain⟩ := Network.reachable_chain hreach
    have hchain := reachable_of_reaches hchain
    have hvalid := (reachable_dealerSound hchain).record d hd
    have hothers := reachable_record othersOnly_stable (fun s d hfresh =>
      ⟨by simp [hfresh.complaints], by simp [hfresh.reveals]⟩) hchain d hd
    have hverified := reachable_record revealsVerified_stable (fun s d hfresh =>
      ⟨by simp [hfresh.commits], by simp [hfresh.reveals]⟩) hchain d hd
    constructor
    · exact hothers.card_lt hvalid
    · intro hrange m hm
      exact secretOpen_iff hvalid hverified (hvalid.committee.named m hm) hrange

end Network

/-! ## Three daemons in version one -/

def paddingSeal : Seal := fun _ _ plaintext _ => plaintext ++ List.replicate 16 0

/-- The daemons of three members run their next handler and send what it prepares. -/
def pollAll (height : Int) (transactions : Nat) : List (Event residueEnv) :=
  ["A", "B", "C"].flatMap fun name =>
    .poll name (fun draw => if draw = 0 then ⟨3, by decide⟩ else ⟨1, by decide⟩) ::
      List.replicate transactions
        (.submit name ⟨height, 1000, Poker.thousand_pos, Poker.thousand_le⟩)

def daemonRun : List (Event residueEnv) :=
  .other (beginEpochMsg 3) :: (pollAll 2 1 ++ pollAll 2 2 ++ pollAll 3 2 ++ pollAll 4 2)

def daemonGenesis : Network residueEnv :=
  Network.genesis residueEnv (0 : Nat) () ⟨0, 0, 0, 0, 1⟩ fun _ => 2

theorem daemonRun_exposes :
    (∃ d ∈ (run (Network.handle paddingSeal) daemonGenesis daemonRun).chain.dealer.dkg,
      d.encryptedShares.length = 6 ∧
      ∀ m ∈ d.members, (revealedIndices d m.validator).card = d.threshold) ∧
    ¬ PolynomialsHidden (run (Network.handle paddingSeal) daemonGenesis daemonRun).chain := by
  have hfacts : ∃ d ∈ (run (Network.handle paddingSeal) daemonGenesis
      daemonRun).chain.dealer.dkg, d.encryptedShares.length = 6 ∧
        (∃ m ∈ d.members, m.validator = "A") ∧
        ∀ m ∈ d.members, (revealedIndices d m.validator).card = d.threshold := by
    decide +kernel
  obtain ⟨d, hd, hshares, ⟨m, hm, -⟩, hall⟩ := hfacts
  refine ⟨⟨d, hd, hshares, hall⟩, fun hhidden => ?_⟩
  have hbelow := hhidden d hd m.validator
  rw [hall m hm] at hbelow
  exact lt_irrefl _ hbelow

end OnChainPoker.Dealer
