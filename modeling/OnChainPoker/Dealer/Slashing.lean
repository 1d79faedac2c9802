import OnChainPoker.Foundation.Loop
import OnChainPoker.Dealer.Dkg

/-!
# Who is slashed

The lists of slashed validators are sets: slashing adds one validator and keeps
the rest.  From this, exactly which members `settle` slashes: those without a
commit and those with an unresolved complaint.
-/

namespace OnChainPoker.Dealer

open Foundation Crypto
open Poker (Block)

variable {v : String} {slashed : List String} {d : DealerDKG}

/-! ## The list as a set -/

structure SlashedValid (slashed : List String) : Prop where
  sorted : slashed.Pairwise (· < ·)
  named : "" ∉ slashed

theorem slashedValid_nil : SlashedValid [] := ⟨List.Pairwise.nil, List.not_mem_nil⟩

namespace SlashedValid

variable {slashed : List String}

theorem isSlashed_iff (hvalid : SlashedValid slashed) (v : String) :
    isSlashed slashed v = true ↔ v ∈ slashed := by
  simp only [isSlashed, searchStrings, Bool.and_eq_true, decide_eq_true_eq,
    beq_iff_eq, getElem?_bisect_eq_some_iff hvalid.sorted]
  constructor
  · exact And.right
  · intro hmem
    refine ⟨?_, hmem⟩
    rintro rfl
    exact hvalid.named hmem

theorem mem_slash (hvalid : SlashedValid slashed) {v w : String} (hv : v ≠ "") :
    w ∈ (slash slashed v).1 ↔ w = v ∨ w ∈ slashed := by
  unfold slash
  rw [if_neg hv]
  split
  · rename_i hold
    have hmem := (hvalid.isSlashed_iff v).mp hold
    constructor
    · exact .inr
    · rintro (rfl | hw)
      · exact hmem
      · exact hw
  · exact mem_insertIdx_bisect

theorem slash (hvalid : SlashedValid slashed) (v : String) :
    SlashedValid (Dealer.slash slashed v).1 := by
  by_cases hv : v = ""
  · simpa [Dealer.slash, hv] using hvalid
  refine ⟨?_, fun hempty => ?_⟩
  · unfold Dealer.slash
    rw [if_neg hv]
    split
    · exact hvalid.sorted
    · rename_i hnew
      exact pairwise_insertIdx_bisect hvalid.sorted (mt (hvalid.isSlashed_iff v).mpr hnew)
  · rcases (hvalid.mem_slash hv).mp hempty with hself | hold
    · exact hv hself.symm
    · exact hvalid.named hold

end SlashedValid

theorem slash_flag {slashed slashed' : List String}
    (h : slash slashed v = (slashed', false)) : slashed' = slashed := by
  unfold slash at h
  split at h
  · exact (Prod.mk.inj h).1.symm
  · split at h
    · exact (Prod.mk.inj h).1.symm
    · exact absurd (Prod.mk.inj h).2 (by simp)

/-! ## Slashing in a DKG -/

variable {env : Env} {current next : env.staking.Staking × DealerDKG}

variable {s : State env} {block : Block} {power : Int}

theorem dkgPenalise_spec (hok : dkgPenalise s block v power current = .ok next) :
    next.2 = { current.2 with slashed := (slash current.2.slashed v).1 } := by
  obtain ⟨staking, dkg⟩ := current
  simp only [dkgPenalise] at hok
  split at hok
  · rename_i slashed hflag
    rw [pure_ok_iff] at hok
    subst hok
    rw [hflag, slash_flag hflag]
  · rename_i slashed hflag
    simp only [ok_iff] at hok
    obtain ⟨_, -, rfl⟩ := hok
    rw [hflag]

/-- `d'` is `d` with exactly the validators in `guilty` slashed as well. -/
def Slashes (d d' : DealerDKG) (guilty : Set String) : Prop :=
  ∃ slashed, d' = { d with slashed := slashed } ∧ SlashedValid slashed ∧
    ∀ v, v ∈ slashed ↔ v ∈ guilty ∨ v ∈ d.slashed

theorem Slashes.mem_iff {d' : DealerDKG} {guilty : Set String} (h : Slashes d d' guilty)
    (v : String) :
    v ∈ d'.slashed ↔ v ∈ guilty ∨ v ∈ d.slashed := by
  obtain ⟨_, rfl, -, hmem⟩ := h
  exact hmem v

theorem Slashes.none (hvalid : SlashedValid d.slashed) : Slashes d d ∅ :=
  ⟨d.slashed, rfl, hvalid, by simp⟩

theorem Slashes.trans {d d' d'' : DealerDKG} {first second : Set String}
    (h : Slashes d d' first) (h' : Slashes d' d'' second) :
    Slashes d d'' (first ∪ second) := by
  obtain ⟨middle, rfl, -, hmiddle⟩ := h
  obtain ⟨last, rfl, hvalid, hlast⟩ := h'
  refine ⟨last, rfl, hvalid, fun v => ?_⟩
  rw [hlast, Set.mem_union]
  simp only [hmiddle]
  tauto

theorem dkgPenalise_slashes (hv : v ≠ "") (hvalid : SlashedValid current.2.slashed)
    (hok : dkgPenalise s block v power current = .ok next) :
    Slashes current.2 next.2 {v} :=
  ⟨_, dkgPenalise_spec hok, hvalid.slash v, fun _ => hvalid.mem_slash hv⟩

/-! ## Settlement of a DKG -/

def penaliseDealers (s : State env) (block : Block)
    (current : env.staking.Staking × DealerDKG) (offenders : List (String × Int)) :
    Except Err (env.staking.Staking × DealerDKG) :=
  offenders.foldlM (fun current o => dkgPenalise s block o.1 o.2 current) current

def missingCommits (d : DealerDKG) : List (String × Int) :=
  (d.members.filter fun m => (findDKGCommit d m.validator).isNone).map fun m =>
    (m.validator, m.power)

def unresolvedDealers (S : Suite) (d : DealerDKG) : List (String × Int) :=
  (d.complaints.filter fun row => !complaintResolved S d row).map fun row =>
    (row.dealer, (findDKGMember d row.dealer).elim 0 (·.power))

section Offenders

variable {offenders : List (String × Int)}

theorem dkgPenalise_slashed (hslashed : isSlashed current.2.slashed v = true) (power : Int) :
    dkgPenalise s block v power current = .ok current := by
  have hold : slash current.2.slashed v = (current.2.slashed, false) := by
    unfold slash
    rw [if_pos hslashed, ite_self]
  simp only [dkgPenalise, hold]
  rfl

theorem penaliseDealers_slashed (hall : ∀ o ∈ offenders, isSlashed current.2.slashed o.1 = true) :
    penaliseDealers s block current offenders = .ok current := by
  induction offenders with
  | nil => rfl
  | cons o rest ih =>
    rw [penaliseDealers, List.foldlM_cons, dkgPenalise_slashed (hall o (by simp)), ok_bind]
    exact ih fun o' ho' => hall o' (by simp [ho'])

theorem penaliseDealers_spec (hcurrent : current.2 = { d with slashed := slashed })
    (hok : penaliseDealers s block current offenders = .ok next) :
    ∃ slashed', next.2 = { d with slashed := slashed' } := by
  refine foldlM_invariant (fun current : env.staking.Staking × DealerDKG =>
    ∃ slashed', current.2 = { d with slashed := slashed' }) ?_ ⟨slashed, hcurrent⟩ hok
  rintro o - current next ⟨slashed, hcurrent⟩ hstep
  have hnext := dkgPenalise_spec hstep
  rw [hcurrent] at hnext
  exact ⟨_, hnext⟩

theorem penaliseDealers_slashes (hnamed : ∀ o ∈ offenders, o.1 ≠ "")
    (hvalid : SlashedValid current.2.slashed)
    (hok : penaliseDealers s block current offenders = .ok next) :
    Slashes current.2 next.2 {v | ∃ o ∈ offenders, v = o.1} := by
  induction offenders generalizing current with
  | nil =>
    cases hok
    simpa using Slashes.none hvalid
  | cons o rest ih =>
    rw [penaliseDealers, List.foldlM_cons, bind_ok_iff] at hok
    obtain ⟨middle, hfirst, hrest⟩ := hok
    have hhead := dkgPenalise_slashes (hnamed o (by simp)) hvalid hfirst
    obtain ⟨added, hmiddle, hadded, -⟩ := id hhead
    have htail := ih (fun o' ho' => hnamed o' (by simp [ho'])) (by rw [hmiddle]; exact hadded) hrest
    have hboth := hhead.trans htail
    convert hboth using 1
    ext v
    simp

/-- A loop that penalises what some of its rows name, in a record of which only the list of
slashed validators changes. -/
theorem foldlM_penaliseDealers {α : Type}
    {step : env.staking.Staking × DealerDKG → α → Except Err (env.staking.Staking × DealerDKG)}
    {offends : α → Bool} {named : α → String × Int} {rows : List α}
    (hstep : ∀ a current slashed, current.2 = { d with slashed := slashed } →
      step current a = if offends a then dkgPenalise s block (named a).1 (named a).2 current
        else .ok current) (hcurrent : current.2 = { d with slashed := slashed }) :
    rows.foldlM step current =
      penaliseDealers s block current ((rows.filter offends).map named) := by
  induction rows generalizing current slashed with
  | nil => rfl
  | cons a rest ih =>
    rw [List.foldlM_cons, hstep a current slashed hcurrent]
    by_cases ha : offends a = true
    · rw [if_pos ha, List.filter_cons_of_pos ha, List.map_cons, penaliseDealers, List.foldlM_cons]
      cases hfirst : dkgPenalise s block (named a).1 (named a).2 current with
      | error err => rfl
      | ok middle =>
        have hmiddle := dkgPenalise_spec hfirst
        rw [hcurrent] at hmiddle
        exact ih hmiddle
    · rw [if_neg ha, List.filter_cons_of_neg ha, ok_bind]
      exact ih hcurrent

end Offenders

theorem slashMissingCommits_eq {staking : env.staking.Staking} :
    d.members.foldlM (slashMissingCommit s block) (staking, d) =
      penaliseDealers s block (staking, d) (missingCommits d) := by
  refine foldlM_penaliseDealers (fun m current slashed hcurrent => ?_) rfl
  have hcommit : findDKGCommit current.2 m.validator = findDKGCommit d m.validator := by
    rw [hcurrent]
    rfl
  rw [slashMissingCommit, hcommit]
  cases findDKGCommit d m.validator <;> rfl

theorem settleComplaints_eq (hcurrent : current.2 = { d with slashed := slashed }) :
    d.complaints.foldlM (settleComplaint s block) current =
      penaliseDealers s block current (unresolvedDealers env.suite d) := by
  refine foldlM_penaliseDealers (fun row current slashed hcurrent => ?_) hcurrent
  have hresolved : complaintResolved env.suite current.2 row =
      complaintResolved env.suite d row := by
    rw [hcurrent]
    rfl
  have hmember : findDKGMember current.2 row.dealer = findDKGMember d row.dealer := by
    rw [hcurrent]
    rfl
  rw [settleComplaint, hresolved, hmember]
  by_cases hold : isSlashed current.2.slashed row.dealer = true
  · rw [if_pos hold, dkgPenalise_slashed hold, ite_self]
    rfl
  · rw [if_neg hold]
    cases complaintResolved env.suite d row <;> rfl

theorem settle_eq (s : State env) (block : Block) (d : DealerDKG) :
    settle s block d = penaliseDealers s block (s.staking, d)
      (missingCommits d ++ unresolvedDealers env.suite d) := by
  rw [settle, slashMissingCommits_eq]
  conv_rhs => rw [penaliseDealers, List.foldlM_append]
  rw [← penaliseDealers]
  cases hmissing : penaliseDealers s block (s.staking, d) (missingCommits d) with
  | error err => rfl
  | ok current =>
    obtain ⟨slashed, hcurrent⟩ := penaliseDealers_spec (d := d) rfl hmissing
    exact settleComplaints_eq hcurrent

def Uncommitted (d : DealerDKG) : Set String :=
  {v | ∃ m ∈ d.members, findDKGCommit d m.validator = none ∧ v = m.validator}

def Unresolved (S : Suite) (d : DealerDKG) : Set String :=
  {v | ∃ row ∈ d.complaints, complaintResolved S d row = false ∧ v = row.dealer}

theorem exists_missingCommits : {v | ∃ o ∈ missingCommits d, v = o.1} = Uncommitted d := by
  ext v
  simp [missingCommits, Uncommitted, and_assoc, @eq_comm _ v]

theorem exists_unresolvedDealers (S : Suite) :
    {v | ∃ o ∈ unresolvedDealers S d, v = o.1} = Unresolved S d := by
  ext v
  simp [unresolvedDealers, Unresolved, and_assoc, @eq_comm _ v]

structure NamesValid (d : DealerDKG) : Prop where
  members : ∀ m ∈ d.members, m.validator ≠ ""
  complaints : ∀ row ∈ d.complaints, row.dealer ≠ ""

theorem NamesValid.missing (hnames : NamesValid d) : ∀ o ∈ missingCommits d, o.1 ≠ "" := by
  intro o ho
  obtain ⟨m, hm, rfl⟩ := List.mem_map.mp ho
  exact hnames.members m (List.mem_of_mem_filter hm)

theorem NamesValid.unresolved (hnames : NamesValid d) (S : Suite) :
    ∀ o ∈ unresolvedDealers S d, o.1 ≠ "" := by
  intro o ho
  obtain ⟨row, hrow, rfl⟩ := List.mem_map.mp ho
  exact hnames.complaints row (List.mem_of_mem_filter hrow)

theorem slashMissingCommits_slashes (hnames : NamesValid d)
    (hvalid : SlashedValid d.slashed) {staking : env.staking.Staking}
    (hloop : d.members.foldlM (slashMissingCommit s block) (staking, d) = .ok next) :
    Slashes d next.2 (Uncommitted d) := by
  rw [slashMissingCommits_eq] at hloop
  rw [← exists_missingCommits]
  exact penaliseDealers_slashes hnames.missing hvalid hloop

theorem settle_slashes (hnames : NamesValid d) (hvalid : SlashedValid d.slashed)
    (hok : settle s block d = .ok next) :
    Slashes d next.2 (Uncommitted d ∪ Unresolved env.suite d) := by
  rw [settle_eq] at hok
  have hnamed : ∀ o ∈ missingCommits d ++ unresolvedDealers env.suite d, o.1 ≠ "" :=
    List.forall_mem_append.mpr ⟨hnames.missing, hnames.unresolved env.suite⟩
  convert penaliseDealers_slashes hnamed hvalid hok using 1
  simp only [← exists_missingCommits, ← exists_unresolvedDealers, List.mem_append, or_and_right,
    exists_or, Set.ofPred_or]

/-- Once those without a commit are slashed, settling goes on with the complaints. -/
theorem settle_after_missing (hnames : NamesValid d) (hvalid : SlashedValid d.slashed)
    {staking : env.staking.Staking} {d' : DealerDKG}
    (hmissing : d.members.foldlM (slashMissingCommit s block) (s.staking, d) = .ok (staking, d')) :
    settle { s with staking := staking, dkg := some d' } block d' = settle s block d := by
  obtain ⟨slashed, rfl, hslashed, hmem⟩ := slashMissingCommits_slashes hnames hvalid hmissing
  rw [slashMissingCommits_eq] at hmissing
  rw [settle_eq, settle_eq]
  conv_rhs => rw [penaliseDealers, List.foldlM_append, ← penaliseDealers, hmissing, ok_bind]
  conv_lhs => rw [penaliseDealers, List.foldlM_append, ← penaliseDealers]
  rw [penaliseDealers_slashed fun o ho => ?_]
  · rfl
  · rw [hslashed.isSlashed_iff, hmem, ← exists_missingCommits]
    exact .inl ⟨o, ho, rfl⟩

end OnChainPoker.Dealer
