import OnChainPoker.Dealer.EpochInvariant

/-!
# One penalty for a validator and an epoch

Every penalty goes through a list of slashed validators: `applyPenalty` is called
for a validator that is not on the list, which then holds it.  The list of a DKG
becomes that of its epoch and the numbers of epochs do not come back, so no pair
of an epoch and a validator is penalised twice in a run.
-/

namespace OnChainPoker.Dealer

open Foundation Crypto
open Poker (Block)

variable {env : Env} {slashed : List String} {calls : List PenaltyCall} {v : String} {c : Chain env}
  {block : Block} {d : DealerDKG} {s s' : State env}

/-! ## Calls -/

structure PenaltyCall where
  epochId : Nat
  validator : String
  distributionHeight : Int
  power : Int
  slashBps : Nat
  jailSeconds : Nat
  blockUnix : Int

def PenaltyCall.apply (keeper : StakingKeeper) (staking : keeper.Staking)
    (call : PenaltyCall) : Except Err keeper.Staking :=
  applyPenalty keeper staking call.validator call.distributionHeight call.power
    call.slashBps call.jailSeconds call.blockUnix

def PenaltyCall.key (call : PenaltyCall) : Nat × String :=
  (call.epochId, call.validator)

/-- The calls, made in order, lead from one staking state and list of slashed
validators to another: each is for a validator that is not on the list yet, and
the list grows by these. -/
structure Penalises (keeper : StakingKeeper) (epochId : Nat)
    (before : keeper.Staking × List String) (calls : List PenaltyCall)
    (after : keeper.Staking × List String) : Prop where
  made : calls.foldlM (PenaltyCall.apply keeper) before.1 = .ok after.1
  under : ∀ call ∈ calls, call.epochId = epochId
  once : (calls.map PenaltyCall.validator).Nodup
  fresh : ∀ call ∈ calls, call.validator ∉ before.2
  listed : ∀ v, v ∈ after.2 ↔ v ∈ before.2 ∨ ∃ call ∈ calls, call.validator = v
  valid : SlashedValid after.2

namespace Penalises

variable {keeper : StakingKeeper} {epochId : Nat}

theorem none {staking : keeper.Staking} (hvalid : SlashedValid slashed) :
    Penalises keeper epochId (staking, slashed) [] (staking, slashed) :=
  ⟨rfl, by simp, by simp, by simp, by simp, hvalid⟩

theorem append {first second third : keeper.Staking × List String} {calls later : List PenaltyCall}
    (h : Penalises keeper epochId first calls second)
    (h' : Penalises keeper epochId second later third) :
    Penalises keeper epochId first (calls ++ later) third := by
  constructor
  · rw [List.foldlM_append, h.made]
    exact h'.made
  · intro call hcall
    rcases List.mem_append.mp hcall with hcall | hcall
    · exact h.under call hcall
    · exact h'.under call hcall
  · rw [List.map_append, List.nodup_append]
    refine ⟨h.once, h'.once, ?_⟩
    -- The later calls are for validators that the earlier ones left unlisted.
    intro v hv w hw hsame
    obtain ⟨call, hcall, rfl⟩ := List.mem_map.mp hv
    obtain ⟨other, hother, rfl⟩ := List.mem_map.mp hw
    apply h'.fresh other hother
    apply (h.listed _).mpr
    exact .inr ⟨call, hcall, hsame⟩
  · intro call hcall hold
    rcases List.mem_append.mp hcall with hcall | hcall
    · exact h.fresh call hcall hold
    · exact h'.fresh call hcall ((h.listed _).mpr (.inl hold))
  · intro v
    rw [h'.listed, h.listed]
    simp only [List.mem_append, or_and_right, exists_or, or_assoc]
  · exact h'.valid

end Penalises

variable {slashed' : List String} {c' : Chain env} {id : Nat}

theorem SlashedValid.slash_new (hvalid : SlashedValid slashed)
    (hflag : Dealer.slash slashed v = (slashed', true)) :
    v ∉ slashed ∧ SlashedValid slashed' ∧ ∀ w, w ∈ slashed' ↔ w = v ∨ w ∈ slashed := by
  have hv : v ≠ "" := by
    rintro rfl
    simp [Dealer.slash] at hflag
  have hlist : (Dealer.slash slashed v).1 = slashed' := by rw [hflag]
  refine ⟨fun hmem => ?_, ?_, fun w => ?_⟩
  · have hold := (hvalid.isSlashed_iff v).mpr hmem
    simp [Dealer.slash, hv, hold] at hflag
  · rw [← hlist]
    exact hvalid.slash v
  · rw [← hlist]
    exact hvalid.mem_slash hv

theorem Penalises.call {keeper : StakingKeeper} {staking staking' : keeper.Staking}
    (hvalid : SlashedValid slashed) (call : PenaltyCall)
    (hflag : slash slashed call.validator = (slashed', true))
    (hmade : call.apply keeper staking = .ok staking') :
    Penalises keeper call.epochId (staking, slashed) [call] (staking', slashed') := by
  obtain ⟨hnew, hvalid', hmem⟩ := hvalid.slash_new hflag
  constructor
  · rw [List.foldlM_cons, hmade]
    rfl
  · simp
  · simp
  · simpa using hnew
  · intro v
    rw [hmem, or_comm]
    simp [eq_comm]
  · exact hvalid'

/-! ## Passes over members and complaints -/

section Pass

variable {Record : Type} {keeper : StakingKeeper} (idOf : Record → Nat)
  (slashedOf : Record → List String)

def PenalisedBy (current next : keeper.Staking × Record) : Prop :=
  SlashedValid (slashedOf current.2) → idOf next.2 = idOf current.2 ∧
    ∃ calls, Penalises keeper (idOf current.2) (current.1, slashedOf current.2)
      calls (next.1, slashedOf next.2)

variable {idOf slashedOf}

theorem PenalisedBy.refl (current : keeper.Staking × Record) :
    PenalisedBy idOf slashedOf current current :=
  fun hvalid => ⟨rfl, [], .none hvalid⟩

theorem PenalisedBy.trans {first second third : keeper.Staking × Record}
    (h : PenalisedBy idOf slashedOf first second) (h' : PenalisedBy idOf slashedOf second third) :
    PenalisedBy idOf slashedOf first third := by
  intro hvalid
  obtain ⟨hid, calls, hcalls⟩ := h hvalid
  obtain ⟨hid', later, hlater⟩ := h' hcalls.valid
  rw [hid] at hid' hlater
  exact ⟨hid', calls ++ later, hcalls.append hlater⟩

theorem foldlM_penalisedBy {Row : Type}
    {step : keeper.Staking × Record → Row → Except Err (keeper.Staking × Record)}
    (hstep : ∀ current row next, step current row = .ok next →
      PenalisedBy idOf slashedOf current next)
    {rows : List Row} {current next : keeper.Staking × Record}
    (hloop : rows.foldlM step current = .ok next) :
    PenalisedBy idOf slashedOf current next :=
  foldlM_invariant (PenalisedBy idOf slashedOf current)
    (fun row _ middle last hinv hok => hinv.trans (hstep middle row last hok))
    (.refl current) hloop

end Pass

section Dkg

variable {s : State env} {block : Block} {current next : env.staking.Staking × DealerDKG}

abbrev DkgPenalised (current next : env.staking.Staking × DealerDKG) : Prop :=
  PenalisedBy DealerDKG.epochId DealerDKG.slashed current next

theorem dkgPenalise_penalised {power : Int} (hok : dkgPenalise s block v power current = .ok next) :
    DkgPenalised current next := by
  obtain ⟨staking, dkg⟩ := current
  intro hvalid
  simp only [dkgPenalise] at hok
  split at hok
  · rw [pure_ok_iff] at hok
    subst hok
    exact ⟨rfl, [], .none hvalid⟩
  · rename_i slashed hflag
    simp only [ok_iff] at hok
    obtain ⟨staking', hmade, rfl⟩ := hok
    exact ⟨rfl, _, .call hvalid ⟨dkg.epochId, v, dkg.startHeight, power,
      s.params.slashBpsDkg, s.params.jailSecondsDkg, block.unix⟩ hflag hmade⟩

theorem penaliseDealers_penalised {offenders : List (String × Int)}
    (hloop : penaliseDealers s block current offenders = .ok next) : DkgPenalised current next :=
  foldlM_penalisedBy (fun _ _ _ => dkgPenalise_penalised) hloop

end Dkg

theorem epochPenalise_penalised {current next : env.staking.Staking × DealerEpoch}
    (hok : epochPenalise c block current v = .ok next) :
    PenalisedBy DealerEpoch.epochId DealerEpoch.slashed current next := by
  obtain ⟨staking, epoch⟩ := current
  intro hvalid
  simp only [epochPenalise] at hok
  split at hok
  · rw [pure_ok_iff] at hok
    subst hok
    exact ⟨rfl, [], .none hvalid⟩
  · rename_i slashed hflag
    simp only [ok_iff] at hok
    obtain ⟨staking', hmade, rfl⟩ := hok
    exact ⟨rfl, _, .call hvalid ⟨epoch.epochId, v, _, _, _, _, _⟩ hflag hmade⟩

/-! ## Messages -/

inductive DkgCalls (s : State env) : List PenaltyCall → State env → Prop
  | moved {d d' : DealerDKG} {calls : List PenaltyCall}
      {staking : env.staking.Staking} :
      s.dkg = some d → d'.epochId = d.epochId →
      Penalises env.staking d.epochId (s.staking, d.slashed) calls
        (staking, d'.slashed) →
      DkgCalls s calls { s with staking := staking, dkg := some d' }
  | aborted {d : DealerDKG} {calls : List PenaltyCall}
      {staking : env.staking.Staking} {slashed : List String} :
      s.dkg = some d →
      Penalises env.staking d.epochId (s.staking, d.slashed) calls (staking, slashed) →
      DkgCalls s calls { s with staking := staking, dkg := none }
  | finalised {d : DealerDKG} {e : DealerEpoch} {calls : List PenaltyCall}
      {staking : env.staking.Staking} :
      s.dkg = some d → e.epochId = d.epochId →
      Penalises env.staking d.epochId (s.staking, d.slashed) calls
        (staking, e.slashed) →
      DkgCalls s calls { s with staking := staking, epoch := some e, dkg := none }

theorem computeEpoch_from {S : Suite} {e : DealerEpoch} (hok : computeEpoch S d = .ok e) :
    e.epochId = d.epochId ∧ e.slashed = d.slashed := by
  simp only [computeEpoch, ok_iff] at hok
  obtain ⟨_, -, _, -, rfl⟩ := hok
  exact ⟨rfl, rfl⟩

section Handlers

variable {s s' : State env} {block : Block}

theorem completeEpoch_calls {d d₁ : DealerDKG} {staking : env.staking.Staking}
    (hd : s.dkg = some d) (hvalid : SlashedValid d.slashed)
    (hbefore : DkgPenalised (s.staking, d) (staking, d₁)) {inFlight : Option DealerDKG}
    (hok : completeEpoch { s with staking := staking, dkg := inFlight } block d₁ = .ok s') :
    ∃ calls, DkgCalls s calls s' := by
  obtain ⟨staking₂, d₂, hsettle, hends⟩ := completeEpoch_ok hok
  rw [settle_eq] at hsettle
  have hboth := hbefore.trans (penaliseDealers_penalised hsettle)
  obtain ⟨hid, calls, hcalls⟩ := hboth hvalid
  refine ⟨calls, ?_⟩
  rcases hends with rfl | ⟨epoch, -, hepoch, rfl⟩
  · exact .aborted hd hcalls
  · obtain ⟨hid', hslashed⟩ := computeEpoch_from hepoch
    rw [← hslashed] at hcalls
    exact .finalised hd (hid'.trans hid) hcalls

theorem handleDkg_calls (hvalid : ∀ d, s.dkg = some d → SlashedValid d.slashed)
    {msg : DkgMsg} (hmsg : ∀ req, msg ≠ .beginEpoch req)
    (hok : handleDkg s block msg = .ok s') : ∃ calls, DkgCalls s calls s' := by
  obtain ⟨d, hd, -, hhandled⟩ := handleDkg_handled hmsg hok
  have hslashed := hvalid d hd
  cases hhandled with
  | commit | encryptedShare | missing | reveal => exact ⟨[], .moved hd rfl (.none hslashed)⟩
  | invalid _ _ _ _ hpenalty | aeadBad _ _ _ hpenalty =>
    obtain ⟨hid, calls, hcalls⟩ := dkgPenalise_penalised hpenalty hslashed
    exact ⟨calls, .moved hd hid hcalls⟩
  | finalize hcomplete => exact completeEpoch_calls hd hslashed (.refl (s.staking, d)) hcomplete
  | timeout _ hmissing hrest =>
    rw [slashMissingCommits_eq] at hmissing
    have hpass := penaliseDealers_penalised hmissing
    obtain ⟨hid, calls, hcalls⟩ := hpass hslashed
    rcases hrest with rfl | hcomplete | rfl
    · exact ⟨calls, .aborted hd hcalls⟩
    · exact completeEpoch_calls hd hslashed hpass hcomplete
    · exact ⟨calls, .moved hd hid hcalls⟩

end Handlers

/-! ## The lists of an epoch number -/

/-- The list of slashed validators kept for an epoch number, during its DKG or
once it is current. -/
inductive SlashedList (s : State env) : Nat → List String → Prop
  | dkg {d : DealerDKG} : s.dkg = some d → SlashedList s d.epochId d.slashed
  | epoch {e : DealerEpoch} : s.epoch = some e → SlashedList s e.epochId e.slashed

namespace SlashedList

variable {s : State env} {id : Nat} {slashed slashed' : List String}

theorem valid (hlist : SlashedList s id slashed) (hsound : DealerSound s) :
    SlashedValid slashed := by
  cases hlist with
  | dkg hd => exact (hsound.record _ hd).slashed
  | epoch he => exact (hsound.epoch _ he).slashed

theorem issued (hlist : SlashedList s id slashed) (hsound : DealerSound s) :
    id < s.nextEpochId := by
  cases hlist with
  | dkg hd => exact hsound.dkg_lt _ hd
  | epoch he => exact hsound.epoch_lt _ he

theorem unique (hlist : SlashedList s id slashed) (hlist' : SlashedList s id slashed')
    (hsound : DealerSound s) : slashed = slashed' := by
  cases hlist with
  | @dkg d hd =>
    generalize hid : d.epochId = id at hlist'
    cases hlist' with
    | dkg hd' =>
      cases hd.symm.trans hd'
      rfl
    | epoch he => exact absurd hid (hsound.epoch_lt_dkg _ _ he hd).ne'
  | @epoch e he =>
    generalize hid : e.epochId = id at hlist'
    cases hlist' with
    | dkg hd => exact absurd hid (hsound.epoch_lt_dkg _ _ he hd).ne
    | epoch he' =>
      cases he.symm.trans he'
      rfl

end SlashedList

/-- What a step with these penalties does to the lists: a penalised validator was
not on the list of its epoch number, and a list that is still there has kept its
validators and holds the penalised ones. -/
structure PenaltyStep (s : State env) (calls : List PenaltyCall) (s' : State env) :
    Prop where
  next : s.nextEpochId ≤ s'.nextEpochId
  once : (calls.map PenaltyCall.key).Nodup
  fresh : ∀ call ∈ calls, ∃ slashed, SlashedList s call.epochId slashed ∧
    call.validator ∉ slashed
  kept : ∀ id slashed', SlashedList s' id slashed' → id < s.nextEpochId →
    ∃ slashed, SlashedList s id slashed ∧ (∀ v ∈ slashed, v ∈ slashed') ∧
      ∀ call ∈ calls, call.epochId = id → call.validator ∈ slashed'

namespace PenaltyStep

variable {s s' : State env}

theorem of_same (hnext : s.nextEpochId ≤ s'.nextEpochId)
    (hsame : ∀ id slashed, SlashedList s' id slashed → id < s.nextEpochId →
      SlashedList s id slashed) : PenaltyStep s [] s' := by
  constructor
  · exact hnext
  · simp
  · simp
  · intro id slashed hlist hlt
    exact ⟨slashed, hsame id slashed hlist hlt, fun _ hv => hv, by simp⟩

theorem of_penalises {epochId : Nat} {staking staking' : env.staking.Staking}
    {slashed slashed' : List String} (hlist : SlashedList s epochId slashed)
    (hcalls : Penalises env.staking epochId (staking, slashed) calls
      (staking', slashed')) (hnext : s'.nextEpochId = s.nextEpochId)
    (hafter : ∀ id l, SlashedList s' id l →
      id = epochId ∧ l = slashed' ∨ id ≠ epochId ∧ SlashedList s id l) :
    PenaltyStep s calls s' := by
  constructor
  · exact hnext.ge
  · apply List.Nodup.of_map Prod.snd
    rw [List.map_map]
    exact hcalls.once
  · intro call hcall
    rw [hcalls.under call hcall]
    exact ⟨slashed, hlist, hcalls.fresh call hcall⟩
  · intro id l hl _
    rcases hafter id l hl with ⟨rfl, rfl⟩ | ⟨hne, hold⟩
    · refine ⟨slashed, hlist, fun v hv => ?_, fun call hcall _ => ?_⟩
      · exact (hcalls.listed v).mpr (.inl hv)
      · exact (hcalls.listed _).mpr (.inr ⟨call, hcall, rfl⟩)
    · refine ⟨l, hold, fun _ hv => hv, fun call hcall hid => ?_⟩
      exact absurd (hid.symm.trans (hcalls.under call hcall)) hne

end PenaltyStep

theorem beginEpoch_penaltyStep {req : MsgBeginEpoch}
    (hok : beginEpoch s block req = .ok s') : PenaltyStep s [] s' := by
  simp only [beginEpoch, ok_iff] at hok
  obtain ⟨-, -, -, -, -, -, -, -, -, -, -, -, -, hid, next, hnext, _, -, _, -, -,
    -, -, -, -, -, -, -, -, -, -, -, -, -, -, -, rfl⟩ := hok
  rw [ne_eq, not_not] at hid
  obtain rfl := Poker.addUint64Checked_ok hnext
  rw [hid]
  apply PenaltyStep.of_same (Nat.le_succ _)
  intro id slashed hlist hlt
  cases hlist with
  | dkg hd =>
    cases hd
    exact absurd rfl hlt.ne
  | epoch he => exact .epoch he

theorem DkgCalls.penaltyStep (hcalls : DkgCalls s calls s') (hsound : DealerSound s) :
    PenaltyStep s calls s' := by
  cases hcalls with
  | moved hd hid hpenalises =>
    refine PenaltyStep.of_penalises (.dkg hd) hpenalises rfl ?_
    intro id l hl
    cases hl with
    | dkg hd' =>
      cases hd'
      exact .inl ⟨hid, rfl⟩
    | epoch he => exact .inr ⟨(hsound.epoch_lt_dkg _ _ he hd).ne, .epoch he⟩
  | aborted hd hpenalises =>
    refine PenaltyStep.of_penalises (.dkg hd) hpenalises rfl ?_
    intro id l hl
    cases hl with
    | dkg hd' => cases hd'
    | epoch he => exact .inr ⟨(hsound.epoch_lt_dkg _ _ he hd).ne, .epoch he⟩
  | finalised hd hid hpenalises =>
    refine PenaltyStep.of_penalises (.dkg hd) hpenalises rfl ?_
    intro id l hl
    cases hl with
    | dkg hd' => cases hd'
    | epoch he =>
      cases he
      exact .inl ⟨hid, rfl⟩

theorem DkgCalls.made (hcalls : DkgCalls s calls s') :
    calls.foldlM (PenaltyCall.apply env.staking) s.staking = .ok s'.staking ∧
      ∀ call ∈ calls, s.dkg.map DealerDKG.epochId = some call.epochId := by
  cases hcalls with
  | moved hd _ hpenalises | aborted hd hpenalises | finalised hd _ hpenalises =>
    refine ⟨hpenalises.made, fun call hcall => ?_⟩
    rw [hd, hpenalises.under call hcall]
    rfl

theorem penaltyPass_calls {c₁ : Chain env} (hpass : PenaltyPass c block c₁)
    (hsound : DealerSound c.dealer) :
    ∃ calls, PenaltyStep c.dealer calls c₁.dealer ∧
      calls.foldlM (PenaltyCall.apply env.staking) c.dealer.staking = .ok c₁.dealer.staking ∧
      ∀ call ∈ calls, c.dealer.epoch.map DealerEpoch.epochId = some call.epochId := by
  cases hpass with
  | none =>
    refine ⟨[], .of_same le_rfl fun _ _ hlist _ => hlist, rfl, ?_⟩
    simp
  | @some _ epoch epoch' validators hepoch hok =>
    simp only [penaliseAll, ok_iff, Prod.mk.injEq] at hok
    obtain ⟨⟨staking, last⟩, hloop, rfl, rfl⟩ := hok
    have hpenalised := foldlM_penalisedBy (fun _ _ _ => epochPenalise_penalised) hloop
    obtain ⟨hid, calls, hcalls⟩ := hpenalised (hsound.epoch epoch hepoch).slashed
    refine ⟨calls, ?_, hcalls.made, fun call hcall => ?_⟩
    · refine PenaltyStep.of_penalises (.epoch hepoch) hcalls rfl ?_
      intro id l hl
      cases hl with
      | dkg hd => exact .inr ⟨(hsound.epoch_lt_dkg _ _ hepoch hd).ne', .dkg hd⟩
      | epoch he =>
        cases he
        exact .inl ⟨hid, rfl⟩
    · rw [hepoch, hcalls.under call hcall]
      rfl

/-! ## Runs -/

def penaltyEpoch (c : Chain env) : Msg env → Option Nat
  | .player _ => none
  | .dkg _ _ => c.dealer.dkg.map DealerDKG.epochId
  | .hand _ _ => c.dealer.epoch.map DealerEpoch.epochId
  | .otherStaking _ => none

/-- The calls of `applyPenalty` in a message: made in order on the staking state,
they give the staking state after it.  This is so for every staking module, also
for one that writes down each call, so it fixes the calls.  The penalties of the
randomness beacon, which `BeginEpoch` draws on, are not among them. -/
def StepCalls (c : Chain env) (msg : Msg env) (calls : List PenaltyCall) : Prop :=
  (∀ call ∈ calls, penaltyEpoch c msg = some call.epochId) ∧
    match msg, handle c msg with
    | .otherStaking _, _ => calls = []
    | .dkg _ (.beginEpoch _), _ => calls = []
    | _, .error _ => calls = []
    | _, .ok c' =>
      calls.foldlM (PenaltyCall.apply env.staking) c.dealer.staking =
        .ok c'.dealer.staking

def RunCalls : Chain env → List (Msg env) → List PenaltyCall → Prop
  | _, [], log => log = []
  | c, msg :: rest, log => ∃ calls later, log = calls ++ later ∧
      StepCalls c msg calls ∧ RunCalls (deliver handle c msg) rest later

theorem handle_calls {msg : Msg env} (hsound : DealerSound c.dealer) (hok : handle c msg = .ok c') :
    ∃ calls, StepCalls c msg calls ∧ PenaltyStep c.dealer calls c'.dealer := by
  cases handle_step hok with
  | player msg _ _ =>
    refine ⟨[], ⟨by simp, ?_⟩, ?_⟩
    · rw [hok]
      rfl
    · exact .of_same le_rfl fun _ _ hlist _ => hlist
  | dkg block msg _ hdealer =>
    by_cases hbegins : ∃ req, msg = .beginEpoch req
    · obtain ⟨req, rfl⟩ := hbegins
      exact ⟨[], ⟨by simp, rfl⟩, beginEpoch_penaltyStep hdealer⟩
    · push Not at hbegins
      obtain ⟨calls, hcalls⟩ := handleDkg_calls
        (fun d hd => (hsound.record d hd).slashed) hbegins hdealer
      obtain ⟨hmade, hunder⟩ := hcalls.made
      refine ⟨calls, ⟨hunder, ?_⟩, hcalls.penaltyStep hsound⟩
      rw [hok]
      cases msg with
      | beginEpoch req => exact absurd rfl (hbegins req)
      | _ => exact hmade
  | hand block msg _ =>
    obtain ⟨c₁, hpass, hact⟩ := handleHand_pass hok
    obtain ⟨calls, hstep, hmade, hunder⟩ := penaltyPass_calls hpass hsound
    have hframe := hact.dealer_frame
    refine ⟨calls, ⟨hunder, ?_⟩, ?_⟩
    · rw [hok]
      dsimp only
      rw [hframe]
      exact hmade
    · rw [hframe]
      refine ⟨hstep.next, hstep.once, hstep.fresh, fun id l hl hlt => ?_⟩
      apply hstep.kept id l _ hlt
      cases hl with
      | dkg hd => exact .dkg hd
      | epoch he => exact .epoch he
  | otherStaking staking =>
    refine ⟨[], ⟨by simp, rfl⟩, ?_⟩
    refine .of_same le_rfl fun id l hl _ => ?_
    cases hl with
    | dkg hd => exact .dkg hd
    | epoch he => exact .epoch he

theorem deliver_calls (msg : Msg env) (hsound : DealerSound c.dealer) :
    DealerSound (deliver handle c msg).dealer ∧ ∃ calls, StepCalls c msg calls ∧
        PenaltyStep c.dealer calls (deliver handle c msg).dealer := by
  cases hm : handle c msg with
  | ok c' =>
    rw [deliver_of_ok hm]
    exact ⟨handle_sound hsound hm, handle_calls hsound hm⟩
  | error err =>
    have hsame : deliver handle c msg = c := by rw [deliver, hm]
    rw [hsame]
    refine ⟨hsound, [], ⟨by simp, ?_⟩, .of_same le_rfl fun _ _ hlist _ => hlist⟩
    rw [hm]
    cases msg with
    | dkg block msg => cases msg <;> rfl
    | _ => rfl

/-- The penalties so far: no pair occurs twice, and a list that is still kept for
an epoch number holds all that were penalised for it. -/
structure LogValid (log : List PenaltyCall) (s : State env) : Prop where
  once : (log.map PenaltyCall.key).Nodup
  issued : ∀ call ∈ log, call.epochId < s.nextEpochId
  listed : ∀ call ∈ log, ∀ slashed, SlashedList s call.epochId slashed →
    call.validator ∈ slashed

theorem LogValid.step {log calls : List PenaltyCall} (hlog : LogValid log s)
    (hsound : DealerSound s) (hstep : PenaltyStep s calls s') : LogValid (log ++ calls) s' := by
  have hnew : ∀ call ∈ calls, call.epochId < s.nextEpochId := by
    intro call hcall
    obtain ⟨slashed, hlist, -⟩ := hstep.fresh call hcall
    exact hlist.issued hsound
  constructor
  · rw [List.map_append, List.nodup_append]
    refine ⟨hlog.once, hstep.once, ?_⟩
    intro key hkey key' hkey' hsame
    obtain ⟨call, hcall, rfl⟩ := List.mem_map.mp hkey
    obtain ⟨other, hother, rfl⟩ := List.mem_map.mp hkey'
    obtain ⟨hid, hname⟩ := Prod.mk.inj hsame
    obtain ⟨slashed, hlist, hfresh⟩ := hstep.fresh other hother
    apply hfresh
    rw [← hname]
    apply hlog.listed call hcall
    rw [hid]
    exact hlist
  · intro call hcall
    rcases List.mem_append.mp hcall with hcall | hcall
    · exact (hlog.issued call hcall).trans_le hstep.next
    · exact (hnew call hcall).trans_le hstep.next
  · intro call hcall slashed' hlist'
    rcases List.mem_append.mp hcall with hcall | hcall
    · obtain ⟨slashed, hlist, hkept, -⟩ := hstep.kept _ _ hlist' (hlog.issued call hcall)
      exact hkept _ (hlog.listed call hcall slashed hlist)
    · obtain ⟨slashed, -, -, hadded⟩ := hstep.kept _ _ hlist' (hnew call hcall)
      exact hadded call hcall rfl

theorem LogValid.run {earlier : List PenaltyCall} (hlog : LogValid earlier c.dealer)
    (hsound : DealerSound c.dealer) (messages : List (Msg env)) :
    ∃ log, RunCalls c messages log ∧
      LogValid (earlier ++ log) (Foundation.run handle c messages).dealer := by
  induction messages generalizing earlier c with
  | nil => exact ⟨[], rfl, by rw [List.append_nil]; exact hlog⟩
  | cons msg rest ih =>
    obtain ⟨hsound', calls, hcalls, hstep⟩ := deliver_calls msg hsound
    obtain ⟨later, hlater, hvalid⟩ := ih (hlog.step hsound hstep) hsound'
    rw [List.append_assoc] at hvalid
    exact ⟨calls ++ later, ⟨calls, later, rfl, hcalls, hlater⟩, hvalid⟩

theorem slashed_run (hsound : DealerSound c.dealer) (messages : List (Msg env))
    (hid : id < c.dealer.nextEpochId)
    (hv : ∀ slashed, SlashedList c.dealer id slashed → v ∈ slashed) :
    ∀ slashed, SlashedList (run handle c messages).dealer id slashed → v ∈ slashed := by
  induction messages generalizing c with
  | nil => exact hv
  | cons msg rest ih =>
    obtain ⟨hsound', calls, -, hstep⟩ := deliver_calls msg hsound
    apply ih hsound' (hid.trans_le hstep.next)
    intro slashed' hlist'
    obtain ⟨slashed, hlist, hkept, -⟩ := hstep.kept id slashed' hlist' hid
    exact hkept v (hv slashed hlist)

/-! ## Slashed members -/

def HandMsg.author : HandMsg → Option String
  | .submitShuffle req => some req.shuffler
  | .submitEncShare req => some req.validator
  | .submitPubShare req => some req.validator
  | _ => none

theorem author_unslashed {msg : HandMsg} (hauthor : msg.author = some v)
    (hok : handleHand c block msg = .ok c') :
    ∃ epoch, c.dealer.epoch = some epoch ∧ isSlashed epoch.slashed v = false := by
  cases msg with
  | submitShuffle req =>
    cases hauthor
    obtain ⟨t, h, dh, epoch, shuffler, _, _, _, -, -, -, -, hepoch, hexpected,
      hshuffler, -⟩ := submitShuffle_spec hok
    refine ⟨epoch, hepoch.current, ?_⟩
    have hmem := List.mem_of_getElem? hexpected
    have hqual := (List.mem_filter.mp hmem).2
    rw [hshuffler]
    simpa using hqual
  | submitEncShare req =>
    cases hauthor
    simp only [handleHand, submitEncShare, ok_iff] at hok
    obtain ⟨-, -, -, -, -, -, -, -, -, -, -, -, ⟨t, h⟩, -, -, -, -, -, dh, -, -, -,
      card, -, -, -, -, -, epoch, hepoch, mem, hmember, -⟩ := hok
    exact ⟨epoch, (handEpoch_ok hepoch).current, (activeMember_ok hmember).2⟩
  | submitPubShare req =>
    cases hauthor
    simp only [handleHand, submitPubShare, ok_iff] at hok
    obtain ⟨-, -, -, -, -, -, -, -, ⟨t, h⟩, -, -, -, -, -, dh, -, card, -, epoch,
      hepoch, mem, hmember, -⟩ := hok
    exact ⟨epoch, (handEpoch_ok hepoch).current, (activeMember_ok hmember).2⟩
  | _ => cases hauthor

def Barred (c : Chain env) (id : Nat) (v : String) : Prop :=
  ∀ epoch, c.dealer.epoch = some epoch → epoch.epochId = id →
    ∀ block msg, msg.author = some v → (handleHand c block msg).isOk = false

theorem barred_of_slashed (hsound : DealerSound c.dealer)
    (hv : ∀ slashed, SlashedList c.dealer id slashed → v ∈ slashed) :
    Barred c id v := by
  intro epoch hepoch hid block msg hauthor
  rw [Bool.eq_false_iff]
  intro hok
  obtain ⟨c', hc'⟩ := isOk_iff.mp hok
  obtain ⟨current, hcurrent, hfree⟩ := author_unslashed hauthor hc'
  cases hepoch.symm.trans hcurrent
  have hmem : v ∈ epoch.slashed := by
    apply hv
    rw [← hid]
    exact .epoch hepoch
  have hslashed := ((hsound.epoch epoch hepoch).slashed.isSlashed_iff v).mpr hmem
  rw [hfree] at hslashed
  cases hslashed

/-- In every run a validator is penalised at most once for an epoch number, by its
DKG or by any hand dealt under it; the lists are strictly increasing and searched
exactly; and a slashed member is heard no more in that epoch. -/
theorem penalised_at_most_once (env : Env) (balances : env.poker.bank.Balances)
    (staking : env.staking.Staking) (params : Params) (messages : List (Msg env)) :
    let genesis := Chain.genesis env balances staking params
    let c := run handle genesis messages
    (∃ log, RunCalls genesis messages log ∧ (log.map PenaltyCall.key).Nodup) ∧
    (∀ id slashed, SlashedList c.dealer id slashed →
      slashed.Pairwise (· < ·) ∧ ∀ v, isSlashed slashed v = true ↔ v ∈ slashed) ∧
    ∀ id slashed, SlashedList c.dealer id slashed → ∀ v ∈ slashed,
      ∀ later, Barred (run handle c later) id v := by
  intro genesis c
  have hstart : DealerSound genesis.dealer := genesis_sound env staking params
  have hreach : Reachable c := reachable_run balances staking params messages
  have hsound : DealerSound c.dealer := reachable_dealerSound hreach
  refine ⟨?_, fun id slashed hlist => ?_, fun id slashed hlist v hv later => ?_⟩
  · have hnone : LogValid [] genesis.dealer := ⟨by simp, by simp, by simp⟩
    obtain ⟨log, hcalls, hvalid⟩ := hnone.run hstart messages
    exact ⟨log, hcalls, hvalid.once⟩
  · have hvalid := hlist.valid hsound
    exact ⟨hvalid.sorted, hvalid.isSlashed_iff⟩
  · have hlater : DealerSound (run handle c later).dealer :=
      reachable_dealerSound (hreach.run later)
    apply barred_of_slashed hlater
    apply slashed_run hsound later (hlist.issued hsound)
    intro slashed' hlist'
    rw [← hlist.unique hlist' hsound]
    exact hv

theorem thirdDealer_barred :
    SlashedList (run handle residueGenesis twoDealersRun).dealer 1 ["C"] ∧
      ∀ later, Barred (run handle (run handle residueGenesis twoDealersRun) later)
        1 "C" := by
  have hepoch : (run handle residueGenesis twoDealersRun).dealer.epoch =
      some twoDealersEpoch := by
    decide +kernel
  have hlist : SlashedList (run handle residueGenesis twoDealersRun).dealer 1 ["C"] :=
    .epoch hepoch
  obtain ⟨-, -, hbarred⟩ :=
    penalised_at_most_once residueEnv (0 : Nat) () residueParams twoDealersRun
  exact ⟨hlist, hbarred 1 ["C"] hlist "C" (by simp)⟩

end OnChainPoker.Dealer
