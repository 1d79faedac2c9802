import OnChainPoker.Dealer.Progress
import OnChainPoker.Poker.RevealProgress

/-!
# Encrypted hole shares

Every stored share is for a hole card of a seat in the hand and, as long as shares
are collected, under the key of that seat.  When the collection times out, the
members that are left have delivered all their shares, so the hand goes on unless
too few of them are left.
-/

namespace OnChainPoker.Dealer

open Foundation Crypto
open Poker (Block Table Hand Seats SeatIdx unsetPos DealtApart DeckDealt
  SupplyFits)

variable {env : Env} {h : Hand} {seat : SeatIdx} {e : DealerEpoch}

/-! ## Where shares are filed -/

structure HoleSharesFiled (seats : Seats) (h : Hand) (dh : DealerHand) : Prop where
  filed : h.phase = .shuffle → ∀ es ∈ dh.encShares, ∃ seat hole,
    h.inHand seat = true ∧ h.dealer.holePos seat hole = es.pos ∧
    (seats seat).pk = es.pkPlayer
  undealt : dh.finalized = false → dh.encShares = []
  distinct : dh.encShares.Pairwise fun a b => a.pos = b.pos → a.validator ≠ b.validator

theorem isHolePos_some {pos : Nat} (hfind : isHolePos h pos = some seat) :
    h.inHand seat = true ∧ ∃ hole, h.dealer.holePos seat hole = pos := by
  have hseat := List.find?_some hfind
  simp only [Bool.and_eq_true, Bool.or_eq_true, decide_eq_true_eq] at hseat
  refine ⟨hseat.1, ?_⟩
  rcases hseat.2 with hpos | hpos
  · exact ⟨0, hpos⟩
  · exact ⟨1, hpos⟩

theorem encShares_distinct_symm : ∀ {a b : DealerEncShare},
    (a.pos = b.pos → a.validator ≠ b.validator) → b.pos = a.pos → b.validator ≠ a.validator :=
  fun hdistinct hpos => (hdistinct hpos.symm).symm

theorem HoleSharesFiled.add {c : Chain env} {tid : Nat} {t : Table} {dh : DealerHand}
    {epoch : DealerEpoch} {es : DealerEncShare} (hfiled : HoleSharesFiled t.seats h dh)
    (hchecked : EncShareChecked c tid t h dh epoch es) :
    HoleSharesFiled t.seats h { dh with encShares := sortEncShares (dh.encShares ++ [es]) } := by
  constructor
  · intro hphase other hother
    rcases List.mem_append.mp (mem_sortSlice.mp hother) with hold | hnew
    · exact hfiled.filed hphase other hold
    · rw [List.mem_singleton] at hnew
      subst hnew
      obtain ⟨seat, hfind, hpk⟩ := hchecked.seat
      obtain ⟨hin, hole, hpos⟩ := isHolePos_some hfind
      exact ⟨seat, hole, hin, hpos, hpk⟩
  · intro hopen
    have hfinal := hchecked.finalized
    rw [show dh.finalized = false from hopen] at hfinal
    cases hfinal
  · refine ((sortSlice_perm _ _).pairwise_iff encShares_distinct_symm).mpr ?_
    rw [List.pairwise_append]
    refine ⟨hfiled.distinct, List.pairwise_singleton _ _, ?_⟩
    intro a ha b hb
    rw [List.mem_singleton] at hb
    subst hb
    exact hchecked.fresh a ha

theorem HoleSharesFiled.of_same {seats seats' : Seats} {h h' : Hand}
    {dh dh' : DealerHand} (hfiled : HoleSharesFiled seats h dh)
    (hshares : dh'.encShares = dh.encShares) (hfinal : dh'.finalized = dh.finalized)
    (hopening : h'.phase = .shuffle → h.phase = .shuffle ∧ h'.inHand = h.inHand ∧
      h'.dealer.holePos = h.dealer.holePos ∧
      ∀ i, h.inHand i = true → (seats' i).pk = (seats i).pk) :
    HoleSharesFiled seats' h' dh' := by
  refine ⟨fun hphase es hes => ?_, ?_, ?_⟩
  · obtain ⟨hold, hin, hpos, hkeys⟩ := hopening hphase
    rw [hshares] at hes
    obtain ⟨seat, hole, hseat, hslot, hpk⟩ := hfiled.filed hold es hes
    refine ⟨seat, hole, ?_, ?_, ?_⟩
    · rw [hin]
      exact hseat
    · rw [hpos]
      exact hslot
    · rw [hkeys seat hseat]
      exact hpk
  · rw [hfinal, hshares]
    exact hfiled.undealt
  · rw [hshares]
    exact hfiled.distinct

theorem holeSharesFiled_invariant : PairInvariant (fun (_ : Chain env) (_ : Msg env) => True)
    (fun _ _ t h dh => HoleSharesFiled t.seats h dh) where
  opened := by
    intro c tid t t' h h' dh epoch _ hopened
    have hnone := hopened.initial.encShares
    refine ⟨fun _ es hes => ?_, fun _ => hnone, ?_⟩
    · rw [hnone] at hes
      cases hes
    · rw [hnone]
      exact .nil
  step := by
    intro c₀ c msg tid t t' h h' dh dh' hvalid _ _ hat hfiled hstep
    have hstanding := hat.standing hvalid
    cases hstep with
    | idle => exact hfiled
    | play hon =>
      refine hfiled.of_same rfl rfl fun hphase => ?_
      obtain ⟨_, rfl⟩ := hon.follows.opening hphase
      refine ⟨hphase, rfl, rfl, fun i hin => (hon.seat i ?_).2.1⟩
      have hstays := hstanding.unfolded hphase i
      simp [Poker.inHandNotFolded, hin, hstays]
    | shuffle _ _ _ hphase _ _ _ _ _ _ =>
      exact hfiled.of_same rfl rfl fun _ => ⟨hphase, rfl, rfl, fun _ _ => rfl⟩
    | finalizeDeck _ hopen _ _ _ =>
      have hnone := hfiled.undealt hopen
      refine ⟨fun _ es hes => ?_, fun _ => hnone, hfiled.distinct⟩
      change es ∈ dh.encShares at hes
      rw [hnone] at hes
      cases hes
    | encShare hchecked => exact hfiled.add hchecked
    | advance hadds _ _ hleft _ _ _ =>
      rcases hadds with rfl | ⟨es, hchecked, rfl⟩
      · exact ⟨fun hphase => absurd hphase hleft, hfiled.undealt, hfiled.distinct⟩
      · have hadded := hfiled.add hchecked
        exact ⟨fun hphase => absurd hphase hleft, hadded.undealt, hadded.distinct⟩
    | pubShare | extend _ _ _ =>
      exact hfiled.of_same rfl rfl fun hphase => ⟨hphase, rfl, rfl, fun _ _ => rfl⟩
    | reveal block hpos _ _ hreveal hdeadlines _ =>
      have hplay := Poker.HandStep.reveal _ _ block hreveal hdeadlines
      refine hfiled.of_same rfl rfl fun hphase => absurd ?_ hpos
      obtain ⟨_, rfl⟩ := hplay.follows.opening hphase
      have hunset := hstanding.reveal
      rw [Poker.RevealValid, if_pos hphase] at hunset
      exact hunset.1
  later := fun _ _ _ hfiled => hfiled

/-! ## Who is left -/

theorem penaliseAll_slashes {c c₁ : Chain env} {block : Block} {e e₁ : DealerEpoch}
    {validators : List String} (hslashed : SlashedValid e.slashed)
    (hok : penaliseAll c block e validators = .ok (c₁, e₁)) :
    ∀ v ∈ validators, v ≠ "" → v ∈ e₁.slashed := by
  simp only [penaliseAll, ok_iff, Prod.mk.injEq] at hok
  obtain ⟨⟨staking, last⟩, hloop, -, rfl⟩ := hok
  suffices hall : ∀ (vs : List String) (current : env.staking.Staking × DealerEpoch),
      SlashedValid current.2.slashed →
      vs.foldlM (epochPenalise c block) current = .ok (staking, last) →
      (∀ v ∈ current.2.slashed, v ∈ last.slashed) ∧
        ∀ v ∈ vs, v ≠ "" → v ∈ last.slashed from (hall validators _ hslashed hloop).2
  intro vs
  induction vs with
  | nil =>
    rintro current hvalid hend
    cases hend
    exact ⟨fun _ hv => hv, fun _ hv => by cases hv⟩
  | cons v rest ih =>
    rintro current hvalid hrun
    rw [List.foldlM_cons, bind_ok_iff] at hrun
    obtain ⟨next, hfirst, hrest⟩ := hrun
    obtain ⟨hgrows, hnext⟩ := epochPenalise_grows hfirst
    obtain ⟨hkept, hlater⟩ := ih next (hgrows.valid hvalid) hrest
    refine ⟨fun w hw => hkept w (hgrows.grows hvalid w hw), fun w hw hname => ?_⟩
    rcases List.mem_cons.mp hw with rfl | hw
    · apply hkept
      rw [hnext, hvalid.mem_slash hname]
      exact .inl rfl
    · exact hlater w hw hname

theorem mem_epochQualMembers (hvalid : SlashedValid e.slashed) {m : DealerMember} :
    m ∈ epochQualMembers e ↔ m ∈ e.members ∧ m.validator ∉ e.slashed := by
  rw [epochQualMembers, qualMembers, List.mem_filter, ← hvalid.isSlashed_iff]
  simp

/-- Whoever is left after the penalties was not on their list. -/
theorem qual_of_penaliseAll {c c₁ : Chain env} {block : Block} {e₁ : DealerEpoch}
    {missing : List String} (hepoch : EpochValid env.suite e) (hepoch₁ : EpochValid env.suite e₁)
    (hgrows : SlashGrows e e₁) (hok : penaliseAll c block e missing = .ok (c₁, e₁))
    {m : DealerMember} (hm : m ∈ epochQualMembers e₁) :
    m ∈ epochQualMembers e ∧ m.validator ∉ missing := by
  refine ⟨(hgrows.qual_sublist hepoch.slashed).subset hm, fun hlisted => ?_⟩
  obtain ⟨hmember, hfree⟩ := (mem_epochQualMembers hepoch₁.slashed).mp hm
  have hname := hepoch₁.committee.named m hmember
  exact hfree (penaliseAll_slashes hepoch.slashed hok m.validator hlisted hname)

theorem qual_length_le (hcommittee : CommitteeValid e.members) {validators : List String}
    (hall : ∀ m ∈ epochQualMembers e, m.validator ∈ validators) :
    (epochQualMembers e).length ≤ validators.length := by
  have hnodup : ((epochQualMembers e).map (·.validator)).Nodup :=
    hcommittee.validators.sublist (List.filter_sublist.map _)
  have hsub : (epochQualMembers e).map (·.validator) ⊆ validators := by
    intro v hv
    obtain ⟨m, hm, rfl⟩ := List.mem_map.mp hv
    exact hall m hm
  have hle := (List.subperm_of_subset hnodup hsub).length_le
  rwa [List.length_map] at hle

/-! ## Readiness -/

section Ready

variable {seats : Seats} {h : Hand} {dh : DealerHand} {e : DealerEpoch}

theorem requiredHolePos_succeeds (hdealt : DeckDealt h) (cells : List SeatIdx) :
    ∃ required, requiredHolePos h cells = .ok required ∧
      ∀ seat ∈ cells, h.inHand seat = true → ∀ hole, h.dealer.holePos seat hole ∈ required := by
  induction cells with
  | nil => exact ⟨[], rfl, fun _ hseat => by cases hseat⟩
  | cons first rest ih =>
    obtain ⟨required, hok, hall⟩ := ih
    unfold requiredHolePos
    split
    · rename_i hout
      refine ⟨required, hok, fun seat hseat hin => ?_⟩
      rcases List.mem_cons.mp hseat with rfl | hseat
      · rw [hout] at hin
        cases hin
      · exact hall seat hseat hin
    · rename_i hin
      have hset := fun hole => hdealt.2.2 first hole (by simpa using hin)
      rw [rejectIf_bind (by simp [hset]), hok]
      refine ⟨_, rfl, fun seat hseat hseated hole => ?_⟩
      rcases List.mem_cons.mp hseat with rfl | hseat
      · have hhole : hole = 0 ∨ hole = 1 := by omega
        rcases hhole with rfl | rfl <;> simp
      · exact List.mem_cons_of_mem _ (List.mem_cons_of_mem _ (hall seat hseat hseated hole))

theorem dealerMissingHoleEncShares_succeeds (hdealt : DeckDealt h) (e : DealerEpoch)
    (dh : DealerHand) :
    ∃ missing, dealerMissingHoleEncShares e h dh = .ok missing ∧
      (∀ v ∈ missing, v ∈ e.members.map (·.validator)) ∧
      ∀ m ∈ epochQualMembers e, m.validator ∉ missing →
        ∀ seat hole, h.inHand seat = true → ∃ es ∈ dh.encShares,
          es.validator = m.validator ∧ es.pos = h.dealer.holePos seat hole := by
  obtain ⟨required, hok, hall⟩ := requiredHolePos_succeeds hdealt (List.finRange 9)
  rw [dealerMissingHoleEncShares, hok, ok_bind]
  refine ⟨_, rfl, fun v hv => ?_, fun m hm hpresent seat hole hin => ?_⟩
  · obtain ⟨m, hm, rfl⟩ := List.mem_map.mp (mem_sortSlice.mp hv)
    have hqual := List.mem_of_mem_filter hm
    exact List.mem_map.mpr ⟨m, List.mem_of_mem_filter hqual, rfl⟩
  · by_contra hnone
    push Not at hnone
    refine hpresent (mem_sortSlice.mpr (List.mem_map.mpr ⟨m, ?_, rfl⟩))
    refine List.mem_filter.mpr ⟨hm, ?_⟩
    simp only [Bool.or_eq_true, List.any_eq_true, Bool.not_eq_true']
    refine .inr ⟨_, hall seat (List.mem_finRange seat) hin hole, ?_⟩
    rw [List.any_eq_false]
    intro es hes
    obtain ⟨hstored, hname⟩ := List.mem_filter.mp hes
    simpa using hnone es hstored (by simpa using hname)

section

variable (hfiled : HoleSharesFiled seats h dh) (hphase : h.phase = .shuffle)
  (hdeal : DealtApart h) (hdealt : DeckDealt h)
include hfiled hphase hdeal hdealt

theorem HoleSharesFiled.key {es : DealerEncShare} (hes : es ∈ dh.encShares) {hole : Fin 2}
    (hin : h.inHand seat = true) (hpos : es.pos = h.dealer.holePos seat hole) :
    es.pkPlayer = (seats seat).pk := by
  obtain ⟨other, slot, hother, hslot, hpk⟩ := hfiled.filed hphase es hes
  have hset := hdealt.2.2 other slot hother
  obtain ⟨rfl, -⟩ := hdeal.slots.apart other slot seat hole hset (hslot.trans hpos)
  exact hpk.symm

theorem HoleSharesFiled.count (hcommittee : CommitteeValid e.members) {hole : Fin 2}
    (hin : h.inHand seat = true)
    (hposted : ∀ m ∈ epochQualMembers e, ∃ es ∈ dh.encShares,
      es.validator = m.validator ∧ es.pos = h.dealer.holePos seat hole) :
    (epochQualMembers e).length ≤ dh.encShares.countP fun es =>
      es.pos = h.dealer.holePos seat hole && es.pkPlayer = (seats seat).pk := by
  rw [List.countP_eq_length_filter, ← List.length_map (fun es : DealerEncShare => es.validator)]
  apply qual_length_le hcommittee
  intro m hm
  obtain ⟨es, hes, hname, hpos⟩ := hposted m hm
  refine List.mem_map.mpr ⟨es, List.mem_filter.mpr ⟨hes, ?_⟩, hname⟩
  simp [hpos, hfiled.key hphase hdeal hdealt hes hin hpos]

end

theorem seatSharesReady_true {need : Nat} {pk : Bytes}
    (hset : ∀ hole, h.dealer.holePos seat hole ≠ unsetPos)
    (hmany : ∀ hole, need ≤ dh.encShares.countP fun es =>
      es.pos = h.dealer.holePos seat hole && es.pkPlayer = pk) (holes : List (Fin 2)) :
    seatSharesReady need h.dealer dh seat pk holes = .ok true := by
  induction holes with
  | nil => rfl
  | cons hole rest ih =>
    rw [seatSharesReady, rejectIf_bind (hset hole), if_neg (not_lt.mpr (hmany hole)), ih]

theorem seatsSharesReady_true {need : Nat}
    (hkeys : ∀ seat, h.inHand seat = true → (seats seat).pk.length = 32)
    (hset : ∀ seat hole, h.inHand seat = true → h.dealer.holePos seat hole ≠ unsetPos)
    (hmany : ∀ seat hole, h.inHand seat = true → need ≤ dh.encShares.countP fun es =>
        es.pos = h.dealer.holePos seat hole && es.pkPlayer = (seats seat).pk)
    (cells : List SeatIdx) : seatsSharesReady need seats h dh cells = .ok true := by
  induction cells with
  | nil => rfl
  | cons seat rest ih =>
    unfold seatsSharesReady
    split
    · exact ih
    · rename_i hin
      replace hin : h.inHand seat = true := by simpa using hin
      rw [rejectIf_bind (by simp [hkeys seat hin]), seatSharesReady_true (fun hole => hset seat hole
        hin) (fun hole => hmany seat hole hin), ok_bind, if_pos rfl, ih]

end Ready

/-! ## The timeout -/

section Timeout

variable {c c' : Chain env} {block : Block} {tid : Nat} {t : Table} {h : Hand}
  {dh : DealerHand} {e : DealerEpoch}

structure TooFewLeft (c' : Chain env) (tid : Nat) (t : Table) (h : Hand) : Prop where
  aborted : Aborted c' tid t h
  few : ∃ e', c'.dealer.epoch = some e' ∧ (epochQualMembers e').length < e'.threshold

inductive HoleSharesOutcome (c' : Chain env) (tid : Nat) (t : Table) (h : Hand) : Prop
  | advanced {t' : Table} {h' : Hand} :
      c'.poker.getTable tid = some t' → t'.hand = some h' → h'.handId = h.handId →
      h'.phase ≠ .shuffle → HoleSharesOutcome c' tid t h
  | aborted : TooFewLeft c' tid t h → HoleSharesOutcome c' tid t h

theorem abortHand_tooFew (hvalid : ChainValid c) (hsupply : SupplyFits c.poker)
    (hat : AtHand c tid t h dh) (he : c.dealer.epoch = some e)
    (hfew : (epochQualMembers e).length < e.threshold) :
    ∃ c', abortHand c tid h.handId = .ok c' ∧ TooFewLeft c' tid t h := by
  obtain ⟨c', hok, haborted⟩ := abortHand_succeeds hvalid hsupply hat
  refine ⟨c', hok, haborted, e, ?_, hfew⟩
  rw [abortHand_epoch hok]
  exact he

theorem deckDealt_of_finalized (hvalid : ChainValid c) (hat : AtHand c tid t h dh)
    (hsize : dh.deckSize = 52) (hfinal : dh.finalized = true) :
    h.dealer.deckFinalized = true ∧ DeckDealt h := by
  have hagrees := hat.agrees hvalid.linked
  obtain ⟨hdeck, hdone⟩ := hagrees
  have hfinal' : h.dealer.deckFinalized = true := hdone.trans hfinal
  have hstanding := hat.standing hvalid
  exact ⟨hfinal', (hstanding.deck (.inr (hdeck.trans hsize))).dealt hfinal'⟩

theorem advanceHand_succeeds (hvalid : ChainValid c) (hat : AtHand c tid t h dh)
    (hphase : h.phase = .shuffle) (hdealt : DeckDealt h)
    (hfinal : h.dealer.deckFinalized = true) (block : Block) :
    ∃ c', advanceHand c block tid h.handId dh = .ok c' ∧ HoleSharesOutcome c' tid t h := by
  obtain ⟨h', hid, hleft, hadvance⟩ := Poker.advanceAfterHoleSharesReady_succeeds
    hat.table hat.hand (hvalid.tables tid t hat.table) hdealt hfinal hphase block
  have hget := getTable_setHand hvalid.linked.solvent.1 hat.table (some h') tid
  rw [if_pos rfl] at hget
  refine ⟨{ c.setHand tid h.handId { dh with holeSharesDeadline := 0 } with
    poker := c.poker.setTable { t with hand := some h' } }, ?_, ?_⟩
  · rw [advanceHand]
    rw [show (c.setHand tid h.handId { dh with holeSharesDeadline := 0 }).poker =
      c.poker from rfl, hadvance]
    rfl
  · exact .advanced hget rfl hid hleft

theorem timeoutHoleShares_penalises
    (hok : timeoutHoleShares c block tid h.handId t h dh e = .ok c') :
    ∃ missing, dealerMissingHoleEncShares e h dh = .ok missing ∧
      PenaltiesAccepted c block e missing := by
  simp only [timeoutHoleShares, ok_iff] at hok
  obtain ⟨-, -, -, -, missing, hmissing, result, hpenalty, -⟩ := hok
  exact ⟨missing, hmissing, result, hpenalty⟩

theorem timeoutHoleShares_succeeds (hvalid : ChainValid c) (hsupply : SupplyFits c.poker)
    (hpenalties : ∃ missing, dealerMissingHoleEncShares e h dh = .ok missing ∧
      PenaltiesAccepted c block e missing) (hset : DeadlinesSet h dh)
    (hfiled : HoleSharesFiled t.seats h dh) (hat : AtHand c tid t h dh) (hin : InEpoch c dh e)
    (hsize : dh.deckSize = 52) (hphase : h.phase = .shuffle) (hfinal : dh.finalized = true)
    (hlate : dh.holeSharesDeadline ≤ block.unix) :
    ∃ c', timeoutHoleShares c block tid h.handId t h dh e = .ok c' ∧
      HoleSharesOutcome c' tid t h := by
  have hepoch := hvalid.sound.epoch e hin.current
  have hstanding := hvalid.tables tid t hat.table
  have hhand := hstanding.hand h hat.hand
  obtain ⟨hdone, hdealt⟩ := deckDealt_of_finalized hvalid hat hsize hfinal
  obtain ⟨missing, hmissing, -, hposted⟩ := dealerMissingHoleEncShares_succeeds hdealt e dh
  obtain ⟨_, hlisted, ⟨c₁, e₁⟩, hpenalty⟩ := hpenalties
  cases hmissing.symm.trans hlisted
  obtain ⟨hpenalised, he₁, hgrows⟩ := penaliseAll_penalised hin.current hpenalty
  have hvalid₁ := hvalid.penalised hpenalised
  have hat₁ := hat.penalised hpenalised
  have hdeadline := hset.holeShares hphase hfinal
  rw [timeoutHoleShares, rejectIf_bind (by omega), rejectIf_bind (by omega), hmissing]
  dsimp only [Except.mapError]
  rw [ok_bind, hpenalty, ok_bind]
  dsimp only
  split
  · rename_i hfew
    obtain ⟨c', hok, houtcome⟩ := abortHand_tooFew hvalid₁
      (SupplyFits.penalised hsupply hpenalised) hat₁ he₁ hfew
    exact ⟨c', hok, .aborted houtcome⟩
  -- Whoever is left has posted every share, so there are enough of each.
  have hepoch₁ := hvalid₁.sound.epoch e₁ he₁
  have hleft : ∀ m ∈ epochQualMembers e₁, ∀ seat hole, h.inHand seat = true →
      ∃ es ∈ dh.encShares, es.validator = m.validator ∧ es.pos = h.dealer.holePos seat hole := by
    intro m hm
    obtain ⟨hold, hfree⟩ := qual_of_penaliseAll hepoch hepoch₁ hgrows hpenalty hm
    exact hposted m hold hfree
  have hlive : ∀ seat, h.inHand seat = true → (t.seats seat).pk.length = 32 := by
    intro seat hseat
    refine hstanding.keys seat (hhand.seated seat ?_)
    simp [Poker.inHandNotFolded, hseat, hhand.unfolded hphase seat]
  have hready : dealerHoleEncSharesReady e₁ t.seats h dh = .ok true := by
    have hthreshold := hepoch₁.threshold
    rw [dealerHoleEncSharesReady, if_neg (by simp [hdone]), rejectIf_bind (by omega)]
    refine seatsSharesReady_true hlive (fun seat hole => hdealt.2.2 seat hole)
      (fun seat hole hseat => ?_) _
    have hcount := hfiled.count hphase hhand.deal hdealt hepoch₁.committee hseat
      (fun m hm => hleft m hm seat hole hseat)
    omega
  rw [hready]
  exact advanceHand_succeeds hvalid₁ hat₁ hphase hdealt hdone block

end Timeout

end OnChainPoker.Dealer
