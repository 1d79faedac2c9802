import OnChainPoker.Dealer.Refinement

/-!
# Who shuffles a hand

The next shuffler of a hand is the qualified member whose place is the number of
shuffles so far, and a slash on any table shifts the places.  What survives every
interleaving: the shufflers of a hand are different members, none of whom is
still ahead in the list.  So a deck has been shuffled by every member that is
left exactly when no shuffler of it has been slashed.
-/

namespace OnChainPoker.Dealer

open Foundation Crypto
open Poker (Block Table Hand HandOver IdLater Later finalizeDealerMeta)

variable {env : Env} {e e' : DealerEpoch} {s s' : State env} {c c' : Chain env} {dh : DealerHand}
  {handID : Nat} {log : List (Msg env)}

/-! ## Epochs of the stored hands -/

theorem SlashGrows.qual_sublist (hgrows : SlashGrows e e') (hvalid : SlashedValid e.slashed) :
    (epochQualMembers e').Sublist (epochQualMembers e) := by
  have hmembers : e'.members = e.members := by rw [hgrows.same]
  rw [epochQualMembers, epochQualMembers, hmembers]
  apply List.monotone_filter_right
  intro m hfree
  simp only [Bool.not_eq_true', Bool.eq_false_iff, ne_eq] at hfree ⊢
  rw [hvalid.isSlashed_iff]
  rw [(hgrows.valid hvalid).isSlashed_iff] at hfree
  exact fun hslashed => hfree (hgrows.grows hvalid _ hslashed)

/-- The epoch stays, perhaps with more members slashed, or a later one takes its
place. -/
def EpochLater (s s' : State env) : Prop :=
  ∀ e, s.epoch = some e →
    ∃ e', s'.epoch = some e' ∧ (SlashGrows e e' ∨ e.epochId < e'.epochId)

theorem EpochLater.of_eq (hsame : s'.epoch = s.epoch) : EpochLater s s' :=
  fun e he => ⟨e, hsame.trans he, .inl (.refl e)⟩

theorem Penalised.epochLater (hpenalty : Penalised c c') : EpochLater c.dealer c'.dealer := by
  cases hpenalty with
  | none => exact .of_eq rfl
  | some hepoch hgrows =>
    intro e he
    cases hepoch.symm.trans he
    exact ⟨_, rfl, .inl hgrows⟩

theorem DkgEffect.epochLater {height : Int} (heffect : DkgEffect s height s')
    (hsound : DealerSound s) :
    EpochLater s s' := by
  cases heffect with
  | begun _ _ | moved _ _ | aborted _ => exact .of_eq rfl
  | @finalised d d' staking epoch hd hslashes _ hepoch =>
    intro e he
    obtain ⟨-, hid⟩ := computeEpoch_valid (hslashes.recordValid (hsound.record d hd)) hepoch
    obtain ⟨slashed, rfl, -, -⟩ := hslashes
    refine ⟨epoch, rfl, .inr ?_⟩
    rw [hid]
    exact hsound.epoch_lt_dkg e d he hd

/-! ## Accepted shuffles -/

def shufflerOf (tableID handID : Nat) : Msg env → Option String
  | .hand _ (.submitShuffle req) =>
    if req.tableId = tableID ∧ req.handId = handID then some req.shuffler
    else none
  | _ => none

def shufflers (log : List (Msg env)) (tableID handID : Nat) : List String :=
  log.filterMap (shufflerOf tableID handID)

structure ShuffledBy (s : State env) (names : List String) (dh : DealerHand) :
    Prop where
  count : names.length = dh.shuffleStep
  nodup : names.Nodup
  epoch : ∃ e, s.epoch = some e ∧ dh.epochId ≤ e.epochId
  members : ∀ e, s.epoch = some e → e.epochId = dh.epochId →
    ∀ v ∈ names, v ∈ e.members.map (·.validator)
  ahead : ∀ e, s.epoch = some e → e.epochId = dh.epochId →
    ∀ m ∈ (epochQualMembers e).drop dh.shuffleStep, m.validator ∉ names

variable {names : List String} {msg : Msg env} {t : Table} {h : Hand} {dh' : DealerHand}
  {α : Type} {l : List α}

theorem ShuffledBy.later (hby : ShuffledBy s names dh) (hsound : DealerSound s)
    (hlater : EpochLater s s') : ShuffledBy s' names dh := by
  obtain ⟨e, he, hle⟩ := hby.epoch
  obtain ⟨e', he', hstep⟩ := hlater e he
  -- An epoch with the number of the hand is still the one it was dealt in.
  have hgrows : e'.epochId = dh.epochId → SlashGrows e e' ∧ e.epochId = dh.epochId := by
    intro hid
    rcases hstep with hgrows | hlt
    · have hsame : e'.epochId = e.epochId := by rw [hgrows.same]
      exact ⟨hgrows, hsame.symm.trans hid⟩
    · omega
  refine ⟨hby.count, hby.nodup, ⟨e', he', ?_⟩, fun e₁ he₁ hid => ?_, fun e₁ he₁ hid => ?_⟩
  · rcases hstep with hgrows | hlt
    · rw [hgrows.same]
      exact hle
    · exact hle.trans hlt.le
  · cases he'.symm.trans he₁
    obtain ⟨hgrows, hid⟩ := hgrows hid
    rw [hgrows.same]
    exact hby.members e he hid
  · cases he'.symm.trans he₁
    obtain ⟨hgrows, hid⟩ := hgrows hid
    intro m hm
    have hsublist := hgrows.qual_sublist (hsound.epoch e he).slashed
    exact hby.ahead e he hid m ((hsublist.drop dh.shuffleStep).subset hm)

/-! ## What steps keep -/

structure KeepsShuffles (c c' : Chain env) : Prop where
  stored : ∀ tid hid dh', c'.dealer.getHand tid hid = some dh' →
    (∃ dh, c.dealer.getHand tid hid = some dh ∧
      dh'.shuffleStep = dh.shuffleStep ∧ dh'.epochId = dh.epochId) ∨
    (c.dealer.getHand tid hid = none ∧ ¬ HandOver c.poker tid hid ∧
      dh'.shuffleStep = 0 ∧ ∃ e, c.dealer.epoch = some e ∧ e.epochId = dh'.epochId)
  gone : ∀ tid hid, c'.dealer.getHand tid hid = none →
    c.dealer.getHand tid hid = none ∨ HandOver c'.poker tid hid

theorem KeepsShuffles.of_hands_eq (hhands : c'.dealer.hands = c.dealer.hands) :
    KeepsShuffles c c' := by
  have hget : ∀ tid hid, c'.dealer.getHand tid hid = c.dealer.getHand tid hid := by
    intro tid hid
    simp only [State.getHand, hhands]
  refine ⟨fun tid hid dh hdh => .inl ⟨dh, ?_, rfl, rfl⟩, fun tid hid hnone => .inl ?_⟩
  · rw [← hget, hdh]
  · rw [← hget, hnone]

theorem PairStep.shuffleStep_eq {tid : Nat} {t' : Table} {h' : Hand}
    (hstep : PairStep c msg tid t h dh t' h' dh')
    (hmsg : ∀ block req, msg ≠ .hand block (.submitShuffle req)) :
    dh'.shuffleStep = dh.shuffleStep ∧ dh'.epochId = dh.epochId := by
  cases hstep with
  | shuffle hm => exact absurd hm (hmsg _ _)
  | _ => exact ⟨rfl, rfl⟩

theorem Wrote.keepsShuffles {tableID : Nat} {t₁ : Table} {record : Option DealerHand}
    (hlinked : Linked c) (hwrote : Wrote c msg tableID c' t t₁ h record)
    (hmsg : ∀ block req, msg ≠ .hand block (.submitShuffle req)) : KeepsShuffles c c' := by
  refine ⟨fun tid hid dh' hdh' => ?_, fun tid hid hgone => ?_⟩
  · rw [hwrote.hands] at hdh'
    split at hdh'
    · rename_i hkey
      obtain ⟨rfl, rfl⟩ := hkey
      obtain ⟨h₁, hid, -, horigin⟩ := hwrote.active hdh'
      rcases horigin with ⟨t₀, h₀, epoch, hopened⟩ | ⟨t₀, h₀, dh, hfrom⟩
      · cases hopened.table.symm.trans hwrote.table
        cases hopened.hand.symm.trans hwrote.hand
        refine .inr ⟨hopened.new, ?_, hopened.initial.shuffleStep, epoch, hopened.current,
          hopened.initial.epochId.symm⟩
        rintro ⟨t₂, ht₂, -, hnot⟩
        cases hwrote.table.symm.trans ht₂
        exact hnot h hwrote.hand rfl
      · refine .inl ⟨dh, ?_, hfrom.step.shuffleStep_eq hmsg⟩
        rw [← hid, hfrom.handId]
        exact hfrom.atHand.dealerHand
    · exact .inl ⟨dh', hdh', rfl, rfl⟩
  · rw [hwrote.hands] at hgone
    split at hgone
    · rename_i hkey
      obtain ⟨rfl, rfl⟩ := hkey
      cases hdh : c.dealer.getHand tid h.handId with
      | none => exact .inl rfl
      | some dh =>
        -- without a dealer hand the table has no hand any more
        obtain ⟨t₂, ht₂, hlt⟩ := hlinked.started tid h.handId dh hdh
        cases hwrote.table.symm.trans ht₂
        refine .inr ⟨t₁, (hwrote.tables tid).trans (if_pos rfl),
          hlt.trans_le hwrote.nextHandId, fun h₁ hh₁ => ?_⟩
        obtain ⟨-, _, hrecord, -⟩ := hwrote.goesOn h₁ hh₁
        cases hgone.symm.trans hrecord
    · exact .inl hgone

/-! ## Runs -/

structure ShufflesTracked (log : List (Msg env)) (c : Chain env) : Prop where
  stored : ∀ tid hid dh, c.dealer.getHand tid hid = some dh →
    ShuffledBy c.dealer (shufflers log tid hid) dh
  handOver : ∀ tid hid, c.dealer.getHand tid hid = none →
    shufflers log tid hid ≠ [] → HandOver c.poker tid hid

theorem ShufflesTracked.keeps {log log' : List (Msg env)} (htracked : ShufflesTracked log c)
    (hsound : DealerSound c.dealer) (hkeeps : KeepsShuffles c c')
    (hepoch : EpochLater c.dealer c'.dealer) (hpoker : Later IdLater c.poker c'.poker)
    (hlog : ∀ tid hid, shufflers log' tid hid = shufflers log tid hid) :
    ShufflesTracked log' c' := by
  refine ⟨fun tid hid dh' hdh' => ?_, fun tid hid hnone hsome => ?_⟩
  · rw [hlog]
    rcases hkeeps.stored tid hid dh' hdh' with
      ⟨dh, hdh, hstep, hid'⟩ | ⟨hnone, hnew, hstep, e, he, hid'⟩
    · have hby := (htracked.stored tid hid dh hdh).later hsound hepoch
      refine ⟨hby.count.trans hstep.symm, hby.nodup, ?_, ?_, ?_⟩
      · rw [hid']
        exact hby.epoch
      · rw [hid']
        exact hby.members
      · rw [hid', hstep]
        exact hby.ahead
    · have hempty : shufflers log tid hid = [] := by
        by_contra hsome
        exact hnew (htracked.handOver tid hid hnone hsome)
      rw [hempty]
      have hfresh : ShuffledBy c.dealer [] dh' :=
        ⟨hstep.symm, List.nodup_nil, ⟨e, he, hid'.ge⟩, by simp, by simp⟩
      exact hfresh.later hsound hepoch
  · rw [hlog] at hsome
    rcases hkeeps.gone tid hid hnone with hold | hover
    · exact (htracked.handOver tid hid hold hsome).later hpoker
    · exact hover

theorem drop_of_getElem? {n : Nat} {a : α} (hget : l[n]? = some a) :
    l.drop n = a :: l.drop (n + 1) := by
  obtain ⟨hlt, rfl⟩ := List.getElem?_eq_some_iff.mp hget
  exact List.drop_eq_getElem_cons hlt

theorem ShuffledBy.shuffle {shuffler : DealerMember} (hby : ShuffledBy s names dh)
    (hsound : DealerSound s) (he : s.epoch = some e) (hid : e.epochId = dh.epochId)
    (hnext : (epochQualMembers e)[dh.shuffleStep]? = some shuffler)
    (hstep : dh'.shuffleStep = dh.shuffleStep + 1) (hid' : dh'.epochId = dh.epochId) :
    ShuffledBy s (shuffler.validator :: names) dh' := by
  have hdrop := drop_of_getElem? hnext
  have hnames : ((epochQualMembers e).drop dh.shuffleStep).Pairwise
      (fun m m' => m.validator ≠ m'.validator) := by
    have hmembers := List.pairwise_map.mp (hsound.epoch e he).committee.validators
    exact (hmembers.sublist List.filter_sublist).sublist (List.drop_sublist _ _)
  rw [hdrop, List.pairwise_cons] at hnames
  have hahead := hby.ahead e he hid
  rw [hdrop] at hahead
  refine ⟨?_, ?_, ?_, fun e₁ he₁ hid₁ v hv => ?_, fun e₁ he₁ hid₁ m hm hmem => ?_⟩
  · rw [List.length_cons, hby.count, hstep]
  · exact List.nodup_cons.mpr ⟨hahead shuffler (by simp), hby.nodup⟩
  · rw [hid']
    exact hby.epoch
  · cases he.symm.trans he₁
    rcases List.mem_cons.mp hv with rfl | hold
    · have hqual := List.mem_of_getElem? hnext
      exact List.mem_map_of_mem (List.mem_of_mem_filter hqual)
    · exact hby.members e he hid v hold
  · cases he.symm.trans he₁
    rw [hstep] at hm
    rcases List.mem_cons.mp hmem with hself | hold
    · exact hnames.1 m hm hself.symm
    · exact hahead m (List.mem_cons_of_mem _ hm) hold

section Log

variable {log : List (Msg env)} {block : Block} {req : MsgSubmitShuffle} (tid hid : Nat)

theorem shufflers_of_other {msg : Msg env}
    (hmsg : ∀ block req, msg ≠ .hand block (.submitShuffle req)) :
    shufflers (msg :: log) tid hid = shufflers log tid hid := by
  have hnone : shufflerOf tid hid msg = none := by
    unfold shufflerOf
    split
    · exact absurd rfl (hmsg _ _)
    · rfl
  rw [shufflers, List.filterMap_cons_none hnone, shufflers]

theorem shufflers_shuffle : shufflers (.hand block (.submitShuffle req) :: log) tid hid =
      if req.tableId = tid ∧ req.handId = hid then req.shuffler :: shufflers log tid hid
      else shufflers log tid hid := by
  split
  · rename_i hkey
    exact List.filterMap_cons_some (if_pos hkey)
  · rename_i hkey
    exact List.filterMap_cons_none (if_neg hkey)

end Log

theorem ShufflesTracked.shuffle {block : Block} {req : MsgSubmitShuffle}
    (htracked : ShufflesTracked log c) (hsound : DealerSound c.dealer)
    (hok : submitShuffle c block req = .ok c') :
    ShufflesTracked (.hand block (.submitShuffle req) :: log) c' := by
  obtain ⟨t, h, dh, epoch, shuffler, ctx, deck, deadline, hat, hid, -, -, hepoch,
    hnext, hshuffler, -, -, -, rfl⟩ := submitShuffle_spec hok
  have hdh := hat.dealerHand
  rw [hid] at hdh ⊢
  have hstored := htracked.stored req.tableId req.handId dh hdh
  refine ⟨fun tid hid₁ dh₁ hdh₁ => ?_, fun tid hid₁ hnone hsome => ?_⟩
  · rw [getHand_setHand] at hdh₁
    rw [shufflers_shuffle]
    split at hdh₁
    · rename_i hkey
      cases hdh₁
      rw [hkey.1, hkey.2, if_pos ⟨rfl, rfl⟩, hshuffler]
      have hnew : ShuffledBy c.dealer
          (shuffler.validator :: shufflers log req.tableId req.handId)
          { dh with
            deck := deck
            shuffleStep := dh.shuffleStep + 1
            shuffleDeadline := deadline } :=
        hstored.shuffle hsound hepoch.current hepoch.epochId hnext rfl rfl
      exact hnew.later hsound (.of_eq rfl)
    · rename_i hkey
      rw [if_neg fun both => hkey ⟨both.1.symm, both.2.symm⟩]
      exact (htracked.stored tid hid₁ dh₁ hdh₁).later hsound (.of_eq rfl)
  · rw [getHand_setHand] at hnone
    split at hnone
    · cases hnone
    · rename_i hkey
      rw [shufflers_shuffle, if_neg fun both => hkey ⟨both.1.symm, both.2.symm⟩] at hsome
      exact htracked.handOver tid hid₁ hnone hsome

theorem handle_pokerLater (hsound : DealerSound c.dealer) (hlinked : Linked c)
    (hok : handle c msg = .ok c') : Later IdLater c.poker c'.poker := by
  have hids := hlinked.solvent.1
  rcases (handle_refines hsound hlinked hok).2 with
    ⟨m, -, hpoker⟩ | hsame | ⟨m, -, hpoker⟩
  · exact Poker.handle_idLater hids hpoker
  · rw [hsame]
    exact .refl _
  · exact Poker.handle_idLater hids hpoker

theorem handle_shufflesTracked (htracked : ShufflesTracked log c)
    (hsound : DealerSound c.dealer) (hlinked : Linked c) (hok : handle c msg = .ok c') :
    ShufflesTracked (msg :: log) c' := by
  have hpoker := handle_pokerLater hsound hlinked hok
  cases handle_step hok with
  | player m _ _ | otherStaking staking =>
    exact htracked.keeps hsound (.of_hands_eq rfl) (.of_eq rfl) hpoker
      (fun tid hid => shufflers_of_other tid hid (by simp))
  | dkg block m _ hdealer =>
    have heffect := dkg_effect hsound hdealer
    exact htracked.keeps hsound (.of_hands_eq heffect.hands_eq)
      (heffect.epochLater hsound) hpoker
      (fun tid hid => shufflers_of_other tid hid (by simp))
  | hand block m _ =>
    by_cases hshuffle : ∃ req, m = .submitShuffle req
    · obtain ⟨req, rfl⟩ := hshuffle
      exact htracked.shuffle hsound hok
    · simp only [not_exists] at hshuffle
      obtain ⟨c₁, hpenalty, hact⟩ := handleHand_effect hok
      have hmsg : ∀ block' req, (.hand block m : Msg env) ≠ .hand block' (.submitShuffle req) := by
        intro _ req heq
        injection heq with _ hm
        exact hshuffle req hm
      have htracked₁ : ShufflesTracked log c₁ := by
        refine htracked.keeps hsound (.of_hands_eq ?_) hpenalty.epochLater ?_ (fun _ _ => rfl)
        · cases hpenalty <;> rfl
        · rw [hpenalty.poker_eq]
          exact .refl _
      have hlinked₁ := hlinked.penalised hpenalty
      obtain ⟨_, _, _, _, hwrote⟩ := hact.wrote hlinked₁.solvent.1
      rw [← hpenalty.poker_eq] at hpoker
      exact htracked₁.keeps (hpenalty.sound hsound) (hwrote.keepsShuffles hlinked₁ hmsg)
        (.of_eq (by rw [hact.dealer_frame])) hpoker
        (fun tid hid => shufflers_of_other tid hid hmsg)

theorem reachable_shufflesTracked {balances : env.poker.bank.Balances}
    {staking : env.staking.Staking} {params : Params}
    (hreach : Reaches handle (Chain.genesis env balances staking params) log c) :
    ShufflesTracked log c := by
  induction hreach with
  | refl =>
    refine ⟨fun tid hid dh hdh => ?_, fun tid hid _ hsome => absurd rfl hsome⟩
    simp [Chain.genesis, State.genesis, State.getHand] at hdh
  | step hprev hok ih =>
    have hprev := reachable_of_reaches hprev
    exact handle_shufflesTracked ih (reachable_dealerSound hprev) (reachable_linked hprev) hok

/-! ## Finalising a deck -/

structure FinalisesDeck (c c' : Chain env) (tid hid : Nat)
    (dh dh' : DealerHand) : Prop where
  stored : c.dealer.getHand tid hid = some dh
  unfinalised : dh.finalized = false
  stored' : c'.dealer.getHand tid hid = some dh'
  finalised : dh'.finalized = true

section Finalising

variable {c c' : Chain env} {block : Block} {msg : HandMsg}
  {tableID tid hid : Nat} {dh dh' : DealerHand}

theorem FinalisesDeck.false_of_same (hfinalises : FinalisesDeck c c' tid hid dh dh')
    (hsame : c'.dealer.getHand tid hid = c.dealer.getHand tid hid) : False := by
  obtain ⟨hdh, hopen, hdh', hfinal⟩ := hfinalises
  cases hdh.symm.trans (hsame.symm.trans hdh')
  rw [hopen] at hfinal
  cases hfinal

theorem FinalisesDeck.false_of_set {dh₀ dh₁ : DealerHand}
    (hfinalises : FinalisesDeck c c' tid hid dh dh')
    (hold : c.dealer.getHand tableID handID = some dh₀) (hset : c'.dealer.getHand tid hid =
      if tid = tableID ∧ hid = handID then some dh₁ else c.dealer.getHand tid hid)
    (hsame : dh₁.finalized = dh₀.finalized) : False := by
  by_cases hkey : tid = tableID ∧ hid = handID
  · obtain ⟨hdh, hopen, hdh', hfinal⟩ := hfinalises
    rw [hset, if_pos hkey] at hdh'
    rw [hkey.1, hkey.2, hold] at hdh
    cases hdh
    cases hdh'
    rw [hsame, hopen] at hfinal
    cases hfinal
  · rw [if_neg hkey] at hset
    exact hfinalises.false_of_same hset

theorem HandAct.finalises (hact : HandAct c block msg tableID c')
    (hfinalises : FinalisesDeck c c' tid hid dh dh') :
    tid = tableID ∧ ∃ t h e, AtHand c tableID t h dh ∧ h.handId = hid ∧
      h.phase = .shuffle ∧ InEpoch c dh e ∧
      dh.shuffleStep = (epochQualMembers e).length ∧
      c'.poker = c.poker.setTable { t with
        hand := some { h with dealer := finalizeDealerMeta h dh.deck.length } } := by
  cases hact with
  | @init _ _ t h _ _ _ _ _ _ hnone _ _ _ _ =>
    by_cases hkey : tid = tableID ∧ hid = h.handId
    · have hdh := hfinalises.stored
      rw [hkey.1, hkey.2, hnone] at hdh
      cases hdh
    · exact (hfinalises.false_of_same ((getHand_setHand _ _ _ _ _ _).trans (if_neg hkey))).elim
  | shuffle hat _ _ _ _ _ _ _ _ _ | advance hat _ _
  | pubShare hat _ _ _ _ _ _ _ _ _ _ _ _ | extend hat _ _ _ =>
    exact (hfinalises.false_of_set hat.dealerHand (getHand_setHand _ _ _ _ _ _) rfl).elim
  | @finalizeDeck _ _ t h dh₀ epoch _ hat hphase _ hepoch _ hstep _ =>
    by_cases hkey : tid = tableID ∧ hid = h.handId
    · have hdh := hfinalises.stored
      rw [hkey.1, hkey.2, hat.dealerHand] at hdh
      cases hdh
      exact ⟨hkey.1, t, h, epoch, hat, hkey.2.symm, hphase, hepoch, hstep, rfl⟩
    · exact (hfinalises.false_of_same ((getHand_setHand _ _ _ _ _ _).trans (if_neg hkey))).elim
  | encShare hchecked =>
    exact (hfinalises.false_of_set hchecked.atHand.dealerHand
      (getHand_setHand _ _ _ _ _ _) rfl).elim
  | @reveal _ _ _ h _ _ _ _ _ hat _ _ _ _ _ =>
    unfold Chain.cleanUp at hfinalises
    split at hfinalises
    · by_cases hkey : tid = tableID ∧ hid = h.handId
      · have hdh' := hfinalises.stored'
        rw [getHand_deleteHand, if_pos hkey] at hdh'
        cases hdh'
      · refine (hfinalises.false_of_same ?_).elim
        rw [getHand_deleteHand, if_neg hkey]
        exact (getHand_setHand c tableID h.handId _ tid hid).trans (if_neg hkey)
    · exact (hfinalises.false_of_set hat.dealerHand (getHand_setHand _ _ _ _ _ _) rfl).elim
  | @abort _ _ handID _ _ =>
    by_cases hkey : tid = tableID ∧ hid = handID
    · have hdh' := hfinalises.stored'
      rw [getHand_deleteHand, if_pos hkey] at hdh'
      cases hdh'
    · exact (hfinalises.false_of_same ((getHand_deleteHand _ _ _ _ _).trans (if_neg hkey))).elim

theorem Penalised.finalises {c₁ : Chain env} (hpenalty : Penalised c c₁)
    (hfinalises : FinalisesDeck c c' tid hid dh dh') :
    FinalisesDeck c₁ c' tid hid dh dh' := by
  refine ⟨?_, hfinalises.unfinalised, hfinalises.stored', hfinalises.finalised⟩
  cases hpenalty <;> exact hfinalises.stored

theorem HandAct.epoch_eq (hact : HandAct c block msg tableID c') :
    c'.dealer.epoch = c.dealer.epoch := by
  rw [hact.dealer_frame]

def SlashesNext (e : DealerEpoch) (step : Nat) (e' : DealerEpoch) : Prop :=
  e'.slashed = e.slashed ∨
    ∃ m, (epochQualMembers e)[step]? = some m ∧
      e'.slashed = (slash e.slashed m.validator).1

theorem penaliseAll_single {c₁ : Chain env} {e e₁ : DealerEpoch} {v : String}
    (hok : penaliseAll c block e [v] = .ok (c₁, e₁)) :
    c₁.dealer.epoch = some e₁ ∧ e₁.slashed = (slash e.slashed v).1 := by
  simp only [penaliseAll, List.foldlM_cons, List.foldlM_nil, ok_iff, Prod.mk.injEq] at hok
  obtain ⟨⟨staking, last⟩, ⟨_, hfirst, rfl⟩, rfl, rfl⟩ := hok
  exact ⟨rfl, (epochPenalise_grows hfirst).2⟩

theorem abortHand_epoch (hok : abortHand c tableID handID = .ok c') :
    c'.dealer.epoch = c.dealer.epoch := by
  simp only [abortHand, ok_iff] at hok
  obtain ⟨poker, -, rfl⟩ := hok
  rfl

theorem finalizeDeck_epoch (hok : finalizeDeck c block tableID handID = .ok c') :
    c'.dealer.epoch = c.dealer.epoch := by
  have hact : HandAct c block (.finalizeDeck ⟨"", tableID, handID⟩) tableID c' :=
    finalizeDeck_act hok
  exact hact.epoch_eq

theorem timeoutShuffle_slashes {handID timeoutSecs : Nat} (he : c.dealer.epoch = some e)
    (hok : timeoutShuffle c block tableID handID timeoutSecs dh e = .ok c')
    (he' : c'.dealer.epoch = some e') : SlashesNext e dh.shuffleStep e' := by
  simp only [timeoutShuffle, ok_iff] at hok
  obtain ⟨-, -, -, -, hok⟩ := hok
  have hsame : c'.dealer.epoch = c.dealer.epoch → SlashesNext e dh.shuffleStep e' := by
    intro hepoch
    cases he.symm.trans (hepoch.symm.trans he')
    exact .inl rfl
  split at hok
  · exact hsame (abortHand_epoch hok)
  split at hok
  · exact hsame (finalizeDeck_epoch hok)
  simp only [ok_iff] at hok
  obtain ⟨expected, hexpected, ⟨c₁, e₁⟩, hpenalty, hok⟩ := hok
  obtain ⟨he₁, hslashed⟩ := penaliseAll_single hpenalty
  have hnext : c'.dealer.epoch = c₁.dealer.epoch → SlashesNext e dh.shuffleStep e' := by
    intro hepoch
    cases he₁.symm.trans (hepoch.symm.trans he')
    exact .inr ⟨expected, hexpected, hslashed⟩
  split at hok
  · exact hnext (abortHand_epoch hok)
  split at hok
  · exact hnext (finalizeDeck_epoch hok)
  simp only [ok_iff] at hok
  obtain ⟨deadline, -, rfl⟩ := hok
  exact hnext rfl

theorem timeoutHand_slashes (hok : timeoutHand c block tableID handID = .ok c')
    (hfinalises : FinalisesDeck c c' tid hid dh dh') (he : c.dealer.epoch = some e)
    (he' : c'.dealer.epoch = some e') :
    SlashesNext e dh.shuffleStep e' := by
  have heffect : HandEffect c block (.timeout ⟨"", tableID, handID⟩) tableID c' :=
    (timeoutHand_pass hok).effect
  obtain ⟨c₁, hpenalty, hact⟩ := heffect
  obtain ⟨-, t, h, -, hat, -, hphase, -, -⟩ := hact.finalises (hpenalty.finalises hfinalises)
  have hget : c.poker.getTable tableID = some t := by
    rw [← hpenalty.poker_eq]
    exact hat.table
  have hdh : c.dealer.getHand tableID h.handId = some dh := by
    have hstored := hat.dealerHand
    cases hpenalty <;> exact hstored
  simp only [timeoutHand, ok_iff] at hok
  obtain ⟨⟨t₀, h₀⟩, hactive, dh₀, hdealer, hok⟩ := hok
  obtain ⟨hat₀, rfl⟩ := atHand_of_ok hactive hdealer
  -- The hand that times out is the one whose deck is finalised.
  cases hget.symm.trans hat₀.table
  cases hat.hand.symm.trans hat₀.hand
  cases hdh.symm.trans hat₀.dealerHand
  split at hok
  · cases he.symm.trans ((abortHand_epoch hok).symm.trans he')
    exact .inl rfl
  rename_i epoch hcurrent
  cases he.symm.trans (Option.filter_eq_some_iff.mp hcurrent).1
  simp only [ok_iff] at hok
  obtain ⟨-, -, -, -, hok⟩ := hok
  rw [if_pos ⟨hphase, hfinalises.unfinalised⟩] at hok
  exact timeoutShuffle_slashes he hok he'

theorem handleHand_finalises (hok : handleHand c block msg = .ok c')
    (hfinalises : FinalisesDeck c c' tid hid dh dh') (he : c.dealer.epoch = some e) :
    ∃ e', InEpoch c' dh e' ∧ dh.shuffleStep = (epochQualMembers e').length ∧
      SlashesNext e dh.shuffleStep e' := by
  obtain ⟨c₁, hpenalty, hact⟩ := handleHand_effect hok
  obtain ⟨-, -, -, e', -, -, -, hepoch, hstep, -⟩ := hact.finalises (hpenalty.finalises hfinalises)
  have he' : c'.dealer.epoch = some e' := hact.epoch_eq.trans hepoch.current
  refine ⟨e', ⟨he', hepoch.epochId⟩, hstep, ?_⟩
  rcases handleHand_act hok with hact | ⟨req, rfl, htimeout⟩
  · cases he.symm.trans (hact.epoch_eq.symm.trans he')
    exact .inl rfl
  · exact timeoutHand_slashes htimeout hfinalises he he'

theorem FinalisesDeck.hand_message {m : Msg env} (hsound : DealerSound c.dealer)
    (hok : handle c m = .ok c') (hfinalises : FinalisesDeck c c' tid hid dh dh') :
    ∃ block m', handleHand c block m' = .ok c' := by
  cases handle_step hok with
  | player m _ _ | otherStaking staking => exact (hfinalises.false_of_same rfl).elim
  | dkg block m _ hdealer =>
    refine (hfinalises.false_of_same ?_).elim
    simp only [State.getHand, (dkg_effect hsound hdealer).hands_eq]
  | hand block m _ => exact ⟨block, m, hok⟩

theorem handle_finalises {m : Msg env} (hsound : DealerSound c.dealer) (hok : handle c m = .ok c')
    (hfinalises : FinalisesDeck c c' tid hid dh dh') (he : c.dealer.epoch = some e) :
    ∃ e', InEpoch c' dh e' ∧ dh.shuffleStep = (epochQualMembers e').length ∧
      SlashesNext e dh.shuffleStep e' := by
  obtain ⟨block, m', hhand⟩ := hfinalises.hand_message hsound hok
  exact handleHand_finalises hhand hfinalises he

end Finalising

/-! ## Every member that is left -/

theorem count_eq_one_iff_subset [DecidableEq α] {l' : List α} (hl : l.Nodup)
    (hl' : l'.Nodup) (hlength : l.length = l'.length) :
    (∀ a ∈ l', l.count a = 1) ↔ l ⊆ l' := by
  constructor
  · intro hcount
    have hsubset : l' ⊆ l := by
      intro a ha
      apply List.count_pos_iff.mp
      rw [hcount a ha]
      exact Nat.one_pos
    have hperm := (List.subperm_of_subset hl' hsubset).perm_of_length_le hlength.le
    exact hperm.symm.subset
  · intro hsubset a ha
    have hperm := (List.subperm_of_subset hl hsubset).perm_of_length_le hlength.ge
    exact List.count_eq_one_of_mem hl (hperm.symm.subset ha)

theorem ShuffledBy.covers_iff (hby : ShuffledBy s names dh) (hby' : ShuffledBy s' names dh)
    (hvalid : EpochValid env.suite e) (hvalid' : EpochValid env.suite e') (he : s.epoch = some e)
    (he' : s'.epoch = some e') (hid : e.epochId = dh.epochId) (hid' : e'.epochId = dh.epochId)
    (hstep : dh.shuffleStep = (epochQualMembers e').length)
    (hnext : SlashesNext e dh.shuffleStep e') (hgrows : ∀ v ∈ e.slashed, v ∈ e'.slashed) :
    (∀ m ∈ e'.members, m.validator ∉ e'.slashed → names.count m.validator = 1) ↔
      ∀ v ∈ names, v ∉ e.slashed := by
  have hqual : ∀ m, m ∈ epochQualMembers e' ↔ m ∈ e'.members ∧ m.validator ∉ e'.slashed := by
    intro m
    rw [epochQualMembers, qualMembers, List.mem_filter, Bool.not_eq_true',
      Bool.eq_false_iff, ne_eq, hvalid'.slashed.isSlashed_iff]
  have hnodup : ((epochQualMembers e').map (·.validator)).Nodup :=
    hvalid'.committee.validators.sublist (List.filter_sublist.map _)
  have hcover := count_eq_one_iff_subset hby.nodup hnodup
    (by rw [List.length_map, hby.count, hstep])
  have hleft : (∀ m ∈ e'.members, m.validator ∉ e'.slashed → names.count m.validator = 1) ↔
      ∀ v ∈ (epochQualMembers e').map (·.validator), names.count v = 1 := by
    simp only [List.mem_map, hqual]
    constructor
    · rintro hall v ⟨m, ⟨hm, hfree⟩, rfl⟩
      exact hall m hm hfree
    · intro hall m hm hfree
      exact hall m.validator ⟨m, ⟨hm, hfree⟩, rfl⟩
  rw [hleft, hcover]
  constructor
  · intro hsubset v hv hslashed
    obtain ⟨m, hm, rfl⟩ := List.mem_map.mp (hsubset hv)
    exact ((hqual m).mp hm).2 (hgrows _ hslashed)
  · intro hfree v hv
    obtain ⟨m, hm, rfl⟩ := List.mem_map.mp (hby'.members e' he' hid' v hv)
    refine List.mem_map_of_mem ((hqual m).mpr ⟨hm, fun hslashed => ?_⟩)
    -- Whoever is slashed in the step has not shuffled yet.
    rcases hnext with hsame | ⟨next, hget, hslash⟩
    · rw [hsame] at hslashed
      exact hfree _ hv hslashed
    · have hahead := hby.ahead e he hid next (by simp [drop_of_getElem? hget])
      have hmember := List.mem_of_mem_filter (List.mem_of_getElem? hget)
      rw [hslash, hvalid.slashed.mem_slash (hvalid.committee.named next hmember)] at hslashed
      rcases hslashed with hself | hold
      · rw [hself] at hv
        exact hahead hv
      · exact hfree _ hv hold

/-- The members left when a deck is finalised have each shuffled it once exactly
when none of its shufflers was slashed before. -/
theorem deck_shuffled_by_all_iff (env : Env) (balances : env.poker.bank.Balances)
    (staking : env.staking.Staking) (params : Params) (messages : List (Msg env))
    (msg : Msg env) {c' : Chain env} {tid hid : Nat} {dh dh' : DealerHand}
    {e e' : DealerEpoch}
    (hok : handle (run handle (Chain.genesis env balances staking params) messages)
      msg = .ok c')
    (hfinalises : FinalisesDeck
      (run handle (Chain.genesis env balances staking params) messages) c' tid hid
      dh dh')
    (he : (run handle (Chain.genesis env balances staking params)
      messages).dealer.epoch = some e)
    (he' : c'.dealer.epoch = some e') :
    (∀ m ∈ e'.members, m.validator ∉ e'.slashed →
        (shufflers (accepted handle (Chain.genesis env balances staking params)
          messages) tid hid).count m.validator = 1) ↔
      ∀ v ∈ shufflers (accepted handle (Chain.genesis env balances staking params)
        messages) tid hid, v ∉ e.slashed := by
  have hreach : Reaches handle (Chain.genesis env balances staking params) _ _ :=
    reaches_run messages
  have hby := (reachable_shufflesTracked hreach).stored tid hid dh hfinalises.stored
  have hsound := reachable_dealerSound (reachable_of_reaches hreach)
  have hsound' := handle_sound hsound hok
  obtain ⟨e₁, hepoch, hstep, hnext⟩ := handle_finalises hsound hok hfinalises he
  cases hepoch.current.symm.trans he'
  -- The epoch of the hand was current before the step already.
  rcases epoch_step hsound hok he' with ⟨e₀, he₀, hgrows⟩ | ⟨d, hfinal, -⟩
  · cases he₀.symm.trans he
    have hid : e.epochId = dh.epochId := by
      rw [← hepoch.epochId, hgrows.same]
    have hvalid := hsound.epoch e he
    have hlater : EpochLater (run handle (Chain.genesis env balances staking params)
        messages).dealer c'.dealer := by
      intro e₂ he₂
      cases he.symm.trans he₂
      exact ⟨e', he', .inl hgrows⟩
    exact hby.covers_iff (hby.later hsound hlater) hvalid (hsound'.epoch e' he') he
      he' hid hepoch.epochId hstep hnext (hgrows.grows hvalid.slashed)
  · obtain ⟨e₂, he₂, hle⟩ := hby.epoch
    have hlt := hsound.epoch_lt_dkg e₂ d he₂ hfinal.inFlight
    have hnumber := hfinal.epochId.symm.trans hepoch.epochId
    omega

/-- Two tables of one committee.  `A` shuffles the first one and misses its turn
on the second, so that the next shuffler of the first is `C`. -/
def skippedShufflerRun : List (Msg residueEnv) :=
  committeeRun ++ dealRun 1 2 ++ dealRun 2 2 ++
    [shuffleMsgAt 100 1 1 "A" 2, handMsgAt 150 (.timeout ⟨"gm", 2, 1⟩),
      shuffleMsgAt 160 1 2 "C" 2]

def finalizeDeckMsg : Msg residueEnv := handMsgAt 170 (.finalizeDeck ⟨"gm", 1, 1⟩)

theorem skippedShufflerRun_finalises :
    ∃ c, handle (run handle residueGenesis skippedShufflerRun) finalizeDeckMsg = .ok c ∧
      (∃ dh dh', FinalisesDeck (run handle residueGenesis skippedShufflerRun) c 1 1
        dh dh') ∧
      ∃ e ∈ c.dealer.epoch, (∃ m ∈ e.members, m.validator = "B") ∧
        "B" ∉ e.slashed ∧
        (shufflers (accepted handle residueGenesis skippedShufflerRun) 1 1).count
          "B" = 0 := by
  obtain ⟨c, hok⟩ := isOk_iff.mp (by decide +kernel :
    (handle (run handle residueGenesis skippedShufflerRun) finalizeDeckMsg).isOk)
  have hfacts :
      (∃ dh ∈ (run handle residueGenesis skippedShufflerRun).dealer.getHand 1 1,
        dh.finalized = false) ∧
      (∃ dh' ∈ (deliver handle (run handle residueGenesis skippedShufflerRun)
        finalizeDeckMsg).dealer.getHand 1 1, dh'.finalized = true) ∧
      ∃ e ∈ (deliver handle (run handle residueGenesis skippedShufflerRun)
        finalizeDeckMsg).dealer.epoch, (∃ m ∈ e.members, m.validator = "B") ∧
        "B" ∉ e.slashed ∧
        (shufflers (accepted handle residueGenesis skippedShufflerRun) 1 1).count
          "B" = 0 := by
    decide +kernel
  rw [deliver_of_ok hok] at hfacts
  obtain ⟨⟨dh, hdh, hopen⟩, ⟨dh', hdh', hfinal⟩, hepoch⟩ := hfacts
  exact ⟨c, hok, ⟨dh, dh', hdh, hopen, hdh', hfinal⟩, hepoch⟩

def allShuffleRun : List (Msg residueEnv) :=
  committeeRun ++ dealRun 1 2 ++
    [shuffleMsgAt 100 1 1 "A" 2, shuffleMsgAt 110 1 2 "B" 2, shuffleMsgAt 120 1 3 "C" 2]

theorem allShuffleRun_finalises :
    ∃ c dh dh', handle (run handle residueGenesis allShuffleRun) finalizeDeckMsg = .ok c ∧
      FinalisesDeck (run handle residueGenesis allShuffleRun) c 1 1 dh dh' := by
  obtain ⟨c, hok⟩ := isOk_iff.mp (by decide +kernel :
    (handle (run handle residueGenesis allShuffleRun) finalizeDeckMsg).isOk)
  have hfacts :
      (∃ dh ∈ (run handle residueGenesis allShuffleRun).dealer.getHand 1 1,
        dh.finalized = false) ∧
      ∃ dh' ∈ (deliver handle (run handle residueGenesis allShuffleRun)
        finalizeDeckMsg).dealer.getHand 1 1, dh'.finalized = true := by
    decide +kernel
  rw [deliver_of_ok hok] at hfacts
  obtain ⟨⟨dh, hdh, hopen⟩, dh', hdh', hfinal⟩ := hfacts
  exact ⟨c, dh, dh', hok, hdh, hopen, hdh', hfinal⟩

theorem allShuffleRun_covers :
    ∃ c e, handle (run handle residueGenesis allShuffleRun) finalizeDeckMsg =
        .ok c ∧ c.dealer.epoch = some e ∧
      ∀ m ∈ e.members, m.validator ∉ e.slashed →
        (shufflers (accepted handle residueGenesis allShuffleRun) 1 1).count
          m.validator = 1 := by
  obtain ⟨c, dh, dh', hok, hfinalises⟩ := allShuffleRun_finalises
  have hfacts :
      (∃ e ∈ (run handle residueGenesis allShuffleRun).dealer.epoch,
        ∀ v ∈ shufflers (accepted handle residueGenesis allShuffleRun) 1 1,
          v ∉ e.slashed) ∧
      (deliver handle (run handle residueGenesis allShuffleRun)
        finalizeDeckMsg).dealer.epoch.isSome := by
    decide +kernel
  rw [deliver_of_ok hok] at hfacts
  obtain ⟨⟨e, he, hfree⟩, hsome⟩ := hfacts
  obtain ⟨e', he'⟩ := Option.isSome_iff_exists.mp hsome
  refine ⟨c, e', hok, he', ?_⟩
  unfold residueGenesis at hok hfinalises hfree he ⊢
  exact (deck_shuffled_by_all_iff residueEnv (0 : Nat) () residueParams
    allShuffleRun finalizeDeckMsg hok hfinalises he he').mpr hfree

end OnChainPoker.Dealer
