import OnChainPoker.Poker.Deck
import OnChainPoker.Poker.Solvency

/-!
# The life of a hand

Apart from its deck being chosen and finalised, a hand is started with a fresh
number and then followed by later versions of itself until it is over.  A hand
in the shuffle phase has not changed since its deck was last touched.
-/

namespace OnChainPoker.Poker

open Foundation

variable {env : Env} {t t' : Table} {deposit withdrawal : Nat} {m : Msg env} {s s' : State env}

/-! ## Versions of a hand -/

structure Follows (h h' : Hand) : Prop where
  deck : SameDeck h h'
  opening : h'.phase = .shuffle →
    ∃ deadline, h' = { h with actionDeadline := deadline }

theorem Follows.refl (h : Hand) : Follows h h := ⟨.refl h, fun _ => ⟨h.actionDeadline, rfl⟩⟩

theorem Follows.trans {h h' h'' : Hand} (hfirst : Follows h h')
    (hsecond : Follows h' h'') : Follows h h'' := by
  refine ⟨hfirst.deck.trans hsecond.deck, fun hphase => ?_⟩
  obtain ⟨deadline, rfl⟩ := hsecond.opening hphase
  obtain ⟨_, rfl⟩ := hfirst.opening hphase
  exact ⟨deadline, rfl⟩

theorem HandStep.follows {params : TableParams} {seats seats' : Seats}
    {h h' : Hand} (hstep : HandStep params seats h seats' (some h')) :
    Follows h h' :=
  ⟨hstep.sameDeck, fun hphase => (hstep.of_shuffle hphase).2⟩

/-! ## Versions of a table -/

structure TableLater (t t' : Table) : Prop where
  nextHandId : t.nextHandId ≤ t'.nextHandId
  hand : ∀ h', t'.hand = some h' →
    (∃ h, t.hand = some h ∧ Follows h h') ∨
      t.hand = none ∧ h'.handId = t.nextHandId ∧
        h'.handId < t'.nextHandId ∧ h'.dealer = freshDealerMeta

theorem TableLater.of_hand_eq (hnext : t.nextHandId ≤ t'.nextHandId)
    (hhand : t'.hand = t.hand) : TableLater t t' :=
  ⟨hnext, fun h hh => .inl ⟨h, hhand ▸ hh, .refl h⟩⟩

theorem InnerStep.later (hstep : InnerStep t t' deposit withdrawal) :
    t.nextHandId ≤ t'.nextHandId ∧
      ∀ h', t'.hand = some h' → ∃ h, t.hand = some h ∧ Follows h h' := by
  cases hstep with
  | play hhand hplay =>
    refine ⟨Nat.le_refl _, fun h' hh' => ?_⟩
    subst hh'
    exact ⟨_, hhand, hplay.follows⟩
  | abort _ _ => exact ⟨Nat.le_refl _, fun _ hh' => (nomatch hh')⟩
  | rebuy | slash | eject => exact ⟨Nat.le_refl _, fun h hh => ⟨h, hh, .refl h⟩⟩
  | normalize =>
    refine ⟨?_, fun h hh => ⟨h, hh, .refl h⟩⟩
    simp only [normalizeTable]
    split <;> omega

theorem TableRun.later (hrun : TableRun t t' deposit withdrawal) :
    t.nextHandId ≤ t'.nextHandId ∧
      ∀ h', t'.hand = some h' → ∃ h, t.hand = some h ∧ Follows h h' := by
  induction hrun with
  | refl => exact ⟨Nat.le_refl _, fun h hh => ⟨h, hh, .refl h⟩⟩
  | step _ hstep ih =>
    obtain ⟨hnext, hhand⟩ := hstep.later
    refine ⟨ih.1.trans hnext, fun h'' hh'' => ?_⟩
    obtain ⟨h', hh', hfollows'⟩ := hhand h'' hh''
    obtain ⟨h, hh, hfollows⟩ := ih.2 h' hh'
    exact ⟨h, hh, hfollows.trans hfollows'⟩

theorem startHandOn_hand (hok : startHandOn t = .ok t') :
    ∃ h', t'.hand = some h' ∧ t'.nextHandId = t.nextHandId + 1 ∧
      h'.handId = t.nextHandId ∧ h'.dealer = freshDealerMeta := by
  obtain ⟨_, _, _, _, _, _, _, _, -, -, -, rfl⟩ := startHandOn_fresh hok
  exact ⟨_, rfl, rfl, rfl, rfl⟩

def Msg.setsDeck : Msg env → Bool
  | .dealerInitHand _ _ _ _ => true
  | .dealerFinalizeDeck _ _ => true
  | _ => false

theorem TableEffect.later (heffect : TableEffect t m t' deposit withdrawal)
    (hdeck : m.setsDeck = false) : TableLater t t' := by
  cases heffect with
  | sit | leave => exact .of_hand_eq (Nat.le_refl _) rfl
  | startHand block req hnone hstart =>
    obtain ⟨h, hh, hnext, hid, hfresh⟩ := startHandOn_hand hstart
    refine ⟨by omega, fun h' hh' => .inr ?_⟩
    cases hh.symm.trans hh'
    exact ⟨hnone, hid, by omega, hfresh⟩
  | dealerInitHand | dealerFinalizeDeck => cases hdeck
  | inner _ hrun =>
    obtain ⟨hnext, hhand⟩ := hrun.later
    exact ⟨hnext, fun h' hh' => .inl (hhand h' hh')⟩

structure IdLater (t t' : Table) : Prop where
  nextHandId : t.nextHandId ≤ t'.nextHandId
  hand : ∀ h', t'.hand = some h' →
    (∃ h, t.hand = some h ∧ h'.handId = h.handId) ∨ h'.handId = t.nextHandId

theorem TableEffect.idLater (heffect : TableEffect t m t' deposit withdrawal) : IdLater t t' := by
  cases heffect with
  | sit | leave => exact ⟨Nat.le_refl _, fun h hh => .inl ⟨h, hh, rfl⟩⟩
  | startHand block req _ hstart =>
    obtain ⟨h, hh, hnext, hid, -⟩ := startHandOn_hand hstart
    refine ⟨by omega, fun h' hh' => .inr ?_⟩
    cases hh.symm.trans hh'
    exact hid
  | dealerInitHand _ _ _ _ hh _ _ _ _ | dealerFinalizeDeck _ _ hh _ _ _ =>
    refine ⟨Nat.le_refl _, fun h' hh' => .inl ⟨_, hh, ?_⟩⟩
    cases hh'
    rfl
  | inner _ hrun =>
    obtain ⟨hnext, hhand⟩ := hrun.later
    refine ⟨hnext, fun h' hh' => .inl ?_⟩
    obtain ⟨h, hh, hfollows⟩ := hhand h' hh'
    exact ⟨h, hh, hfollows.deck.handId⟩

theorem IdLater.normalize (hlater : IdLater t t') : IdLater t (normalizeTable t') := by
  refine ⟨hlater.nextHandId.trans ?_, hlater.hand⟩
  simp only [normalizeTable]
  split <;> omega

/-! ## Versions of the module -/

structure Later (R : Table → Table → Prop) (s s' : State env) : Prop where
  kept : ∀ tid t, s.getTable tid = some t → ∃ t', s'.getTable tid = some t' ∧ R t t'
  new : ∀ tid t', s'.getTable tid = some t' →
    (∃ t, s.getTable tid = some t) ∨ t'.hand = none

theorem TableLater.normalize (hlater : TableLater t t') : TableLater t (normalizeTable t') := by
  have hnext : t'.nextHandId ≤ (normalizeTable t').nextHandId := by
    simp only [normalizeTable]
    split <;> omega
  refine ⟨hlater.nextHandId.trans hnext, fun h hh => ?_⟩
  rcases hlater.hand h hh with hkept | ⟨hnone, hid, hlt, hfresh⟩
  · exact .inl hkept
  · exact .inr ⟨hnone, hid, hlt.trans_le hnext, hfresh⟩

theorem getTable_of_tables_eq (htables : s'.tables = s.tables) (tid : Nat) :
    s'.getTable tid = s.getTable tid := by
  simp only [State.getTable, htables]

theorem Replaces.getTable (hreplaces : Replaces s s' t') (tid : Nat) :
    s'.getTable tid =
      if tid = t'.id then some (normalizeTable t') else s.getTable tid := by
  simp only [State.getTable, hreplaces.tables]
  split
  · rename_i hkey
    rw [hkey, AList.lookup_insert, Option.map_some, normalizeTable_idem]
  · rename_i hkey
    rw [AList.lookup_insert_ne hkey]

theorem State.getTable_setTable (s : State env) (t : Table) :
    (s.setTable t).getTable t.id = some (normalizeTable t) := by
  have hreplaces : Replaces s (s.setTable t) t := ⟨rfl, rfl⟩
  exact (hreplaces.getTable t.id).trans (if_pos rfl)

inductive TableAt (s s' : State env) (m : Msg env) (tid : Nat) : Prop
  | same : m.tableId ≠ some tid → s'.getTable tid = s.getTable tid → TableAt s s' m tid
  | new (req : MsgCreateTable) : m = .createTable req → checkTableCfg req = .ok () →
      s.getTable tid = none →
      s'.getTable tid = some (normalizeTable (newTable tid req)) → TableAt s s' m tid
  | changed {t t' : Table} {deposit withdrawal : Nat} : m.tableId = some tid →
      s.getTable tid = some t → s'.getTable tid = some (normalizeTable t') →
      TableEffect t m t' deposit withdrawal → TableAt s s' m tid

theorem Effect.tableAt (hids : IdsValid s) (heffect : Effect s s' m) (tid : Nat) :
    TableAt s s' m tid := by
  cases heffect with
  | createTable req hm hcfg _ _ htables =>
    subst hm
    by_cases hkey : tid = s.nextTableId
    · subst hkey
      refine .new req rfl hcfg (getTable_next hids) ?_
      rw [State.getTable, htables, AList.lookup_insert, Option.map_some, normalizeTable_idem]
    · refine .same (fun hm => by cases hm) ?_
      simp only [State.getTable, htables, AList.lookup_insert_ne hkey]
  | otherTransaction _ hm _ htables _ =>
    subst hm
    exact .same (fun hm => by cases hm) (getTable_of_tables_eq htables tid)
  | @onTable key t t' _ _ hm hget htable hreplaces _ =>
    have hget' := hreplaces.getTable tid
    rw [htable.id_eq, (getTable_id hids hget).1] at hget'
    by_cases hkey : tid = key
    · subst hkey
      exact .changed hm hget (hget'.trans (if_pos rfl)) htable
    · refine .same ?_ (hget'.trans (if_neg hkey))
      rw [hm]
      simpa using fun h => hkey h.symm

theorem Effect.later {R : Table → Table → Prop} (hrefl : ∀ t, R t t)
    (hstep : ∀ {t t' : Table} {deposit withdrawal : Nat},
      TableEffect t m t' deposit withdrawal → R t (normalizeTable t')) (hids : IdsValid s)
    (heffect : Effect s s' m) : Later R s s' := by
  refine ⟨fun tid t ht => ?_, fun tid t' ht' => ?_⟩
  · cases heffect.tableAt hids tid with
    | same _ hsame => exact ⟨t, hsame.trans ht, hrefl t⟩
    | new _ _ _ hnone _ => cases hnone.symm.trans ht
    | changed _ ht₁ ht' htable =>
      cases ht.symm.trans ht₁
      exact ⟨_, ht', hstep htable⟩
  · cases heffect.tableAt hids tid with
    | same _ hsame => exact .inl ⟨t', hsame.symm.trans ht'⟩
    | new req _ _ _ hnew =>
      cases hnew.symm.trans ht'
      exact .inr rfl
    | changed _ ht _ _ => exact .inl ⟨_, ht⟩

def HandOver (s : State env) (tid hid : Nat) : Prop :=
  ∃ t, s.getTable tid = some t ∧ hid < t.nextHandId ∧
    ∀ h, t.hand = some h → h.handId ≠ hid

theorem HandOver.later {tid hid : Nat} (hover : HandOver s tid hid)
    (hlater : Later IdLater s s') : HandOver s' tid hid := by
  obtain ⟨t, ht, hlt, hnot⟩ := hover
  obtain ⟨t', ht', hids⟩ := hlater.kept tid t ht
  refine ⟨t', ht', hlt.trans_le hids.nextHandId, fun h' hh' => ?_⟩
  rcases hids.hand h' hh' with ⟨h, hh, hid⟩ | hid
  · rw [hid]
    exact hnot h hh
  · omega

theorem Later.refl (s : State env) : Later IdLater s s :=
  ⟨fun _ t ht => ⟨t, ht, Nat.le_refl _, fun h hh => .inl ⟨h, hh, rfl⟩⟩, fun _ t ht => .inl ⟨t, ht⟩⟩

theorem handle_idLater (hids : IdsValid s) (hok : handle s m = .ok s') : Later IdLater s s' := by
  refine (handle_effect hok).later ?_ ?_ hids
  · exact fun t => ⟨Nat.le_refl _, fun h hh => .inl ⟨h, hh, rfl⟩⟩
  · exact fun heffect => heffect.idLater.normalize

end OnChainPoker.Poker
