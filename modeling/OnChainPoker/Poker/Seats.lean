import OnChainPoker.Poker.Abort
import OnChainPoker.Poker.HandLife

/-!
# Who sits where

`Sit` is the only message that puts a player on a seat; every other one leaves the
players where they are or takes them off.  `Sit` compares the text of the message
with the texts at the table, so no text sits twice; an account that can be written in
two ways can.
-/

namespace OnChainPoker.Poker

open Foundation

variable {env : Env} {seats : Seats} {t t' : Table} {deposit withdrawal : Nat} {m : Msg env}
  {s : State env}

/-! ## Changes of seats -/

def Vacates (seats seats' : Seats) : Prop :=
  ∀ i, (seats' i).player = (seats i).player ∨ (seats' i).player = ""

theorem Vacates.refl (seats : Seats) : Vacates seats seats := fun _ => .inl rfl

theorem Vacates.trans {first second third : Seats} (h : Vacates first second)
    (h' : Vacates second third) : Vacates first third := by
  intro i
  rcases h' i with hsame | hempty
  · rw [hsame]
    exact h i
  · exact .inr hempty

theorem SameOwners.vacates {seats seats' : Seats} (h : SameOwners seats seats') :
    Vacates seats seats' := fun i => .inl (h.player i)

theorem vacates_update {i : SeatIdx} {seat : Seat}
    (hseat : seat.player = (seats i).player ∨ seat.player = "") :
    Vacates seats (Function.update seats i seat) := by
  intro j
  by_cases hj : j = i
  · subst hj
    simpa using hseat
  · simp [hj]

theorem InnerStep.vacates (hstep : InnerStep t t' deposit withdrawal) :
    Vacates t.seats t'.seats := by
  cases hstep with
  | play _ hplay => exact hplay.value_le.1.vacates
  | abort _ hrefund =>
    intro i
    left
    simp [clearHoles, refundCommits_ok hrefund i]
  | rebuy i amount _ _ _ | slash i amount _ => exact vacates_update (.inl rfl)
  | eject i _ _ => exact vacates_update (.inr rfl)
  | normalize => exact fun i => .inl (normalizeSeat_player _)

theorem TableRun.vacates (hrun : TableRun t t' deposit withdrawal) : Vacates t.seats t'.seats := by
  induction hrun with
  | refl => exact .refl _
  | step _ hstep ih => exact ih.trans hstep.vacates

theorem startHandOn_vacates (hok : startHandOn t = .ok t') : Vacates t.seats t'.seats := by
  obtain ⟨_, _, _, _, _, _, _, _, howners, -, -, rfl⟩ := startHandOn_fresh hok
  exact fun i => .inl (howners.player i)

inductive SeatChange (t : Table) (m : Msg env) (t' : Table) : Prop
  | taken (req : MsgSit) (i : SeatIdx) (seat : Seat) : m = .sit req →
      (t.seats i).player = "" → req.player ≠ "" →
      (∀ j, (t.seats j).player ≠ req.player) → seat.player = req.player →
      t'.seats = Function.update t.seats i seat → SeatChange t m t'
  | vacated : (∀ req, m ≠ .sit req) → Vacates t.seats t'.seats → SeatChange t m t'

theorem TableEffect.seatChange (heffect : TableEffect t m t' deposit withdrawal) :
    SeatChange t m t' := by
  cases heffect with
  | sit req i seat hvacant hplayer hfresh hseat _ _ _ =>
    exact .taken req i seat rfl hvacant hplayer hfresh hseat rfl
  | leave req i _ _ _ => exact .vacated (by simp) (vacates_update (.inr rfl))
  | startHand block req _ hstart => exact .vacated (by simp) (startHandOn_vacates hstart)
  | dealerInitHand | dealerFinalizeDeck => exact .vacated (by simp) (.refl _)
  | inner hinner hrun =>
    refine .vacated ?_ hrun.vacates
    rintro req rfl
    cases hinner

/-! ## Accounts -/

section Accounts

variable {α : Type*} {account : String → α}

def SeatsApart (account : String → α) (seats : Seats) : Prop :=
  ∀ i j, (seats i).player ≠ "" → (seats j).player ≠ "" →
    account (seats i).player = account (seats j).player → i = j

theorem SeatsApart.vacates {seats seats' : Seats} (hapart : SeatsApart account seats)
    (hvacates : Vacates seats seats') : SeatsApart account seats' := by
  intro i j hi hj hsame
  have hplayer : ∀ k, (seats' k).player ≠ "" → (seats' k).player = (seats k).player :=
    fun k hk => (hvacates k).resolve_right hk
  have hi' := hplayer i hi
  have hj' := hplayer j hj
  rw [hi'] at hi hsame
  rw [hj'] at hj hsame
  exact hapart i j hi hj hsame

theorem seatsApart_normalize :
    SeatsApart account (normalizeTable t).seats ↔ SeatsApart account t.seats := by
  simp only [SeatsApart, normalizeTable, normalizeSeat_player]

theorem seatsApart_update (hapart : SeatsApart account seats) {i : SeatIdx} {seat : Seat}
    (hvacant : (seats i).player = "") (hseat : seat.player ≠ "") :
    SeatsApart account (Function.update seats i seat) ↔
      ∀ j, (seats j).player ≠ "" → account (seats j).player ≠ account seat.player := by
  constructor
  · intro hafter j hj hsame
    have hne : j ≠ i := by
      rintro rfl
      exact hj hvacant
    have heq := hafter j i (by simpa [hne] using hj) (by simpa using hseat)
      (by simpa [hne] using hsame)
    exact hne heq
  · intro hfresh j k hj hk hsame
    by_cases hji : j = i <;> by_cases hki : k = i
    · rw [hji, hki]
    · subst hji
      simp only [Function.update_self, Function.update_of_ne hki] at hk hsame
      exact absurd hsame.symm (hfresh k hk)
    · subst hki
      simp only [Function.update_self, Function.update_of_ne hji] at hj hsame
      exact absurd hsame (hfresh j hj)
    · simp only [Function.update_of_ne hji, Function.update_of_ne hki] at hj hk hsame
      exact hapart j k hj hk hsame

def TablesApart (account : String → α) (s : State env) : Prop :=
  ∀ tid t, s.getTable tid = some t → SeatsApart account t.seats

def FreshAccount (account : String → α) (s : State env) : Msg env → Prop
  | .sit req => ∀ t, s.getTable req.tableId = some t → ∀ i, (t.seats i).player ≠ "" →
      account (t.seats i).player ≠ account req.player
  | _ => True

theorem handle_apart_iff {s s' : State env} (hids : IdsValid s)
    (hapart : TablesApart account s) (hok : handle s m = .ok s') :
    TablesApart account s' ↔ FreshAccount account s m := by
  cases handle_effect hok with
  | createTable _ hm | otherTransaction _ hm =>
    subst hm
    refine iff_of_true (fun tid t ht => ?_) trivial
    cases (handle_effect hok).tableAt hids tid with
    | same _ hsame => exact hapart tid t (hsame.symm.trans ht)
    | new _ _ _ _ hnew =>
      cases hnew.symm.trans ht
      exact fun i j hi => absurd rfl hi
    | changed hm => cases hm
  | @onTable tid t t' _ _ htid ht htable hreplaces _ =>
    have hid : t'.id = tid := htable.id_eq.trans (getTable_id hids ht).1
    have htables : TablesApart account s' ↔ SeatsApart account t'.seats := by
      rw [← seatsApart_normalize]
      constructor
      · intro hall
        refine hall tid _ ((hreplaces.getTable tid).trans (if_pos hid.symm))
      · intro hone other t₁ ht₁
        rw [hreplaces.getTable, hid] at ht₁
        split at ht₁
        · cases ht₁
          exact hone
        · exact hapart other t₁ ht₁
    rw [htables]
    have hbefore := hapart tid t ht
    cases htable.seatChange with
    | taken req i seat hm hvacant hplayer _ hseat hseats =>
      subst hm
      cases htid
      rw [hseats, seatsApart_update hbefore hvacant (by rwa [hseat]), hseat]
      constructor
      · intro hfresh t₁ ht₁
        cases ht.symm.trans ht₁
        exact hfresh
      · exact fun hfresh => hfresh t ht
    | vacated hm hvacates =>
      refine iff_of_true (hbefore.vacates hvacates) ?_
      cases m with
      | sit req => exact absurd rfl (hm req)
      | _ => trivial

end Accounts

/-! ## Runs -/

theorem handle_freshText {s s' : State env} (hok : handle s m = .ok s') : FreshAccount id s m := by
  cases m with
  | sit req =>
    intro t ht i _
    obtain ⟨t₁, ht₁, hhandled⟩ := handle_handled hok rfl
    cases ht.symm.trans ht₁
    cases hhandled with
    | sit _ _ _ _ _ hfresh => exact hfresh i
  | _ => trivial

theorem tablesApart_genesis {α : Type*} (account : String → α) (balances : env.bank.Balances) :
    TablesApart account (State.genesis env balances) := by
  intro tid t ht
  simp [State.genesis, State.getTable] at ht

theorem reachable_textsApart (hreach : Reachable s) : TablesApart id s := by
  apply hreach.invariant
  · rintro _ ⟨balances, rfl⟩
    exact tablesApart_genesis id balances
  · intro s m s' hreach hapart hok
    exact (handle_apart_iff (reachable_solvent hreach).1 hapart hok).mpr (handle_freshText hok)

/-- All along a run no account has two seats at a table exactly when nobody whom the
run seats has a seat at the table already, under whatever text. -/
theorem one_account_one_seat_iff (env : Env) (balances : env.bank.Balances)
    (messages : List (Msg env)) :
    (∀ k, TablesApart env.accAddressFromBech32
        (run handle (State.genesis env balances) (messages.take k))) ↔
      AcceptedMeet handle (FreshAccount env.accAddressFromBech32)
        (State.genesis env balances) messages := by
  refine forall_take_iff ?_ (tablesApart_genesis _ balances) messages
  intro log s m s' hreach hapart hok
  have hsolvent : Solvent s := reachable_solvent ⟨_, log, ⟨balances, rfl⟩, hreach⟩
  exact handle_apart_iff hsolvent.1 hapart hok

def spellingEnv : Env where
  Addr := String
  accAddressFromBech32 := fun text =>
    if text.toList.all (fun ch => !ch.isUpper) ∨ text.toList.all (fun ch => !ch.isLower)
    then some (String.ofList (text.toList.map Char.toLower)) else none
  canonicalPoint := fun _ => true
  bank := ledgerBank

instance : DecidableEq spellingEnv.Addr := inferInstanceAs (DecidableEq String)

def twoSpellingsRun : List (Msg spellingEnv) :=
  [.createTable ⟨"gm", 1, 2, 1, 1000, 30, 120, 0, 0, 9, "table", [], []⟩,
    .sit ⟨"ocp1qqq", 1, 100, List.replicate 32 1, []⟩,
    .sit ⟨"OCP1QQQ", 1, 100, List.replicate 32 2, []⟩]

theorem twoSpellingsRun_two_seats :
    ∃ t ∈ (run handle (State.genesis spellingEnv (0 : Nat)) twoSpellingsRun).getTable 1,
      ∃ i j, i ≠ j ∧ (t.seats i).player = "ocp1qqq" ∧ (t.seats j).player = "OCP1QQQ" ∧
        spellingEnv.accAddressFromBech32 (t.seats i).player =
          spellingEnv.accAddressFromBech32 (t.seats j).player := by
  decide +kernel

end OnChainPoker.Poker
