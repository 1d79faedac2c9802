import OnChainPoker.Foundation.Bisimulation
import OnChainPoker.Poker.HandLife

/-!
# States that no message tells apart

A handler sees the balances, the next table number and the tables as `GetTable` returns
them.  Of the height at which the last hand of a table ended only `StartHand` takes
notice, and only until the cooldown is over; from then on it is as good as no height at
all.
-/

namespace OnChainPoker.Poker

open Foundation

variable {env : Env}

/-- From this block on the height does not keep a hand from starting. -/
def CooledDown (since lastEnded : Int) : Prop :=
  lastEnded = 0 ∨ lastEnded + interHandCooldownBlocks ≤ since

structure Alike (since : Int) (s s' : State env) : Prop where
  balances : s.balances = s'.balances
  nextTableId : s.nextTableId = s'.nextTableId
  tables : ∀ tid, s.getTable tid = s'.getTable tid
  cooldown : ∀ tid, s.getLastHandEndedHeight tid = s'.getLastHandEndedHeight tid ∨
    CooledDown since (s.getLastHandEndedHeight tid) ∧
      CooledDown since (s'.getLastHandEndedHeight tid)

namespace Alike

variable {since : Int} {s s' : State env} (h : Alike since s s')
include h

theorem loadTable (tid : Nat) : s.loadTable tid = s'.loadTable tid := by
  simp only [State.loadTable, h.tables tid]

theorem loadHand (tid hid : Nat) : s.loadHand tid hid = s'.loadHand tid hid := by
  simp only [State.loadHand, h.loadTable tid]

theorem setTable (t : Table) : Alike since (s.setTable t) (s'.setTable t) := by
  have hwrites : ∀ s₀ : State env, Replaces s₀ (s₀.setTable t) t := fun _ => ⟨rfl, rfl⟩
  constructor
  · exact h.balances
  · exact h.nextTableId
  · intro tid
    rw [(hwrites s).getTable, (hwrites s').getTable, h.tables tid]
  · exact h.cooldown

theorem setBalances (balances : env.bank.Balances) :
    Alike since { s with balances := balances } { s' with balances := balances } :=
  ⟨rfl, h.nextTableId, h.tables, h.cooldown⟩

theorem setNextTableId (next : Nat) :
    Alike since { s with nextTableId := next } { s' with nextTableId := next } :=
  ⟨h.balances, rfl, h.tables, h.cooldown⟩

theorem noteEnd (tid : Nat) (height : Int) :
    Alike since
      { s with lastHandEndedHeight := s.lastHandEndedHeight.insert tid height }
      { s' with lastHandEndedHeight := s'.lastHandEndedHeight.insert tid height } := by
  refine ⟨h.balances, h.nextTableId, h.tables, fun other => ?_⟩
  by_cases hother : other = tid
  · subst hother
    left
    simp [State.getLastHandEndedHeight]
  · have hkept := h.cooldown other
    simp only [State.getLastHandEndedHeight] at hkept ⊢
    rw [AList.lookup_insert_ne hother, AList.lookup_insert_ne hother]
    exact hkept

end Alike

/-! ## The handlers -/

section Handlers

variable {since : Int} {s s' : State env} (h : Alike since s s')
include h

theorem Alike.cooling_iff (tid : Nat) {height : Int} (hheight : since ≤ height) :
    (s.getLastHandEndedHeight tid ≠ 0 ∧
        height < s.getLastHandEndedHeight tid + interHandCooldownBlocks) ↔
      (s'.getLastHandEndedHeight tid ≠ 0 ∧
        height < s'.getLastHandEndedHeight tid + interHandCooldownBlocks) := by
  rcases h.cooldown tid with hsame | ⟨hover, hover'⟩
  · rw [hsame]
  · simp only [CooledDown] at hover hover'
    constructor <;> intro hwaits <;> omega

theorem storeAfterAction_alike (block : Block) (t : Table) :
    Agree (Alike since) (storeAfterAction block s t) (storeAfterAction block s' t) := by
  have hstored := h.setTable (normalizeTable t)
  simp only [storeAfterAction]
  split
  · exact hstored
  · rw [hstored.balances]
    apply Agree.bind_same
    rintro ⟨balances, seats⟩ _
    exact ((hstored.setBalances balances).setTable _).noteEnd _ _

theorem handle_alike (m : Msg env)
    (hlate : ∀ block req, m = .startHand block req → since ≤ block.height) :
    Agree (Alike since) (handle s m) (handle s' m) := by
  cases m with
  | createTable req =>
    simp only [handle, createTable, h.nextTableId]
    apply Agree.bind_same
    intro _ _
    apply Agree.bind_same
    intro next _
    exact (h.setNextTableId next).setTable _
  | sit req | leave req | rebuy req =>
    simp only [handle, sit, leave, rebuy, h.loadTable, h.balances]
    repeat (apply Agree.bind_same; intro _ _)
    exact (h.setBalances _).setTable _
  | startHand block req =>
    simp only [handle, startHand, h.loadTable]
    iterate 4 (apply Agree.bind_same; intro _ _)
    apply Agree.bind (Agree.rejectIf (h.cooling_iff req.tableId (hlate block req rfl)))
    intro _ _ _ _
    apply Agree.bind_same
    intro t _
    exact h.setTable t
  | act block req =>
    simp only [handle, act, h.loadTable]
    repeat (apply Agree.bind_same; intro _ _)
    exact storeAfterAction_alike h block _
  | tick block req =>
    simp only [handle, tick, h.loadTable, h.balances]
    iterate 7 (apply Agree.bind_same; intro _ _)
    split
    · apply Agree.bind_same
      intro hand _
      exact h.setTable _
    · apply Agree.bind_same
      intro _ _
      apply Agree.bind_same
      intro balances _
      apply Agree.bind_same
      intro _ _
      exact storeAfterAction_alike (h.setBalances balances) block _
  | abortHandRefundAllCommits | applyDealerReveal | advanceAfterHoleSharesReady
    | dealerInitHand | dealerFinalizeDeck =>
    simp only [handle, abortHandRefundAllCommits, applyDealerReveal,
      advanceAfterHoleSharesReady, dealerInitHand, dealerFinalizeDeck, h.loadHand]
    repeat (apply Agree.bind_same; intro _ _)
    exact h.setTable _
  | otherTransaction balances =>
    simp only [handle, h.balances]
    apply Agree.bind_same
    intro _ _
    exact h.setBalances balances

end Handlers

end OnChainPoker.Poker
