import OnChainPoker.Dealer.Secrecy

/-!
# Whole runs of the chain

What messages of both modules, in any order, make of an earlier state.
-/

namespace OnChainPoker.Dealer

open Foundation

variable {env : Env} {c c' : Chain env} {msg : Msg env} {tid : Nat}

def Msg.toPoker : Msg env → Option (Poker.Msg env.poker)
  | .player m => some m.toPoker
  | _ => none

def Msg.tableId : Msg env → Option Nat
  | .player m => m.toPoker.tableId
  | .hand _ m => some m.tableId
  | _ => none

def SameTable (tid : Nat) (c c' : Chain env) : Prop :=
  c.poker.getTable tid = none ∨
    c'.poker.getTable tid = c.poker.getTable tid ∧ c'.dealer.getHand tid = c.dealer.getHand tid

theorem handle_sameTable (hvalid : ChainValid c) (hother : msg.tableId ≠ some tid)
    (hok : handle c msg = .ok c') : SameTable tid c c' := by
  cases handle_step hok with
  | player m _ hpoker =>
    cases (Poker.handle_effect hpoker).tableAt hvalid.linked.solvent.1 tid with
    | same _ hsame => exact .inr ⟨hsame, rfl⟩
    | new _ _ _ hnone _ => exact .inl hnone
    | changed hm _ _ _ => exact absurd hm hother
  | dkg block m _ hdealer =>
    refine .inr ⟨rfl, funext fun hid => ?_⟩
    simp only [State.getHand, (dkg_effect hvalid.sound hdealer).hands_eq]
  | hand block m _ =>
    obtain ⟨c₁, hpenalty, hact⟩ := handleHand_effect hok
    obtain ⟨_, _, _, _, hwrote⟩ := hact.wrote (hvalid.linked.penalised hpenalty).solvent.1
    have hne : tid ≠ m.tableId := fun heq => hother (congrArg some heq.symm)
    refine .inr ⟨?_, funext fun hid => ?_⟩
    · rw [hwrote.tables, if_neg hne, hpenalty.poker_eq]
    · rw [hwrote.hands, if_neg fun both => hne both.1]
      cases hpenalty <;> rfl
  | otherStaking => exact .inr ⟨rfl, rfl⟩

theorem handle_epochLater (hvalid : ChainValid c) (hok : handle c msg = .ok c') :
    EpochLater c.dealer c'.dealer := by
  cases handle_step hok with
  | player | otherStaking => exact .of_eq rfl
  | dkg block m _ hdealer => exact (dkg_effect hvalid.sound hdealer).epochLater hvalid.sound
  | hand block m _ =>
    obtain ⟨c₁, hpenalty, hact⟩ := handleHand_effect hok
    intro e he
    rw [hact.epoch_eq]
    exact hpenalty.epochLater e he

theorem EpochLater.trans {s s₁ s₂ : State env} (h : EpochLater s s₁) (h' : EpochLater s₁ s₂) :
    EpochLater s s₂ := by
  intro e he
  obtain ⟨e₁, he₁, hstep⟩ := h e he
  obtain ⟨e₂, he₂, hstep'⟩ := h' e₁ he₁
  refine ⟨e₂, he₂, ?_⟩
  rcases hstep, hstep' with ⟨hgrows | hlt, hgrows' | hlt'⟩
  · exact .inl (hgrows.trans hgrows')
  · rw [hgrows.same] at hlt'
    exact .inr hlt'
  · rw [hgrows'.same]
    exact .inr hlt
  · exact .inr (hlt.trans hlt')

section Runs

variable (env) (balances : env.poker.bank.Balances) (staking : env.staking.Staking)
  (params : Params) (messages later : List (Msg env))

/-- The poker module runs as if alone: the players' messages are those that the chain
accepts, in their order, with messages that stand for the dealer in between. -/
theorem poker_runs_alone :
    ∃ log, Reaches Poker.handle (Poker.State.genesis env.poker balances) log
        (run handle (Chain.genesis env balances staking params) messages).poker ∧
      log.filter (·.ofPlayer) = (accepted handle
        (Chain.genesis env balances staking params) messages).filterMap Msg.toPoker := by
  have hall : Reaches handle (Chain.genesis env balances staking params) _ _ := reaches_run messages
  generalize accepted handle _ messages = log, run handle _ messages = c at hall ⊢
  induction hall with
  | refl => exact ⟨[], .refl, rfl⟩
  | @step _ _ _ msg hprev hok ih =>
    obtain ⟨log', hreach', hlog⟩ := ih
    have hvalid := reachable_valid (reachable_of_reaches hprev)
    cases msg with
    | player m =>
      simp only [handle, ok_iff] at hok
      obtain ⟨poker, hpoker, rfl⟩ := hok
      refine ⟨m.toPoker :: log', hreach'.step hpoker, ?_⟩
      rw [List.filter_cons_of_pos m.toPoker_ofPlayer, hlog]
      rfl
    | dkg | hand | otherStaking =>
      rcases (handle_refines hvalid.sound hvalid.linked hok).2 with
        ⟨_, hm, -⟩ | hsame | ⟨m, hdealer, hpoker⟩
      · cases hm
      · exact ⟨log', hsame ▸ hreach', hlog⟩
      · refine ⟨m :: log', hreach'.step hpoker, .trans ?_ hlog⟩
        cases m <;> first | rfl | cases hdealer

/-- Messages that do not name a table change neither it nor its dealer hands. -/
theorem tables_apart (tid : Nat) :
    SameTable tid (run handle (Chain.genesis env balances staking params) messages)
      (run handle (Chain.genesis env balances staking params)
        (messages ++ later.filter (·.tableId ≠ some tid))) := by
  rw [run_append]
  refine (reachable_run balances staking params messages).run_invariant_of_steps
    (SameTable tid _) (stepsMeet_of_mem fun _ hm _ => of_decide_eq_true (List.mem_filter.mp hm).2)
    (.inr ⟨rfl, rfl⟩) fun _ _ _ hreach hother hsame hok => ?_
  rcases hsame with hnone | ⟨htable, hhands⟩
  · exact .inl hnone
  · have hnext := handle_sameTable (reachable_valid hreach) hother hok
    rwa [SameTable, htable, hhands] at hnext

/-- An epoch keeps its committee and its keys, and those slashed in it stay so, until one
with a higher number takes its place. -/
theorem epoch_fixed :
    DealerSound (run handle (Chain.genesis env balances staking params) messages).dealer ∧
      EpochLater (run handle (Chain.genesis env balances staking params) messages).dealer
        (run handle (Chain.genesis env balances staking params) (messages ++ later)).dealer := by
  have hreach := reachable_run balances staking params messages
  rw [run_append]
  refine ⟨reachable_dealerSound hreach, ?_⟩
  exact later_invariant (EpochLater (run handle _ messages).dealer ·.dealer) hreach (.of_eq rfl)
    (fun _ _ _ hvalid hkept hok => hkept.trans (handle_epochLater hvalid hok)) later

end Runs

end OnChainPoker.Dealer
