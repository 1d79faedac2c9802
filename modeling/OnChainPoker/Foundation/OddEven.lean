import Mathlib.Data.List.Sort
import Mathlib.Order.MinMax

/-!
# Odd-even transposition sorting

Rounds of a network of comparators on neighbouring positions: even rounds compare
the pairs from position zero, odd rounds those from position one. As many rounds as
there are keys sort them.

The proof looks at the keys from a threshold on. Seen from the right, the last of them
moves one position with every round, the one before it starts two positions behind, and
so on, so that none ever waits for another.
-/

namespace OnChainPoker.Foundation

variable {α : Type*} [LinearOrder α]

/-- Sort the first two keys, the next two, and so on. -/
def exchangePairs : List α → List α
  | a :: b :: rest => min a b :: max a b :: exchangePairs rest
  | rest => rest

def oddEvenRound (round : Nat) (keys : List α) : List α :=
  keys.take (round % 2) ++ exchangePairs (keys.drop (round % 2))

def oddEvenRounds : (left round : Nat) → List α → List α
  | 0, _, keys => keys
  | left + 1, round, keys => oddEvenRounds left (round + 1) (oddEvenRound round keys)

/-! ## Rounds permute -/

theorem exchangePairs_perm : (keys : List α) → (exchangePairs keys).Perm keys
  | [] => .refl _
  | [_] => .refl _
  | a :: b :: rest => by
      have hrest := exchangePairs_perm rest
      rcases le_total a b with hle | hle
      · rw [exchangePairs, min_eq_left hle, max_eq_right hle]
        exact (hrest.cons b).cons a
      · rw [exchangePairs, min_eq_right hle, max_eq_left hle]
        exact (List.Perm.swap a b _).trans ((hrest.cons b).cons a)

theorem oddEvenRound_perm (round : Nat) (keys : List α) : (oddEvenRound round keys).Perm keys := by
  refine ((exchangePairs_perm _).append_left _).trans ?_
  rw [List.take_append_drop]

theorem oddEvenRounds_perm (left round : Nat) (keys : List α) :
    (oddEvenRounds left round keys).Perm keys := by
  induction left generalizing round keys with
  | zero => exact .refl _
  | succ left ih => exact (ih _ _).trans (oddEvenRound_perm round keys)

/-! ## Keys behind a position -/

/-- The keys from `v` on at the positions from `x` on. -/
def keysFrom (v : α) (keys : List α) (x : Nat) : Nat := (keys.drop x).countP (v ≤ ·)

section Counting

variable {v : α} {keys : List α} {round x : Nat}

theorem exchangePairs_drop (j : Nat) (keys : List α) :
    (exchangePairs keys).drop (2 * j) = exchangePairs (keys.drop (2 * j)) := by
  induction j generalizing keys with
  | zero => rfl
  | succ j ih =>
    match keys with
    | [] => simp [exchangePairs]
    | [a] => simp [exchangePairs, Nat.mul_add]
    | a :: b :: rest => simpa [exchangePairs, Nat.mul_add] using ih rest

theorem oddEvenRound_drop (hparity : x % 2 = round % 2) :
    (oddEvenRound round keys).drop x = exchangePairs (keys.drop x) := by
  obtain ⟨j, rfl⟩ : ∃ j, x = round % 2 + 2 * j := ⟨x / 2, by omega⟩
  rw [oddEvenRound, ← List.drop_drop, ← List.drop_drop, ← exchangePairs_drop]
  congr 1
  by_cases hlength : round % 2 ≤ keys.length
  · rw [List.drop_append_of_le_length (by simp [hlength]), List.drop_eq_nil_of_le (by simp)]
    rfl
  · have hnil : keys = [] := List.eq_nil_of_length_eq_zero (by omega)
    subst hnil
    simp [exchangePairs]

theorem keysFrom_even (hparity : x % 2 = round % 2) :
    keysFrom v (oddEvenRound round keys) x = keysFrom v keys x := by
  rw [keysFrom, oddEvenRound_drop hparity]
  exact (exchangePairs_perm _).countP_eq _

theorem keysFrom_odd (hparity : x % 2 = round % 2) (hx : x + 1 < keys.length) :
    keysFrom v (oddEvenRound round keys) (x + 1) =
      keysFrom v keys (x + 2) + if keysFrom v keys (x + 2) < keysFrom v keys x then 1 else 0 := by
  have hpair : keys.drop x = keys[x] :: keys[x + 1] :: keys.drop (x + 2) := by
    rw [List.drop_eq_getElem_cons (by omega), List.drop_eq_getElem_cons hx]
  have hafter : (oddEvenRound round keys).drop (x + 1) =
      max keys[x] keys[x + 1] :: exchangePairs (keys.drop (x + 2)) := by
    rw [← List.drop_drop, oddEvenRound_drop hparity, hpair, exchangePairs]
    rfl
  have hcount : keysFrom v keys x = keysFrom v keys (x + 2) +
      ((if v ≤ keys[x + 1] then 1 else 0) + if v ≤ keys[x] then 1 else 0) := by
    rw [keysFrom, hpair, List.countP_cons, List.countP_cons, keysFrom, Nat.add_assoc]
    simp only [decide_eq_true_eq]
  rw [keysFrom, hafter, List.countP_cons, (exchangePairs_perm _).countP_eq, ← keysFrom, hcount]
  congr 1
  split <;> split <;> split <;> simp_all

theorem keysFrom_succ_le (x : Nat) : keysFrom v keys (x + 1) ≤ keysFrom v keys x := by
  rw [keysFrom, ← List.drop_drop]
  exact (List.drop_sublist 1 _).countP_le

theorem keysFrom_le_succ (x : Nat) : keysFrom v keys x ≤ keysFrom v keys (x + 1) + 1 := by
  rw [keysFrom, keysFrom, ← List.drop_drop]
  cases keys.drop x with
  | nil => simp
  | cons a rest =>
    rw [List.countP_cons, List.drop_one, List.tail_cons]
    split <;> omega

theorem keysFrom_zero_le (x : Nat) : keysFrom v keys 0 ≤ keysFrom v keys x + x := by
  induction x with
  | zero => exact le_rfl
  | succ x ih =>
    have hstep : keysFrom v keys x ≤ keysFrom v keys (x + 1) + 1 := keysFrom_le_succ x
    omega

theorem keysFrom_round_zero : keysFrom v (oddEvenRound round keys) 0 = keysFrom v keys 0 :=
  (oddEvenRound_perm round keys).countP_eq _

theorem keysFrom_le_round (x : Nat) :
    keysFrom v keys x ≤ keysFrom v (oddEvenRound round keys) x := by
  by_cases hparity : x % 2 = round % 2
  · exact (keysFrom_even hparity).ge
  cases x with
  | zero => exact keysFrom_round_zero.ge
  | succ x =>
    have hfirst : keysFrom v keys (x + 1) ≤ keysFrom v keys x := keysFrom_succ_le x
    have hsecond : keysFrom v keys (x + 1) ≤ keysFrom v keys (x + 2) + 1 := keysFrom_le_succ (x + 1)
    by_cases hx : x + 1 < keys.length
    · rw [keysFrom_odd (by omega) hx]
      split <;> omega
    · rw [keysFrom, List.drop_eq_nil_of_le (by omega)]
      exact Nat.zero_le _

end Counting

/-! ## The wave of large keys -/

/-- After `t` rounds, the key with `k` others behind it has passed position `x`. -/
def Advanced (v : α) (keys : List α) (lead t : Nat) : Prop :=
  ∀ k x, k < keysFrom v keys 0 → x + k < keys.length → x + 2 * k ≤ t + lead →
    k < keysFrom v keys x

section Waves

variable {v : α} {keys : List α} {lead t : Nat}

theorem advanced_start (hlead : lead < keysFrom v keys 0 ∨ lead = 0) : Advanced v keys lead 0 := by
  intro k x hk hx hle
  have hzero : keysFrom v keys 0 ≤ keysFrom v keys x + x := keysFrom_zero_le x
  omega

theorem Advanced.round (hadvanced : Advanced v keys lead t) (heven : lead % 2 = 0) :
    Advanced v (oddEvenRound t keys) lead (t + 1) := by
  intro k x hk hx hle
  have hmono : keysFrom v keys x ≤ keysFrom v (oddEvenRound t keys) x := keysFrom_le_round x
  rw [keysFrom_round_zero] at hk
  rw [(oddEvenRound_perm t keys).length_eq] at hx
  by_cases hdone : x + 2 * k ≤ t + lead
  · exact (hadvanced k x hk hx hdone).trans_le hmono
  cases x with
  | zero => rwa [keysFrom_round_zero]
  | succ y =>
    -- The key stands on the left of its pair, and the ones behind it are beyond.
    have hself := hadvanced k y hk (by omega) (by omega)
    have hbehind : k ≤ keysFrom v keys (y + 2) := by
      cases k with
      | zero => exact Nat.zero_le _
      | succ k => exact hadvanced k (y + 2) (by omega) (by omega) (by omega)
    rw [keysFrom_odd (by omega) (by omega)]
    split <;> omega

theorem Advanced.rounds (hadvanced : Advanced v keys lead t) (heven : lead % 2 = 0)
    (left : Nat) : Advanced v (oddEvenRounds left t keys) lead (t + left) := by
  induction left generalizing t keys with
  | zero => exact hadvanced
  | succ left ih =>
    have hrest := ih (hadvanced.round heven)
    rwa [Nat.add_right_comm] at hrest

end Waves

/-! ## Sorted keys -/

theorem pairwise_of_keysFrom {keys : List α}
    (hend : ∀ v ∈ keys, keysFrom v keys 0 ≤ keysFrom v keys (keys.length - keysFrom v keys 0)) :
    keys.Pairwise (· ≤ ·) := by
  rw [List.pairwise_iff_getElem]
  intro i j hi hj hij
  have hv := hend keys[i] (List.getElem_mem hi)
  have hm : keysFrom keys[i] keys 0 ≤ keys.length := List.countP_le_length
  obtain ⟨x, hx⟩ : ∃ x, keys.length - keysFrom keys[i] keys 0 = x := ⟨_, rfl⟩
  rw [hx] at hv
  have hlength : (keys.drop x).length = keysFrom keys[i] keys 0 := by
    rw [List.length_drop]
    omega
  have hsplit : keysFrom keys[i] keys 0 =
      (keys.take x).countP (keys[i] ≤ ·) + keysFrom keys[i] keys x := by
    rw [keysFrom, keysFrom, ← List.countP_append, List.take_append_drop, List.drop_zero]
  have hall : ∀ a ∈ keys.drop x, keys[i] ≤ a := by
    have hfull : (keys.drop x).countP (keys[i] ≤ ·) = (keys.drop x).length :=
      le_antisymm List.countP_le_length (hlength.le.trans hv)
    simpa using List.countP_eq_length.mp hfull
  have hxi : x ≤ i := by
    by_contra hlt
    have hnone : (keys.take x).countP (keys[i] ≤ ·) = 0 := by omega
    have hmem : keys[i] ∈ keys.take x := List.mem_take_iff_getElem.mpr ⟨i, by omega, rfl⟩
    simpa using List.countP_eq_zero.mp hnone _ hmem
  refine hall _ (List.mem_drop_iff_getElem.mpr ⟨j - x, by omega, ?_⟩)
  congr 1
  omega

/-- As many rounds as there are keys sort them. -/
theorem oddEvenRounds_sorted {rounds : Nat} {keys : List α} (hrounds : keys.length ≤ rounds) :
    (oddEvenRounds rounds 0 keys).Pairwise (· ≤ ·) := by
  refine pairwise_of_keysFrom fun v _ => ?_
  have hcount : keysFrom v (oddEvenRounds rounds 0 keys) 0 = keysFrom v keys 0 :=
    (oddEvenRounds_perm rounds 0 keys).countP_eq _
  have hlength := (oddEvenRounds_perm rounds 0 keys).length_eq
  have hle : keysFrom v keys 0 ≤ keys.length := List.countP_le_length
  rw [hcount, hlength]
  cases hsome : keysFrom v keys 0 with
  | zero => exact Nat.zero_le _
  | succ k =>
    have hstart : Advanced v keys (2 * (k / 2)) 0 := advanced_start (by omega)
    have hend := hstart.rounds (by omega) rounds
    exact hend k (keys.length - (k + 1)) (by omega) (by omega) (by omega)

end OnChainPoker.Foundation
