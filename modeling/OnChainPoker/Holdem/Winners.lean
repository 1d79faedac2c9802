import OnChainPoker.Foundation.Loop
import OnChainPoker.Holdem.Eval

/-!
# When a showdown can be evaluated

`Winners` succeeds exactly when every hand it compares consists of seven valid
and different cards, it then names at least one seat, and the evaluator below
it never panics.
-/

namespace OnChainPoker.Holdem

open Foundation
open Poker (SeatIdx)

variable {label : String} {board5 cards : List Card} {e : Entry} {entries : List Entry}

def DistinctCards (cards : List Card) : Prop := cards.Nodup ∧ ∀ c ∈ cards, c ≤ 51

instance (cards : List Card) : Decidable (DistinctCards cards) := by
  unfold DistinctCards
  infer_instance

variable {seen : List Card} {idx : List Nat}

theorem assertDistinctFrom_ok_iff :
    assertDistinctFrom label seen cards = .ok () ↔ DistinctCards cards ∧ ∀ c ∈ cards, c ∉ seen := by
  induction cards generalizing seen with
  | nil => simp [assertDistinctFrom, DistinctCards]
  | cons c rest ih =>
    simp only [assertDistinctFrom]
    split
    · rename_i hlarge
      simp only [DistinctCards, List.mem_cons, forall_eq_or_imp, reduceCtorEq, false_iff]
      rintro ⟨⟨_, hle, _⟩, _⟩
      exact Nat.not_le.mpr hlarge hle
    · rename_i hvalid
      split
      · rename_i hseen
        simp [hseen]
      · rename_i hfresh
        rw [ih]
        simp only [DistinctCards, List.nodup_cons, List.mem_cons, forall_eq_or_imp, not_or]
        constructor
        · rintro ⟨⟨hnodup, hle⟩, hnew⟩
          refine ⟨⟨⟨?_, hnodup⟩, Nat.not_lt.mp hvalid, hle⟩, hfresh, ?_⟩
          · intro hmem
            exact (hnew c hmem).1 rfl
          · intro d hd
            exact (hnew d hd).2
        · rintro ⟨⟨⟨hnot, hnodup⟩, _, hle⟩, _, hnew⟩
          refine ⟨⟨hnodup, hle⟩, ?_⟩
          intro d hd
          refine ⟨?_, hnew d hd⟩
          rintro rfl
          exact hnot hd

theorem assertDistinct_ok_iff : assertDistinct cards label = .ok () ↔ DistinctCards cards := by
  simp [assertDistinct, assertDistinctFrom_ok_iff]

theorem assertDistinctFrom_err {failure : Failure}
    (h : assertDistinctFrom label seen cards = .error failure) :
    ∃ text, failure = .err text := by
  induction cards generalizing seen with
  | nil => cases h
  | cons c rest ih =>
    simp only [assertDistinctFrom] at h
    split at h
    · exact ⟨_, (Except.error.inj h).symm⟩
    · split at h
      · exact ⟨_, (Except.error.inj h).symm⟩
      · exact ih h

theorem assertDistinct_of_not (label : String) (h : ¬ DistinctCards cards) :
    ∃ text, assertDistinct cards label = .error (.err text) := by
  cases hcheck : assertDistinct cards label with
  | ok u => exact absurd (assertDistinct_ok_iff.mp hcheck) h
  | error failure =>
    obtain ⟨text, rfl⟩ := assertDistinctFrom_err hcheck
    exact ⟨text, rfl⟩

/-! ## The evaluator does not panic -/

theorem distinctCards_pick (hcards : DistinctCards cards) (hidx : idx.Nodup)
    (hbound : ∀ i ∈ idx, i < cards.length) :
    DistinctCards (idx.map fun i => cards.getD i 0) := by
  obtain ⟨hnodup, hvalid⟩ := hcards
  have hget : ∀ i ∈ idx, ∃ hi : i < cards.length, cards.getD i 0 = cards[i] := by
    intro i hi
    exact ⟨hbound i hi, by simp [hbound i hi]⟩
  constructor
  · refine hidx.map_on ?_
    intro i hi j hj heq
    obtain ⟨hilt, hieq⟩ := hget i hi
    obtain ⟨hjlt, hjeq⟩ := hget j hj
    rw [hieq, hjeq] at heq
    exact (hnodup.getElem_inj_iff).mp heq
  · intro c hc
    obtain ⟨i, hi, rfl⟩ := List.mem_map.mp hc
    obtain ⟨hilt, hieq⟩ := hget i hi
    rw [hieq]
    exact hvalid _ (List.getElem_mem hilt)

theorem combos7Choose5_valid (h : idx ∈ combos7Choose5) :
    idx.Nodup ∧ idx.length = 5 ∧ ∀ i ∈ idx, i < 7 := by
  revert idx
  decide

theorem evaluate5_ok {cards5 : List Card} (hlen : cards5.length = 5)
    (hcards : DistinctCards cards5) :
    evaluate5 cards5 = .ok (rank5 cards5) := by
  simp [evaluate5, hlen, assertDistinct_ok_iff.mpr hcards]

theorem foldlM_some {σ α ε : Type} {cells : List α} (step : Option σ → α → Except ε (Option σ))
    (hstep : ∀ best, ∀ a ∈ cells, ∃ next, step best a = .ok (some next)) (hne : cells ≠ []) :
    ∀ best, ∃ last, cells.foldlM step best = .ok (some last) := by
  induction cells with
  | nil => contradiction
  | cons a rest ih =>
    intro best
    obtain ⟨next, hnext⟩ := hstep best a (by simp)
    rw [List.foldlM_cons, hnext, ok_bind]
    by_cases hrest : rest = []
    · subst hrest
      exact ⟨next, rfl⟩
    · exact ih (fun best b hb => hstep best b (by simp [hb])) hrest _

theorem evaluate7_ok {cards7 : List Card} (hlen : cards7.length = 7)
    (hcards : DistinctCards cards7) : ∃ r, evaluate7 cards7 = .ok r := by
  rw [evaluate7, rejectIf_bind (by simp [hlen]), assertDistinct_ok_iff.mpr hcards]
  have hrest {loop : Except Failure (Option HandRank)} (h : ∃ best, loop = .ok (some best)) :
      ∃ r, (crashOnErr (.ok ()) >>= fun _ => loop >>= fun best =>
        require best (.crash "nil dereference")) = .ok r := by
    obtain ⟨best, rfl⟩ := h
    exact ⟨best, rfl⟩
  apply hrest
  refine foldlM_some _ (fun best idx hidx => ?_) (by decide) none
  obtain ⟨hnodup, hfive, hbound⟩ := combos7Choose5_valid hidx
  have hpick := distinctCards_pick hcards hnodup (by simpa [hlen] using hbound)
  rw [evaluate5_ok (by simpa using hfive) hpick]
  simp only [crashOnErr, Except.mapError, ok_bind]
  cases best with
  | none => exact ⟨_, rfl⟩
  | some b =>
    dsimp only
    split
    · exact ⟨_, rfl⟩
    · exact ⟨_, rfl⟩

/-! ## Winners -/

def Entry.cards7 (board5 : List Card) (e : Entry) : List Card :=
  board5 ++ [e.hole.1, e.hole.2]

theorem considerEntry_ok (hlen : board5.length = 5)
    (hcards : DistinctCards (e.cards7 board5)) (best : Option (HandRank × List SeatIdx)) :
    ∃ next, considerEntry board5 best e = .ok (some next) := by
  obtain ⟨r, hr⟩ := evaluate7_ok (by simp [Entry.cards7, hlen]) hcards
  simp only [Entry.cards7] at hr hcards
  simp only [considerEntry, assertDistinct_ok_iff.mpr hcards, hr, ok_bind]
  cases best with
  | none => exact ⟨_, rfl⟩
  | some b =>
    obtain ⟨bestRank, bestSeats⟩ := b
    dsimp only
    split <;> exact ⟨_, rfl⟩

theorem considerEntry_conflict (hcards : ¬ DistinctCards (e.cards7 board5))
    (best : Option (HandRank × List SeatIdx)) :
    ∃ text, considerEntry board5 best e = .error (.err text) := by
  obtain ⟨text, htext⟩ := assertDistinct_of_not s!"seat {e.seat} cards" hcards
  simp only [Entry.cards7] at htext
  exact ⟨text, by simp [considerEntry, htext]⟩

theorem considerEntries_conflict (hlen : board5.length = 5)
    (hconflict : ∃ e ∈ entries, ¬ DistinctCards (e.cards7 board5))
    (best : Option (HandRank × List SeatIdx)) :
    ∃ text, entries.foldlM (considerEntry board5) best = .error (.err text) := by
  induction entries generalizing best with
  | nil => simp at hconflict
  | cons e rest ih =>
    rw [List.foldlM_cons]
    by_cases he : DistinctCards (e.cards7 board5)
    · obtain ⟨next, hnext⟩ := considerEntry_ok hlen he best
      rw [hnext, ok_bind]
      refine ih ?_ _
      simpa [he] using hconflict
    · obtain ⟨text, htext⟩ := considerEntry_conflict he best
      exact ⟨text, by rw [htext, error_bind]⟩

theorem winners_ok (hlen : board5.length = 5) (hne : entries ≠ [])
    (hcards : ∀ e ∈ entries, DistinctCards (e.cards7 board5)) :
    ∃ seats, winners board5 entries = .ok seats := by
  obtain ⟨first, hfirst⟩ := List.exists_mem_of_ne_nil entries hne
  have hboard : DistinctCards board5 := by
    obtain ⟨hnodup, hvalid⟩ := hcards first hfirst
    exact ⟨(List.nodup_append.mp hnodup).1, fun c hc => hvalid c (by simp [Entry.cards7, hc])⟩
  have hsorted : entries.insertionSort (fun a b => a.seat ≤ b.seat) ≠ [] := by
    intro hnil
    have hlength := List.length_insertionSort (fun a b : Entry =>
      a.seat ≤ b.seat) entries
    rw [hnil] at hlength
    exact hne (List.length_eq_zero_iff.mp hlength.symm)
  obtain ⟨best, hbest⟩ := foldlM_some (considerEntry board5)
    (fun best e he => considerEntry_ok hlen
      (hcards e ((List.mem_insertionSort _).mp he)) best) hsorted none
  exact ⟨best.2.insertionSort (· ≤ ·), by
    simp [winners, hlen, assertDistinct_ok_iff.mpr hboard, hbest, require]⟩

theorem winners_conflict (hlen : board5.length = 5)
    (hconflict : ∃ e ∈ entries, ¬ DistinctCards (e.cards7 board5)) :
    ∃ text, winners board5 entries = .error (.err text) := by
  by_cases hboard : DistinctCards board5
  · obtain ⟨e, he, hbad⟩ := hconflict
    obtain ⟨text, htext⟩ := considerEntries_conflict hlen
      ⟨e, (List.mem_insertionSort (fun a b : Entry => a.seat ≤ b.seat)).mpr he, hbad⟩ none
    exact ⟨text, by
      simp [winners, hlen, assertDistinct_ok_iff.mpr hboard, htext]⟩
  · obtain ⟨text, htext⟩ := assertDistinct_of_not "board5" hboard
    exact ⟨text, by simp [winners, hlen, htext]⟩

theorem considerEntry_nonempty {best best' : Option (HandRank × List SeatIdx)}
    (hbest : ∀ b, best = some b → b.2 ≠ [])
    (hok : considerEntry board5 best e = .ok best') : ∀ b, best' = some b → b.2 ≠ [] := by
  simp only [considerEntry, ok_iff] at hok
  obtain ⟨_, _, r, _, rfl⟩ := hok
  intro b hb
  split at hb
  · cases hb
    simp
  · rename_i bestRank bestSeats
    have hseats := hbest _ rfl
    split at hb
    · cases hb
      simp
    · cases hb
      simp
    · cases hb
      exact hseats

theorem winners_ne_nil {seats : List SeatIdx} (hok : winners board5 entries = .ok seats) :
    seats ≠ [] := by
  simp only [winners, ok_iff] at hok
  obtain ⟨_, _, _, _, best, hloop, ⟨r, bestSeats⟩, rfl, rfl⟩ := hok
  have hbest := foldlM_invariant (fun best => ∀ b, best = some b → b.2 ≠ [])
    (fun _ _ _ _ => considerEntry_nonempty) (by simp) hloop _ rfl
  intro hnil
  have hlength := List.length_insertionSort (· ≤ ·) bestSeats
  rw [hnil] at hlength
  exact hbest (List.length_eq_zero_iff.mp hlength.symm)

end OnChainPoker.Holdem
