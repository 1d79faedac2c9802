import Mathlib.Data.List.GetD
import OnChainPoker.Holdem.Standard

/-!
# The best five of seven

`Evaluate7` goes through the 21 choices of five cards, and `Winners` through the
seats; both keep the greatest rank they have met.
-/

namespace OnChainPoker.Holdem

open Foundation
open Poker (SeatIdx)

/-- The tiebreakers are ranks, so a missing one is the smallest. -/
def HandRank.Pos (r : HandRank) : Prop := ∀ t ∈ r.tiebreakers, 0 < t

theorem compareHandRank_gt {a b : HandRank} (ha : a.Pos) (hb : b.Pos) :
    compareHandRank a b = .gt ↔ b.key < a.key := by
  obtain ⟨hlt, heq⟩ := compareHandRank_spec ha hb
  rw [← not_le, le_iff_lt_or_eq, ← hlt, ← heq]
  cases compareHandRank a b <;> simp

/-! ## Five of seven -/

theorem combos7Choose5_complete :
    (Finset.range 7).powersetCard 5 = (combos7Choose5.map List.toFinset).toFinset := by
  decide

def pick (cards : List Card) (idx : List Nat) : List Card :=
  idx.map fun i => cards.getD i 0

section Seven

variable {cards7 : List Card}

section

variable (hlen : cards7.length = 7)
include hlen

theorem pick_spec (hcards : DistinctCards cards7) {idx : List Nat} (hidx : idx ∈ combos7Choose5) :
    (pick cards7 idx).length = 5 ∧ DistinctCards (pick cards7 idx) := by
  obtain ⟨hnodup, hfive, hbound⟩ := combos7Choose5_valid hidx
  exact ⟨by simpa [pick] using hfive,
    distinctCards_pick hcards hnodup (by simpa [hlen] using hbound)⟩

theorem getD_mem {i : Nat} (hi : i < 7) : cards7.getD i 0 ∈ cards7 := by
  rw [List.getD_eq_getElem _ _ (by omega)]
  exact List.getElem_mem _

theorem getD_injOn (hnodup : cards7.Nodup) {i j : Nat} (hi : i < 7) (hj : j < 7)
    (h : cards7.getD i 0 = cards7.getD j 0) : i = j := by
  rw [List.getD_eq_getElem _ _ (by omega), List.getD_eq_getElem _ _ (by omega)] at h
  exact hnodup.getElem_inj_iff.mp h

theorem mem_powersetCard_iff_pick (hcards : DistinctCards cards7) {hand : Finset Card} :
    hand ∈ cards7.toFinset.powersetCard 5 ↔
      ∃ idx ∈ combos7Choose5, (pick cards7 idx).toFinset = hand := by
  rw [Finset.mem_powersetCard]
  constructor
  · rintro ⟨hsub, hcard⟩
    have himage : ((Finset.range 7).filter fun i => cards7.getD i 0 ∈ hand).image
        (fun i => cards7.getD i 0) = hand := by
      ext c
      simp only [Finset.mem_image, Finset.mem_filter, Finset.mem_range]
      constructor
      · rintro ⟨i, ⟨-, hmem⟩, rfl⟩
        exact hmem
      · intro hc
        obtain ⟨i, hi, rfl⟩ := List.mem_iff_getElem.mp (List.mem_toFinset.mp (hsub hc))
        refine ⟨i, ⟨by omega, ?_⟩, ?_⟩
        · rwa [List.getD_eq_getElem _ _ hi]
        · rw [List.getD_eq_getElem _ _ hi]
    have hfive : ((Finset.range 7).filter fun i => cards7.getD i 0 ∈ hand) ∈
        (Finset.range 7).powersetCard 5 := by
      refine Finset.mem_powersetCard.mpr ⟨Finset.filter_subset _ _, ?_⟩
      rw [← hcard, ← himage, Finset.card_image_of_injOn, himage]
      intro i hi j hj h
      simp only [Finset.coe_filter, Finset.mem_range, Set.mem_ofPred_eq] at hi hj
      exact getD_injOn hlen hcards.1 hi.1 hj.1 h
    rw [combos7Choose5_complete, List.mem_toFinset, List.mem_map] at hfive
    obtain ⟨idx, hidx, heq⟩ := hfive
    refine ⟨idx, hidx, ?_⟩
    rw [← himage, ← heq]
    ext c
    simp [pick]
  · rintro ⟨idx, hidx, rfl⟩
    obtain ⟨hfive, hdistinct⟩ := pick_spec hlen hcards hidx
    refine ⟨fun c hc => ?_, by rw [List.toFinset_card_of_nodup hdistinct.1, hfive]⟩
    rw [List.mem_toFinset, pick, List.mem_map] at hc
    obtain ⟨i, hi, rfl⟩ := hc
    exact List.mem_toFinset.mpr (getD_mem hlen ((combos7Choose5_valid hidx).2.2 i hi))

end

end Seven

/-! ## Keeping the greatest rank -/

def keepBest (best : Option HandRank) (r : HandRank) : Option HandRank :=
  match best with
  | none => some r
  | some b => if compareHandRank r b = .gt then some r else some b

theorem foldl_keepBest_some {rs : List HandRank} {b : HandRank} (hb : b.Pos)
    (hrs : ∀ r ∈ rs, r.Pos) :
    ∃ top ∈ b :: rs, rs.foldl keepBest (some b) = some top ∧ ∀ r ∈ b :: rs, r.key ≤ top.key := by
  induction rs generalizing b with
  | nil => exact ⟨b, by simp, rfl, by simp⟩
  | cons r rest ih =>
    have hr := hrs r (by simp)
    have hrest : ∀ r' ∈ rest, r'.Pos := fun r' h => hrs r' (by simp [h])
    have hgt := compareHandRank_gt hr hb
    rw [List.foldl_cons, keepBest]
    split
    · rename_i hmore
      obtain ⟨top, hmem, hfold, hmax⟩ := ih hr hrest
      have htop := hmax r (by simp)
      refine ⟨top, List.mem_cons_of_mem _ hmem, hfold, ?_⟩
      intro x hx
      rcases List.mem_cons.mp hx with rfl | hx
      · exact (hgt.mp hmore).le.trans htop
      · exact hmax x hx
    · rename_i hless
      obtain ⟨top, hmem, hfold, hmax⟩ := ih hb hrest
      have htop := hmax b (by simp)
      refine ⟨top, ?_, hfold, ?_⟩
      · rcases List.mem_cons.mp hmem with rfl | hmem
        · simp
        · simp [hmem]
      · intro x hx
        rcases List.mem_cons.mp hx with rfl | hx
        · exact htop
        · rcases List.mem_cons.mp hx with rfl | hx
          · exact (not_lt.mp fun h => hless (hgt.mpr h)).trans htop
          · exact hmax x (by simp [hx])

section Evaluate

variable {cards7 : List Card} (hlen : cards7.length = 7) (hcards : DistinctCards cards7)

include hlen hcards

theorem evaluate7_eq_foldl : evaluate7 cards7 =
    require ((combos7Choose5.map fun idx => rank5 (pick cards7 idx)).foldl keepBest none)
      (.crash "nil dereference") := by
  have hstep : ∀ idx ∈ combos7Choose5, ∀ best : Option HandRank, (do
      let r ← crashOnErr (evaluate5 (idx.map fun i => cards7.getD i 0))
      pure (match best with
        | none => some r
        | some b => if compareHandRank r b = .gt then some r else some b) :
      Except Failure (Option HandRank)) = .ok (keepBest best (rank5 (pick cards7 idx))) := by
    intro idx hidx best
    obtain ⟨hfive, hdistinct⟩ := pick_spec hlen hcards hidx
    have hrank : evaluate5 (idx.map fun i => cards7.getD i 0) =
        .ok (rank5 (pick cards7 idx)) := evaluate5_ok hfive hdistinct
    rw [hrank]
    rfl
  rw [evaluate7, rejectIf_bind (by simp [hlen]),
    assertDistinct_ok_iff.mpr hcards, show crashOnErr (.ok ()) = .ok () from rfl, ok_bind]
  refine (congrArg (· >>= fun best => require best (.crash "nil dereference"))
    (foldlM_eq_foldl hstep none)).trans ?_
  rw [ok_bind, List.foldl_map]

theorem evaluate7_spec : ∃ r, evaluate7 cards7 = .ok r ∧ r.Pos ∧
      (r.key : WithBot (Nat ×ₗ List Nat)) = bestStanding cards7.toFinset := by
  have hpos : ∀ idx ∈ combos7Choose5, (rank5 (pick cards7 idx)).Pos := by
    intro idx hidx
    obtain ⟨hfive, hdistinct⟩ := pick_spec hlen hcards hidx
    exact rank5_pos hfive hdistinct
  have hkey : ∀ idx ∈ combos7Choose5,
      (rank5 (pick cards7 idx)).key = standing (pick cards7 idx).toFinset := by
    intro idx hidx
    obtain ⟨hfive, hdistinct⟩ := pick_spec hlen hcards hidx
    exact rank5_key hfive hdistinct
  obtain ⟨first, rest, hcombos⟩ : ∃ first rest, combos7Choose5 = first :: rest := ⟨_, _, rfl⟩
  have hrest : ∀ r ∈ rest.map fun idx => rank5 (pick cards7 idx), r.Pos := by
    intro r hr
    obtain ⟨idx, hidx, rfl⟩ := List.mem_map.mp hr
    exact hpos idx (by simp [hcombos, hidx])
  obtain ⟨top, hmem, hfold, hmax⟩ := foldl_keepBest_some (hpos first (by simp [hcombos])) hrest
  rw [← List.map_cons (f := fun idx => rank5 (pick cards7 idx)), ← hcombos] at hmem hmax
  obtain ⟨idx, hidx, rfl⟩ := List.mem_map.mp hmem
  refine ⟨rank5 (pick cards7 idx), ?_, hpos idx hidx, ?_⟩
  · rw [evaluate7_eq_foldl hlen hcards, hcombos, List.map_cons, List.foldl_cons, keepBest, hfold]
    rfl
  · rw [hkey idx hidx]
    refine le_antisymm (Finset.le_max (Finset.mem_image_of_mem _ ?_)) ?_
    · exact (mem_powersetCard_iff_pick hlen hcards).mpr ⟨idx, hidx, rfl⟩
    · refine Finset.max_le fun k hk => WithBot.coe_le_coe.mpr ?_
      obtain ⟨hand, hhand, rfl⟩ := Finset.mem_image.mp hk
      obtain ⟨other, hother, rfl⟩ := (mem_powersetCard_iff_pick hlen hcards).mp hhand
      rw [← hkey other hother, ← hkey idx hidx]
      exact hmax _ (List.mem_map_of_mem hother)

end Evaluate

/-! ## Winners -/

def keepTied (best : Option (HandRank × List SeatIdx)) (x : SeatIdx × HandRank) :
    Option (HandRank × List SeatIdx) :=
  match best with
  | none => some (x.2, [x.1])
  | some (bestRank, bestSeats) =>
    match compareHandRank x.2 bestRank with
    | .gt => some (x.2, [x.1])
    | .eq => some (bestRank, bestSeats ++ [x.1])
    | .lt => some (bestRank, bestSeats)

def seatsAt (xs : List (SeatIdx × HandRank)) (key : Nat ×ₗ List Nat) : List SeatIdx :=
  (xs.filter fun x => x.2.key = key).map (·.1)

theorem seatsAt_cons (x : SeatIdx × HandRank) (xs : List (SeatIdx × HandRank))
    (key : Nat ×ₗ List Nat) :
    seatsAt (x :: xs) key = if x.2.key = key then x.1 :: seatsAt xs key
      else seatsAt xs key := by
  by_cases h : x.2.key = key <;> simp [seatsAt, h]

theorem foldl_keepTied_some {xs : List (SeatIdx × HandRank)} {b : HandRank}
    {seats : List SeatIdx} (hb : b.Pos) (hxs : ∀ x ∈ xs, x.2.Pos) :
    ∃ top, xs.foldl keepTied (some (b, seats)) =
        some (top, (if b.key = top.key then seats else []) ++ seatsAt xs top.key) ∧
      b.key ≤ top.key ∧ (∀ x ∈ xs, x.2.key ≤ top.key) ∧
      (top.key = b.key ∨ ∃ x ∈ xs, x.2.key = top.key) := by
  induction xs generalizing b seats with
  | nil => exact ⟨b, by simp [seatsAt], le_rfl, by simp, .inl rfl⟩
  | cons x rest ih =>
    have hx := hxs x (by simp)
    have hrest : ∀ y ∈ rest, y.2.Pos := fun y h => hxs y (by simp [h])
    obtain ⟨hlt, heq⟩ := compareHandRank_spec hx hb
    have hgt := compareHandRank_gt hx hb
    rw [List.foldl_cons, keepTied]
    cases hcmp : compareHandRank x.2 b with
    | lt =>
      have hless := hlt.mp hcmp
      obtain ⟨top, hfold, hle, hmax, horigin⟩ := @ih b seats hb hrest
      refine ⟨top, ?_, hle, ?_, ?_⟩
      · rw [seatsAt_cons, if_neg (hless.trans_le hle).ne]
        exact hfold
      · simp only [List.forall_mem_cons]
        exact ⟨hless.le.trans hle, hmax⟩
      · simpa using horigin.imp id Or.inr
    | eq =>
      have hsame := heq.mp hcmp
      obtain ⟨top, hfold, hle, hmax, horigin⟩ := @ih b (seats ++ [x.1]) hb hrest
      refine ⟨top, ?_, hle, ?_, ?_⟩
      · dsimp only
        rw [hfold, seatsAt_cons, hsame]
        split <;> simp
      · simp only [List.forall_mem_cons]
        exact ⟨hsame.le.trans hle, hmax⟩
      · simpa using horigin.imp id Or.inr
    | gt =>
      have hmore := hgt.mp hcmp
      obtain ⟨top, hfold, hle, hmax, horigin⟩ := @ih x.2 [x.1] hx hrest
      refine ⟨top, ?_, hmore.le.trans hle, ?_, ?_⟩
      · dsimp only
        rw [hfold, seatsAt_cons, if_neg (hmore.trans_le hle).ne]
        split <;> simp
      · simp only [List.forall_mem_cons]
        exact ⟨hle, hmax⟩
      · right
        rcases horigin with h | ⟨y, hy, h⟩
        · exact ⟨x, by simp, h.symm⟩
        · exact ⟨y, by simp [hy], h⟩

theorem foldl_keepTied {xs : List (SeatIdx × HandRank)} (hne : xs ≠ []) (hxs : ∀ x ∈ xs, x.2.Pos) :
    ∃ top, xs.foldl keepTied none = some (top, seatsAt xs top.key) ∧
      (∀ x ∈ xs, x.2.key ≤ top.key) ∧ ∃ x ∈ xs, x.2.key = top.key := by
  cases xs with
  | nil => contradiction
  | cons x rest =>
    have hrest : ∀ y ∈ rest, y.2.Pos := fun y h => hxs y (by simp [h])
    obtain ⟨top, hfold, hle, hmax, horigin⟩ :=
      @foldl_keepTied_some rest x.2 [x.1] (hxs x (by simp)) hrest
    refine ⟨top, ?_, ?_, ?_⟩
    · rw [List.foldl_cons, keepTied, hfold, seatsAt_cons]
      split <;> rfl
    · simp only [List.forall_mem_cons]
      exact ⟨hle, hmax⟩
    · rcases horigin with h | ⟨y, hy, h⟩
      · exact ⟨x, by simp, h.symm⟩
      · exact ⟨y, by simp [hy], h⟩

def entryRank (board5 : List Card) (e : Entry) : HandRank :=
  match evaluate7 (e.cards7 board5) with
  | .ok r => r
  | .error _ => ⟨.highCard, []⟩

theorem sortedEntries_seats {entries : List Entry} (hseats : (entries.map Entry.seat).Nodup) :
    ((entries.insertionSort fun a b => a.seat ≤ b.seat).map Entry.seat).Pairwise (· < ·) := by
  have htotal : Std.Total fun a b : Entry => a.seat ≤ b.seat := ⟨fun a b => le_total _ _⟩
  have htrans : IsTrans Entry fun a b => a.seat ≤ b.seat := ⟨fun _ _ _ => le_trans⟩
  have hle := List.pairwise_insertionSort (fun a b : Entry => a.seat ≤ b.seat) entries
  have hnodup : ((entries.insertionSort fun a b => a.seat ≤ b.seat).map Entry.seat).Nodup :=
    ((List.perm_insertionSort _ entries).map Entry.seat).nodup_iff.mpr hseats
  have hboth := (List.pairwise_map.mpr hle).and hnodup
  exact hboth.imp fun h => lt_of_le_of_ne h.1 h.2

section Winners

variable {board5 : List Card} {entries : List Entry} (hlen : board5.length = 5)
  (hcards : ∀ e ∈ entries, DistinctCards (e.cards7 board5))

include hlen hcards

theorem entryRank_spec {e : Entry} (he : e ∈ entries) :
    evaluate7 (e.cards7 board5) = .ok (entryRank board5 e) ∧ (entryRank board5 e).Pos ∧
      ((entryRank board5 e).key : WithBot (Nat ×ₗ List Nat)) =
        bestStanding (e.cards7 board5).toFinset := by
  obtain ⟨r, hr, hpos, hbest⟩ := evaluate7_spec (by simp [Entry.cards7, hlen]) (hcards e he)
  have hrank : entryRank board5 e = r := by rw [entryRank, hr]
  rw [hrank]
  exact ⟨hr, hpos, hbest⟩

theorem considerEntry_eq {e : Entry} (he : e ∈ entries) (best : Option (HandRank × List SeatIdx)) :
    considerEntry board5 best e = .ok (keepTied best (e.seat, entryRank board5 e)) := by
  obtain ⟨hr, -, -⟩ := entryRank_spec hlen hcards he
  have hdistinct := hcards e he
  simp only [Entry.cards7] at hr hdistinct
  rw [considerEntry, assertDistinct_ok_iff.mpr hdistinct, ok_bind, hr, ok_bind]
  rfl

theorem greatest_iff_best {top : HandRank}
    (hmax : ∀ e ∈ entries, (entryRank board5 e).key ≤ top.key)
    (hattained : ∃ e ∈ entries, (entryRank board5 e).key = top.key) {e : Entry} (he : e ∈ entries) :
    (entryRank board5 e).key = top.key ↔ ∀ e' ∈ entries, bestStanding (e'.cards7 board5).toFinset ≤
        bestStanding (e.cards7 board5).toFinset := by
  rw [← (entryRank_spec hlen hcards he).2.2]
  constructor
  · intro heq e' he'
    rw [← (entryRank_spec hlen hcards he').2.2, heq]
    exact WithBot.coe_le_coe.mpr (hmax e' he')
  · intro hbest
    obtain ⟨e₁, he₁, htop⟩ := hattained
    have hle := hbest e₁ he₁
    rw [← (entryRank_spec hlen hcards he₁).2.2, htop] at hle
    exact le_antisymm (hmax e he) (WithBot.coe_le_coe.mp hle)

/-- The loop over the entries by ascending seat ends with the best seats. -/
theorem foldl_entries {sorted : List Entry} (hne : entries ≠ [])
    (hmem : ∀ e, e ∈ sorted ↔ e ∈ entries) (hsorted : (sorted.map Entry.seat).Pairwise (· < ·)) :
    ∃ top, (sorted.map fun e => (e.seat, entryRank board5 e)).foldl keepTied none =
      some (top, bestSeats board5 entries) := by
  obtain ⟨e₀, he₀⟩ := List.exists_mem_of_ne_nil entries hne
  have hne' : (sorted.map fun e => (e.seat, entryRank board5 e)) ≠ [] :=
    List.ne_nil_of_mem (List.mem_map_of_mem ((hmem e₀).mpr he₀))
  have hpos : ∀ x ∈ sorted.map fun e => (e.seat, entryRank board5 e), x.2.Pos := by
    intro x hx
    obtain ⟨e, he, rfl⟩ := List.mem_map.mp hx
    exact (entryRank_spec hlen hcards ((hmem e).mp he)).2.1
  obtain ⟨top, hfold, hmax, hattained⟩ := foldl_keepTied hne' hpos
  have hmax' : ∀ e ∈ entries, (entryRank board5 e).key ≤ top.key :=
    fun e he => hmax _ (List.mem_map_of_mem ((hmem e).mpr he))
  have hattained' : ∃ e ∈ entries, (entryRank board5 e).key = top.key := by
    obtain ⟨x, hx, hkey⟩ := hattained
    obtain ⟨e, he, rfl⟩ := List.mem_map.mp hx
    exact ⟨e, (hmem e).mp he, hkey⟩
  refine ⟨top, hfold.trans (congrArg (fun seats => some (top, seats)) ?_)⟩
  have hascending : (seatsAt (sorted.map fun e => (e.seat, entryRank board5 e))
      top.key).Pairwise (· < ·) := by
    refine hsorted.sublist ?_
    have hsub := (List.filter_sublist (p := fun x => decide (x.2.key = top.key))
      (l := sorted.map fun e => (e.seat, entryRank board5 e))).map Prod.fst
    rwa [List.map_map] at hsub
  refine List.Pairwise.eq_of_mem_iff hascending (Finset.sortedLT_sort _).pairwise fun seat => ?_
  simp only [seatsAt, List.mem_map, List.mem_filter, decide_eq_true_eq, bestSeats,
    Finset.mem_sort, Finset.mem_filter, Finset.mem_univ, true_and]
  constructor
  · rintro ⟨_, ⟨⟨e, he, rfl⟩, hkey⟩, rfl⟩
    have he := (hmem e).mp he
    exact ⟨e, he, rfl, (greatest_iff_best hlen hcards hmax' hattained' he).mp hkey⟩
  · rintro ⟨e, he, rfl, hbest⟩
    exact ⟨_, ⟨⟨e, (hmem e).mpr he, rfl⟩,
      (greatest_iff_best hlen hcards hmax' hattained' he).mpr hbest⟩, rfl⟩

omit hlen in
theorem distinct_board (hne : entries ≠ []) : DistinctCards board5 := by
  obtain ⟨e, he⟩ := List.exists_mem_of_ne_nil entries hne
  obtain ⟨hnodup, hvalid⟩ := hcards e he
  exact ⟨(List.nodup_append.mp hnodup).1, fun c hc => hvalid c (by simp [Entry.cards7, hc])⟩

theorem winners_eq_bestSeats (hne : entries ≠ []) (hseats : (entries.map Entry.seat).Nodup) :
    winners board5 entries = .ok (bestSeats board5 entries) := by
  have hsorted := sortedEntries_seats hseats
  obtain ⟨top, hfold⟩ := foldl_entries hlen hcards hne (fun e => List.mem_insertionSort _) hsorted
  rw [List.foldl_map] at hfold
  have hloop := foldlM_eq_foldl (fun e he best => considerEntry_eq hlen hcards
    ((List.mem_insertionSort fun a b : Entry => a.seat ≤ b.seat).mp he) best) none
  rw [hfold] at hloop
  have hascending : (bestSeats board5 entries).Pairwise (· ≤ ·) := Finset.pairwise_sort _ _
  rw [winners, rejectIf_bind (by simp [hlen]),
    assertDistinct_ok_iff.mpr (distinct_board hcards hne), ok_bind]
  dsimp only
  rw [hloop, ok_bind]
  dsimp only [require]
  exact congrArg Except.ok hascending.insertionSort_eq

end Winners

/-! ## Renaming suits -/

structure KeepsRanks (f : Card → Card) (cards : Finset Card) : Prop where
  injective : Set.InjOn f cards
  rank : ∀ c ∈ cards, Card.rank (f c) = Card.rank c
  suit : ∀ c ∈ cards, ∀ d ∈ cards,
    Card.suit (f c) = Card.suit (f d) ↔ Card.suit c = Card.suit d

section Renaming

variable {f : Card → Card} {cards hand : Finset Card}

theorem KeepsRanks.subset (hf : KeepsRanks f cards) (hsub : hand ⊆ cards) : KeepsRanks f hand :=
  ⟨hf.injective.mono hsub, fun c hc => hf.rank c (hsub hc),
    fun c hc d hd => hf.suit c (hsub hc) d (hsub hd)⟩

theorem KeepsRanks.standing_image (hf : KeepsRanks f hand) :
    standing (hand.image f) = standing hand := by
  have hranks : ranksOf (hand.image f) = ranksOf hand := by
    rw [ranksOf, Finset.image_image]
    exact Finset.image_congr fun c hc => hf.rank c hc
  have hmult : multiplicity (hand.image f) = multiplicity hand := by
    funext r
    have hfilter : (hand.image f).filter (fun c => Card.rank c = r) =
        (hand.filter fun c => Card.rank c = r).image f := by
      rw [Finset.filter_image]
      refine congrArg (Finset.image f) (Finset.filter_congr fun c hc => ?_)
      rw [hf.rank c hc]
    rw [multiplicity, hfilter, Finset.card_image_of_injOn
      (hf.injective.mono (Finset.filter_subset _ _))]
    rfl
  have hflush : Flush (hand.image f) ↔ Flush hand := by
    simp only [Flush, Finset.forall_mem_image]
    exact forall₂_congr fun c hc => forall₂_congr fun d hd => hf.suit c hc d hd
  have hpattern : pattern (hand.image f) = pattern hand := by rw [pattern, pattern, hranks, hmult]
  have hgroups : groupRanks (hand.image f) = groupRanks hand := by
    rw [groupRanks, groupRanks, groupKeys, groupKeys, hranks, hmult]
  have hstraight : straightHigh (hand.image f) = straightHigh hand := by
    rw [straightHigh, straightHigh, hranks]
  simp only [standing, category, hpattern, hgroups, hstraight, hflush]

theorem KeepsRanks.bestStanding_image (hf : KeepsRanks f cards) :
    bestStanding (cards.image f) = bestStanding cards := by
  have hhands : ((cards.image f).powersetCard 5).image standing =
      (cards.powersetCard 5).image standing := by
    ext key
    simp only [Finset.mem_image, Finset.mem_powersetCard]
    constructor
    · rintro ⟨_, ⟨hsub, hcard⟩, rfl⟩
      obtain ⟨hand, hhand, rfl⟩ := Finset.subset_image_iff.mp hsub
      have hkeeps := hf.subset hhand
      rw [Finset.card_image_of_injOn hkeeps.injective] at hcard
      exact ⟨hand, ⟨hhand, hcard⟩, hkeeps.standing_image.symm⟩
    · rintro ⟨hand, ⟨hsub, hcard⟩, rfl⟩
      have hkeeps := hf.subset hsub
      refine ⟨hand.image f, ⟨Finset.image_subset_image hsub, ?_⟩, hkeeps.standing_image⟩
      rw [Finset.card_image_of_injOn hkeeps.injective, hcard]
  rw [bestStanding, bestStanding, hhands]

end Renaming

def renameSuit (σ : Equiv.Perm (Fin 4)) (c : Card) : Card :=
  13 * (σ ⟨Card.suit c % 4, Nat.mod_lt _ (by decide)⟩).val + c % 13

theorem renameSuit_spec (σ : Equiv.Perm (Fin 4)) (c : Card) :
    renameSuit σ c ≤ 51 ∧ Card.rank (renameSuit σ c) = Card.rank c ∧
      Card.suit (renameSuit σ c) = σ ⟨Card.suit c % 4, Nat.mod_lt _ (by decide)⟩ := by
  have hcard : ∀ s m : Nat, s < 4 → m < 13 →
      13 * s + m ≤ 51 ∧ (13 * s + m) % 13 + 2 = m + 2 ∧ (13 * s + m) / 13 = s := by
    intro s m hs hm
    omega
  exact hcard _ _ (Fin.isLt _) (Nat.mod_lt c (by decide))

theorem renameSuit_keepsRanks (σ : Equiv.Perm (Fin 4)) {cards : Finset Card}
    (hvalid : ∀ c ∈ cards, c ≤ 51) : KeepsRanks (renameSuit σ) cards := by
  have hsuit : ∀ c ∈ cards, ∀ d ∈ cards, Card.suit (renameSuit σ c) =
      Card.suit (renameSuit σ d) ↔ Card.suit c = Card.suit d := by
    intro c hc d hd
    have hc4 : Card.suit c < 4 := Nat.div_lt_of_lt_mul (Nat.lt_succ_of_le (hvalid c hc))
    have hd4 : Card.suit d < 4 := Nat.div_lt_of_lt_mul (Nat.lt_succ_of_le (hvalid d hd))
    rw [(renameSuit_spec σ c).2.2, (renameSuit_spec σ d).2.2, Fin.val_inj,
      σ.injective.eq_iff, Fin.mk.injEq, Nat.mod_eq_of_lt hc4, Nat.mod_eq_of_lt hd4]
  refine ⟨fun c hc d hd heq => ?_, fun c _ => (renameSuit_spec σ c).2.1, hsuit⟩
  have hrank := (renameSuit_spec σ c).2.1
  rw [heq, (renameSuit_spec σ d).2.1] at hrank
  exact Card.eq_of_rank_suit hrank.symm ((hsuit c hc d hd).mp (by rw [heq]))

structure Redealt (σ : Equiv.Perm (Fin 4)) (board5 : List Card) (entries : List Entry)
    (board5' : List Card) (entries' : List Entry) : Prop where
  board : board5'.Perm (board5.map (renameSuit σ))
  seats : (entries'.map Entry.seat).Nodup
  forth : ∀ e ∈ entries, ∃ e' ∈ entries', e'.seat = e.seat ∧
    [e'.hole.1, e'.hole.2].Perm [renameSuit σ e.hole.1, renameSuit σ e.hole.2]
  back : ∀ e' ∈ entries', ∃ e ∈ entries, e'.seat = e.seat ∧
    [e'.hole.1, e'.hole.2].Perm [renameSuit σ e.hole.1, renameSuit σ e.hole.2]

section Redeal

variable {σ : Equiv.Perm (Fin 4)} {board5 board5' : List Card} {entries entries' : List Entry}

theorem cards7_perm {e e' : Entry} (hboard : board5'.Perm (board5.map (renameSuit σ)))
    (hhole : [e'.hole.1, e'.hole.2].Perm [renameSuit σ e.hole.1, renameSuit σ e.hole.2]) :
    (e'.cards7 board5').Perm ((e.cards7 board5).map (renameSuit σ)) := by
  rw [Entry.cards7, Entry.cards7, List.map_append]
  exact hboard.append hhole

variable (hcards : ∀ e ∈ entries, DistinctCards (e.cards7 board5))
  (hredealt : Redealt σ board5 entries board5' entries')

include hcards hredealt

theorem Redealt.distinct : ∀ e' ∈ entries', DistinctCards (e'.cards7 board5') := by
  intro e' he'
  obtain ⟨e, he, -, hhole⟩ := hredealt.back e' he'
  have hperm := cards7_perm hredealt.board hhole
  obtain ⟨hnodup, hvalid⟩ := hcards e he
  constructor
  · refine hperm.nodup_iff.mpr (hnodup.map_on fun c hc d hd h => ?_)
    have hkeeps : KeepsRanks (renameSuit σ) (e.cards7 board5).toFinset :=
      renameSuit_keepsRanks σ (by simpa using hvalid)
    exact hkeeps.injective (by simpa using hc) (by simpa using hd) h
  · intro c hc
    obtain ⟨d, -, rfl⟩ := List.mem_map.mp (hperm.mem_iff.mp hc)
    exact (renameSuit_spec σ d).1

theorem Redealt.bestStanding_eq {e e' : Entry} (he : e ∈ entries)
    (hhole : [e'.hole.1, e'.hole.2].Perm [renameSuit σ e.hole.1, renameSuit σ e.hole.2]) :
    bestStanding (e'.cards7 board5').toFinset = bestStanding (e.cards7 board5).toFinset := by
  have himage : (e'.cards7 board5').toFinset = (e.cards7 board5).toFinset.image (renameSuit σ) := by
    ext c
    rw [List.mem_toFinset, (cards7_perm hredealt.board hhole).mem_iff, List.mem_map,
      Finset.mem_image]
    simp only [List.mem_toFinset]
  rw [himage]
  exact (renameSuit_keepsRanks σ (by simpa using (hcards e he).2)).bestStanding_image

theorem Redealt.bestSeats_eq : bestSeats board5' entries' = bestSeats board5 entries := by
  have hiff : ∀ seat : SeatIdx,
      (∃ e' ∈ entries', e'.seat = seat ∧ ∀ d' ∈ entries',
        bestStanding (d'.cards7 board5').toFinset ≤ bestStanding (e'.cards7 board5').toFinset) ↔
      ∃ e ∈ entries, e.seat = seat ∧ ∀ d ∈ entries,
        bestStanding (d.cards7 board5).toFinset ≤ bestStanding (e.cards7 board5).toFinset := by
    intro seat
    constructor
    · rintro ⟨e', he', hseat, hbest⟩
      obtain ⟨e, he, hsame, hhole⟩ := hredealt.back e' he'
      refine ⟨e, he, hsame.symm.trans hseat, fun d hd => ?_⟩
      obtain ⟨d', hd', -, hhole'⟩ := hredealt.forth d hd
      rw [← hredealt.bestStanding_eq hcards he hhole, ← hredealt.bestStanding_eq hcards hd hhole']
      exact hbest d' hd'
    · rintro ⟨e, he, hseat, hbest⟩
      obtain ⟨e', he', hsame, hhole⟩ := hredealt.forth e he
      refine ⟨e', he', hsame.trans hseat, fun d' hd' => ?_⟩
      obtain ⟨d, hd, -, hhole'⟩ := hredealt.back d' hd'
      rw [hredealt.bestStanding_eq hcards he hhole, hredealt.bestStanding_eq hcards hd hhole']
      exact hbest d hd
  exact congrArg (fun s => Finset.sort s) (Finset.filter_congr fun seat _ => hiff seat)

end Redeal

end OnChainPoker.Holdem
