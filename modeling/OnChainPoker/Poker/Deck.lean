import OnChainPoker.Poker.HandInvariant

/-!
# Dealing the deck

`finalizeDeck` gives the dealt seats the first positions of the deck, two each;
the board follows.  A deck that is large enough for all of them never runs out
before the showdown.
-/

namespace OnChainPoker.Poker

open Foundation

variable {h h' : Hand} {params : TableParams} {seats seats' : Seats}

/-! ## Hole positions -/

theorem assignSlots_spec (deckLen : Nat) (slots : List (SeatIdx × Fin 2))
    (positions : SeatIdx → Fin 2 → Nat) (next : Nat) (hroom : next + slots.length ≤ deckLen) :
    let dealt := slots.foldl (assignSlot deckLen) (positions, next)
    dealt.2 = next + slots.length ∧
      ∀ i c, positions i c < next ∨ (i, c) ∈ slots → dealt.1 i c < next + slots.length := by
  induction slots generalizing positions next with
  | nil => simp
  | cons slot slots ih =>
    simp only [List.length_cons, List.foldl_cons, assignSlot] at hroom ⊢
    rw [if_neg (by omega)]
    obtain ⟨hcursor, hdealt⟩ := ih (Function.update positions slot.1
      (Function.update (positions slot.1) slot.2 next)) (next + 1) (by omega)
    refine ⟨by omega, ?_⟩
    intro i c hslot
    have hstart : Function.update positions slot.1
        (Function.update (positions slot.1) slot.2 next) i c < next + 1 ∨
        (i, c) ∈ slots := by
      by_cases hhere : (i, c) = slot
      · subst hhere
        simp
      · rcases hslot with hold | hmem
        · left
          by_cases hi : i = slot.1
          · subst hi
            have hc : c ≠ slot.2 := fun hc => hhere (Prod.ext rfl hc)
            simp only [Function.update_self, Function.update_of_ne hc]
            omega
          · simp only [Function.update_of_ne hi]
            omega
        · exact Or.inr ((List.mem_cons.mp hmem).resolve_left hhere)
    have hlt := hdealt i c hstart
    omega

theorem mem_holeDealOrder {i : SeatIdx} (hin : h.inHand i = true) : i ∈ holeDealOrder h := by
  simp only [holeDealOrder, List.mem_filter, List.mem_map]
  refine ⟨⟨i - h.smallBlindSeat, List.mem_finRange _, ?_⟩, hin⟩
  ext
  omega

def DeckFits (h : Hand) : Prop :=
  2 * (holeDealOrder h).length + 5 ≤ h.dealer.deckSize ∧ h.dealer.deckSize ≤ 52

def DeckDealt (h : Hand) : Prop :=
  h.dealer.cursor + 5 ≤ h.dealer.deckSize ∧ h.dealer.deckSize ≤ 52 ∧
    ∀ i c, h.inHand i = true → h.dealer.holePos i c ≠ unsetPos

def DeckValid (h : Hand) : Prop :=
  if h.dealer.deckFinalized then DeckDealt h
  else h.phase = .shuffle ∧ (h.dealer.deckSize = 0 ∨ DeckFits h)

theorem length_dealSlots (order : List SeatIdx) : (dealSlots order).length = 2 * order.length := by
  simp [dealSlots, List.length_flatMap, two_mul]

theorem finalizeDealerMeta_cursor (hfits : DeckFits h) :
    (finalizeDealerMeta h h.dealer.deckSize).cursor = 2 * (holeDealOrder h).length := by
  have hlength := length_dealSlots (holeDealOrder h)
  have hroom := hfits.1
  obtain ⟨hcursor, -⟩ := assignSlots_spec h.dealer.deckSize (dealSlots (holeDealOrder h))
    (fun _ _ => unsetPos) 0 (by omega)
  rw [hlength, Nat.zero_add] at hcursor
  exact hcursor

theorem finalizeDealerMeta_dealt (hfits : DeckFits h) :
    DeckDealt { h with dealer := finalizeDealerMeta h h.dealer.deckSize } := by
  have hcursor := finalizeDealerMeta_cursor hfits
  obtain ⟨hroom, hmax⟩ := hfits
  have hlength := length_dealSlots (holeDealOrder h)
  obtain ⟨-, hdealt⟩ := assignSlots_spec h.dealer.deckSize (dealSlots (holeDealOrder h))
    (fun _ _ => unsetPos) 0 (by omega)
  refine ⟨?_, hmax, ?_⟩
  · change (finalizeDealerMeta h h.dealer.deckSize).cursor + 5 ≤ h.dealer.deckSize
    omega
  · intro i c hin
    have hslot : (i, c) ∈ dealSlots (holeDealOrder h) := by
      simp only [dealSlots, List.mem_flatMap, List.mem_map]
      exact ⟨c, List.mem_finRange c, i, mem_holeDealOrder hin, rfl⟩
    have hlt := hdealt i c (Or.inr hslot)
    simp only [finalizeDealerMeta, assignHolePositions]
    intro hunset
    rw [hunset, unsetPos] at hlt
    omega

/-! ## Steps -/

structure SameDeck (h h' : Hand) : Prop where
  handId : h'.handId = h.handId
  inHand : h'.inHand = h.inHand
  deckSize : h'.dealer.deckSize = h.dealer.deckSize
  deckFinalized : h'.dealer.deckFinalized = h.dealer.deckFinalized
  holePos : h'.dealer.holePos = h.dealer.holePos
  cursor : h'.dealer.cursor = h.dealer.cursor

theorem SameDeck.refl (h : Hand) : SameDeck h h := ⟨rfl, rfl, rfl, rfl, rfl, rfl⟩

theorem SameDeck.trans {h h' h'' : Hand} (hfirst : SameDeck h h')
    (hsecond : SameDeck h' h'') : SameDeck h h'' :=
  ⟨hsecond.1.trans hfirst.1, hsecond.2.trans hfirst.2, hsecond.3.trans hfirst.3,
    hsecond.4.trans hfirst.4, hsecond.5.trans hfirst.5, hsecond.6.trans hfirst.6⟩

theorem SameRound.sameDeck (hround : SameRound h h') : SameDeck h h' := by
  rw [hround]
  exact ⟨rfl, rfl, rfl, rfl, rfl, rfl⟩

theorem DeckValid.dealt (hvalid : DeckValid h) (hfinal : h.dealer.deckFinalized = true) :
    DeckDealt h := by
  simpa only [DeckValid, hfinal, if_true] using hvalid

theorem DeckDealt.of_same (hsame : SameDeck h h') (hdealt : DeckDealt h) : DeckDealt h' := by
  simpa only [DeckDealt, hsame.inHand, hsame.deckSize, hsame.holePos, hsame.cursor] using hdealt

theorem DeckValid.of_dealt (hsame : SameDeck h h')
    (hfinal : h.dealer.deckFinalized = true) (hvalid : DeckValid h) :
    DeckValid h' := by
  simp only [DeckValid, hsame.deckFinalized, hfinal, if_true]
  exact (hvalid.dealt hfinal).of_same hsame

theorem DeckValid.finalized (hvalid : DeckValid h) (hphase : h.phase ≠ .shuffle) :
    h.dealer.deckFinalized = true := by
  cases hfinal : h.dealer.deckFinalized with
  | true => rfl
  | false =>
    simp only [DeckValid, hfinal] at hvalid
    exact absurd hvalid.1 hphase

theorem DeckValid.finalize (hvalid : DeckValid h) (hsize : h.dealer.deckSize ≠ 0)
    (hopen : h.dealer.deckFinalized = false) :
    DeckValid { h with dealer := finalizeDealerMeta h h.dealer.deckSize } := by
  simp only [DeckValid, hopen] at hvalid
  have hfits := hvalid.2.resolve_left hsize
  exact finalizeDealerMeta_dealt hfits

theorem HandChange.sameDeck (hchange : HandChange params seats h seats' h') : SameDeck h h' := by
  cases hchange with
  | turn hacted =>
    have hsame := (performAction_sameRound hacted.performed).sameDeck
    exact ⟨hsame.1, hsame.2, hsame.3, hsame.4, hsame.5, hsame.6⟩
  | close hacted hexcess =>
    have hsame := ((performAction_sameRound hacted.performed).trans
      (returnUncalledStreetExcess_sameRound hexcess)).sameDeck
    exact ⟨hsame.1, hsame.2, hsame.3, hsame.4, hsame.5, hsame.6⟩
  | card | await | resume | hole | deal => exact ⟨rfl, rfl, rfl, rfl, rfl, rfl⟩

theorem HandStep.sameDeck (hstep : HandStep params seats h seats' (some h')) : SameDeck h h' := by
  rcases hstep.change with ⟨-, _, rfl⟩ | ⟨next, _, _, _, hchange, rfl⟩
  · exact ⟨rfl, rfl, rfl, rfl, rfl, rfl⟩
  · have hsame := hchange.sameDeck
    exact ⟨hsame.1, hsame.2, hsame.3, hsame.4, hsame.5, hsame.6⟩

theorem awaitPhase_ne_shuffle (street : Street) : awaitPhase street ≠ .shuffle := by
  cases street <;> simp [awaitPhase]

theorem boardTarget_ne_shuffle {phase : HandPhase} {target : Nat × Street}
    (htarget : boardTarget phase = some target) : phase ≠ .shuffle := by
  rintro rfl
  cases htarget

theorem HandChange.ne_shuffle (hchange : HandChange params seats h seats' h') :
    h'.phase ≠ .shuffle := by
  cases hchange with
  | turn hacted =>
    rw [performAction_sameRound hacted.performed]
    simp [hacted.phase]
  | close | await => exact awaitPhase_ne_shuffle _
  | card htarget _ => exact boardTarget_ne_shuffle htarget
  | resume => simp [resetPostflopBettingRound]
  | hole hphase _ => simp [hphase]
  | deal => split <;> simp

theorem HandStep.of_shuffle (hstep : HandStep params seats h seats' (some h'))
    (hphase : h'.phase = .shuffle) :
    seats' = seats ∧ ∃ deadline, h' = { h with actionDeadline := deadline } := by
  rcases hstep.change with hsame | ⟨next, _, _, _, hchange, rfl⟩
  · exact hsame
  · exact absurd hphase hchange.ne_shuffle

theorem HandStep.deck (hvalid : DeckValid h)
    (hstep : HandStep params seats h seats' (some h')) : DeckValid h' := by
  have hsame := hstep.sameDeck
  rcases hstep.change with ⟨-, _, rfl⟩ | ⟨next, _, _, _, hchange, rfl⟩
  · exact hvalid
  apply hvalid.of_dealt hsame
  cases hchange with
  | turn hacted | close hacted => exact hvalid.finalized (by simp [hacted.phase])
  | card htarget _ | await htarget | resume htarget _ =>
    exact hvalid.finalized (boardTarget_ne_shuffle htarget)
  | hole hphase _ => exact hvalid.finalized (by simp [hphase])
  | deal _ hfinal => exact hfinal

end OnChainPoker.Poker
