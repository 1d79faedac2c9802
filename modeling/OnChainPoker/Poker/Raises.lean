import OnChainPoker.Poker.HandEffects
import OnChainPoker.Poker.Refunds

/-!
# The raise rules of no-limit betting

The rules are stated over the record of a street: who acted, from which bet
level to which, and whether the last chips went in.  The hand keeps no such
record, only an interval counter, a mark per seat and a minimum raise size.  The
two are tied together by `LogKept`, and the rules hold of the record of every
street of every run.
-/

namespace OnChainPoker.Poker

open Foundation

variable {env : Env} {amount bigBlind : Nat} {m : Move} {older : List Move} {actor seat : SeatIdx}
  {h h' : Hand} {params : TableParams} {seats seats' : Seats} {action : Action}

/-! ## The rules -/

/-- One action: the bet level before and after it, and whether its player is
all-in with it. -/
structure Move where
  seat : SeatIdx
  before : Nat
  after : Nat
  allIn : Bool
  deriving DecidableEq

def Move.size (m : Move) : Nat := m.after - m.before

def Move.raises (m : Move) : Prop := m.before < m.after

def Move.opensAt (full : Nat) (m : Move) : Prop :=
  m.raises ∧ (m.before = 0 ∨ full ≤ m.size)

instance (m : Move) : Decidable m.raises :=
  inferInstanceAs (Decidable (m.before < m.after))

instance (full : Nat) (m : Move) : Decidable (m.opensAt full) :=
  inferInstanceAs (Decidable (m.raises ∧ (m.before = 0 ∨ full ≤ m.size)))

/-- The largest full bet or raise of a street so far, the big blind if there was
none.  The newest move is at the head. -/
def fullSize (bigBlind : Nat) : List Move → Nat
  | [] => bigBlind
  | m :: older =>
    if m.opensAt (fullSize bigBlind older) then
      max (fullSize bigBlind older) m.size
    else fullSize bigBlind older

def Move.opens (bigBlind : Nat) (older : List Move) (m : Move) : Prop :=
  m.opensAt (fullSize bigBlind older)

def reopened (bigBlind : Nat) (seat : SeatIdx) : List Move → Prop
  | [] => True
  | m :: older =>
    m.seat ≠ seat ∧ (m.opens bigBlind older ∨ reopened bigBlind seat older)

def RaiseRules (bigBlind : Nat) : List Move → Prop
  | [] => True
  | m :: older =>
    (m.before ≤ m.after ∧ (∀ last ∈ older.head?, last.after = m.before) ∧
      (m.raises → m.allIn = false → fullSize bigBlind older ≤ m.size) ∧
      (m.raises → reopened bigBlind m.seat older)) ∧
    RaiseRules bigBlind older

theorem fullSize_of_opens (hopens : m.opens bigBlind older) :
    fullSize bigBlind (m :: older) = max (fullSize bigBlind older) m.size :=
  if_pos hopens

theorem fullSize_of_not (hquiet : ¬ m.opens bigBlind older) :
    fullSize bigBlind (m :: older) = fullSize bigBlind older :=
  if_neg hquiet

theorem bigBlind_le_fullSize (bigBlind : Nat) (log : List Move) :
    bigBlind ≤ fullSize bigBlind log := by
  induction log with
  | nil => exact Nat.le_refl _
  | cons m older ih =>
    rw [fullSize]
    split
    · exact ih.trans (Nat.le_max_left _ _)
    · exact ih

theorem fullSize_mono (bigBlind : Nat) (m : Move) (older : List Move) :
    fullSize bigBlind older ≤ fullSize bigBlind (m :: older) := by
  rw [fullSize]
  split
  · exact Nat.le_max_left _ _
  · exact Nat.le_refl _

theorem size_le_fullSize (hopens : m.opens bigBlind older) (newer : List Move) :
    m.size ≤ fullSize bigBlind (newer ++ m :: older) := by
  induction newer with
  | nil =>
    rw [List.nil_append, fullSize_of_opens hopens]
    exact Nat.le_max_right _ _
  | cons n newer ih => exact ih.trans (fullSize_mono _ _ _)

theorem reopened_since {own : Move} (hown : own.seat = seat) {since : List Move}
    (hlast : ∀ m ∈ since, m.seat ≠ seat)
    (hreopened : reopened bigBlind seat (since ++ own :: older)) :
    ∃ later m between, since = later ++ m :: between ∧ m.seat ≠ seat ∧
      m.opens bigBlind (between ++ own :: older) := by
  induction since with
  | nil => exact absurd hown hreopened.1
  | cons m since ih =>
    rcases hreopened.2 with hopens | hrest
    · exact ⟨[], m, since, rfl, hlast m (by simp), hopens⟩
    · obtain ⟨later, opener, between, rfl, hseat, hopens⟩ :=
        ih (fun n hn => hlast n (by simp [hn])) hrest
      exact ⟨m :: later, opener, between, rfl, hseat, hopens⟩

theorem RaiseRules.levels (hrules : RaiseRules bigBlind (m :: older)) :
    ∀ last ∈ older, last.after ≤ m.before := by
  induction older generalizing m with
  | nil => simp
  | cons n older ih =>
    intro last hlast
    obtain ⟨⟨_, hchain, _, _⟩, hrest⟩ := hrules
    have hn : n.after = m.before := hchain n rfl
    rcases List.mem_cons.mp hlast with rfl | hlast
    · exact hn.le
    · have hbelow := ih hrest last hlast
      have hstep := hrest.1.1
      omega

theorem RaiseRules.tail {newer log : List Move}
    (hrules : RaiseRules bigBlind (newer ++ log)) : RaiseRules bigBlind log := by
  induction newer with
  | nil => exact hrules
  | cons m newer ih => exact ih hrules.2

/-! ## The record of a street -/

def pushMove (params : TableParams) (seats : Seats) (h : Hand) (action : Action)
    (amount : Nat) (log : List Move) : List Move :=
  match h.actionOn with
  | none => log
  | some actor =>
    match performAction params seats h actor action amount with
    | .error _ => log
    | .ok (_, h') => ⟨actor, h.betTo, h'.betTo, h'.allIn actor⟩ :: log

/-- The record grows with `Act` and `Tick` and starts anew with a hand and with
every card that is revealed. -/
def streetLogAfter (log : List Move) (t : Table) : Msg env → List Move
  | .startHand _ _ => []
  | .applyDealerReveal _ _ _ _ _ => []
  | .act _ req => t.hand.elim log fun h =>
    pushMove t.params t.seats h (Action.ofString req.action) req.amount log
  | .tick _ _ => t.hand.elim log fun h =>
    if h.actionDeadline = 0 then log
    else h.actionOn.elim log fun actor =>
      pushMove t.params (slashedSeats t.params t.seats actor) h
        (defaultAction h actor) 0 log
  | _ => log

def streetRun (env : Env) (tid : Nat) (balances : env.bank.Balances)
    (messages : List (Msg env)) : State env × List Move :=
  historyRun streetLogAfter [] tid balances messages

/-- The interval counter, the marks and the minimum raise size say what the
record says. -/
structure LogKept (bigBlind : Nat) (log : List Move) (h : Hand) : Prop where
  level : ∀ last ∈ log.head?, last.after = h.betTo
  minRaise : h.minRaiseSize = fullSize bigBlind log
  unopened : h.betTo = 0 → fullSize bigBlind log = bigBlind
  acted : ∀ seat, ¬ reopened bigBlind seat log →
    h.lastIntervalActed seat = int32 h.intervalId

theorem logKept_nil (hsize : h.minRaiseSize = bigBlind) : LogKept bigBlind [] h := by
  constructor
  case level => simp
  case minRaise => exact hsize
  case unopened => exact fun _ => rfl
  case acted => exact fun _ hnot => absurd trivial hnot

theorem performAction_quiet_marks (hquiet : action.isQuiet = true)
    (hok : performAction params seats h seat action amount = .ok (seats', h')) :
    h'.minRaiseSize = h.minRaiseSize ∧ h'.lastIntervalActed seat = int32 h.intervalId := by
  cases performAction_cases hok with
  | fold | check _ => exact ⟨rfl, Function.update_self _ _ _⟩
  | call _ hcommit =>
    obtain ⟨_, rfl⟩ := commitChips_ok hcommit
    exact ⟨rfl, Function.update_self _ _ _⟩
  | bet _ | raise _ => cases hquiet

theorem LogKept.quiet {log : List Move} (hkept : LogKept bigBlind log h)
    (hquiet : action.isQuiet = true)
    (hok : performAction params seats h actor action amount = .ok (seats', h'))
    (allIn : Bool) : LogKept bigBlind (⟨actor, h.betTo, h'.betTo, allIn⟩ :: log) h' := by
  obtain ⟨hbetTo, hinterval, _, hothers⟩ := performAction_quiet hquiet hok
  obtain ⟨hsize, hmark⟩ := performAction_quiet_marks hquiet hok
  have hnot : ¬ Move.opens bigBlind log ⟨actor, h.betTo, h'.betTo, allIn⟩ := by
    rintro ⟨hraises, _⟩
    have hraises : h.betTo < h'.betTo := hraises
    omega
  constructor
  case level => simp
  case minRaise =>
    rw [hsize, fullSize_of_not hnot]
    exact hkept.minRaise
  case unopened =>
    intro hzero
    rw [fullSize_of_not hnot]
    exact hkept.unopened (hbetTo ▸ hzero)
  case acted =>
    intro seat hclosed
    rw [hinterval]
    by_cases hseat : seat = actor
    · rw [hseat]
      exact hmark
    · rw [(hothers seat hseat).2.2.1]
      apply hkept.acted seat
      exact fun hopen => hclosed ⟨Ne.symm hseat, Or.inr hopen⟩

/-! ## Bets and raises -/

theorem raiseBetTo_cases {minBet : Nat} {desired : Nat} {isAllIn : Bool}
    (hok : raiseBetTo minBet h seat desired isAllIn = .ok h') :
    (h.betTo = 0 ∧ (isAllIn = false → minBet ≤ desired) ∧ h'.minRaiseSize = max desired minBet) ∨
      (h.betTo ≠ 0 ∧ desired - h.betTo < h.minRaiseSize ∧ isAllIn = true ∧
        h'.minRaiseSize = h.minRaiseSize ∧ h'.intervalId = h.intervalId) ∨
      (h.betTo ≠ 0 ∧ h.minRaiseSize ≤ desired - h.betTo ∧ h'.minRaiseSize = desired - h.betTo) := by
  simp only [raiseBetTo] at hok
  split at hok
  · rename_i hzero
    simp only [ok_iff, not_and] at hok
    obtain ⟨_, hlarge, rfl⟩ := hok
    refine Or.inl ⟨hzero, ?_, rfl⟩
    intro hnot
    by_contra hsmall
    exact hlarge (not_le.mp hsmall) hnot
  · rename_i hopen
    split at hok
    · rename_i hshort
      simp only [ok_iff, Bool.not_eq_false] at hok
      obtain ⟨_, hallIn, rfl⟩ := hok
      exact Or.inr (Or.inl ⟨hopen, hshort, hallIn, rfl, rfl⟩)
    · rename_i hfull
      cases hok
      exact Or.inr (Or.inr ⟨hopen, not_lt.mp hfull, rfl⟩)

structure BetMade (minBet : Nat) (h h' : Hand) (seat : SeatIdx) : Prop where
  allowed : h.lastIntervalActed seat ≠ int32 h.intervalId
  others : ∀ i, i ≠ seat → h'.lastIntervalActed i = h.lastIntervalActed i
  kind : (h.betTo = 0 ∧ (h'.allIn seat = false → minBet ≤ h'.betTo) ∧
        h'.minRaiseSize = max h'.betTo minBet) ∨
      (h.betTo ≠ 0 ∧ h'.betTo - h.betTo < h.minRaiseSize ∧
        h'.allIn seat = true ∧ h'.minRaiseSize = h.minRaiseSize ∧
        h'.intervalId = h.intervalId) ∨
      (h.betTo ≠ 0 ∧ h.minRaiseSize ≤ h'.betTo - h.betTo ∧
        h'.minRaiseSize = h'.betTo - h.betTo)

theorem applyBetTo_made {minBet : Nat} {desired : Nat}
    (hok : applyBetTo minBet seats h seat desired = .ok (seats', h')) :
    BetMade minBet h h' seat := by
  simp only [applyBetTo, validateRaiseAllowed, ok_iff] at hok
  obtain ⟨_, hmore, maxCommit, hmax, _, _, _, _, _, hallowed, raised, hraise, hcommit⟩ := hok
  have hmax := addUint64Checked_ok hmax
  have hcases := raiseBetTo_cases hraise
  obtain ⟨interval, size, hraised⟩ := raiseBetTo_ok hraise
  obtain ⟨_, rfl⟩ := commitChips_ok hcommit
  have hbetTo : raised.betTo = desired := by
    rw [hraised]
    rfl
  -- the whole stack goes in exactly when the largest possible bet is made
  have hallIn : decide (desired = maxCommit) = true →
      (seats seat).stack - (desired - h.streetCommit seat) = 0 := by
    intro hall
    have hall := of_decide_eq_true hall
    omega
  constructor
  case allowed => exact hallowed
  case others =>
    intro i hi
    simp only [hraised, markActed]
    exact Function.update_of_ne hi _ _
  case kind =>
    rcases hcases with ⟨hzero, hlarge, hsize⟩ | ⟨hopen, hshort, hall, hsize, hsame⟩ |
      ⟨hopen, hfull, hsize⟩
    · refine Or.inl ⟨hzero, ?_, ?_⟩
      · intro hnot
        simp only [hbetTo]
        apply hlarge
        by_contra htrue
        rw [Bool.not_eq_false] at htrue
        simp [hallIn htrue] at hnot
      · simp only [hbetTo]
        exact hsize
    · refine Or.inr (Or.inl ⟨hopen, ?_, ?_, hsize, hsame⟩)
      · simp only [hbetTo]
        exact hshort
      · simp [hallIn hall]
    · refine Or.inr (Or.inr ⟨hopen, ?_, ?_⟩)
      · simp only [hbetTo]
        exact hfull
      · simp only [hbetTo]
        exact hsize

theorem performAction_made (hloud : action.isQuiet = false)
    (hok : performAction params seats h seat action amount = .ok (seats', h')) :
    BetMade params.bigBlind h h' seat := by
  cases action with
  | fold | check | call => cases hloud
  | bet | raise =>
    simp only [performAction, ok_iff] at hok
    obtain ⟨_, _, _, _, hbet⟩ := hok
    exact applyBetTo_made hbet
  | other text => cases hok

theorem LogKept.loud {log : List Move} (hkept : LogKept params.bigBlind log h)
    (hloud : action.isQuiet = false)
    (hok : performAction params seats h actor action amount = .ok (seats', h')) (allIn : Bool) :
    LogKept params.bigBlind (⟨actor, h.betTo, h'.betTo, allIn⟩ :: log) h' := by
  obtain ⟨hlt, _, hmark, _⟩ := performAction_loud hloud hok
  have hmade := performAction_made hloud hok
  generalize hm : (⟨actor, h.betTo, h'.betTo, allIn⟩ : Move) = m
  have hseat : m.seat = actor := by rw [← hm]
  have hsize : m.size = h'.betTo - h.betTo := by rw [← hm]; rfl
  have hraises : m.raises := by
    rw [← hm]
    exact hlt
  have hbefore : m.before = h.betTo := by rw [← hm]
  have hmin := hkept.minRaise
  constructor
  case level =>
    rw [← hm]
    simp
  case minRaise =>
    rcases hmade.kind with ⟨hzero, _, hnext⟩ | ⟨hopen, hshort, _, hnext, _⟩ | ⟨hopen, hfull, hnext⟩
    · have hopens : m.opens params.bigBlind log := ⟨hraises, Or.inl (hbefore.trans hzero)⟩
      rw [hnext, fullSize_of_opens hopens, hkept.unopened hzero, hsize, hzero]
      omega
    · have hnot : ¬ m.opens params.bigBlind log := by
        rintro ⟨_, hfirst | hlarge⟩
        · exact hopen (hbefore.symm.trans hfirst)
        · omega
      rw [hnext, fullSize_of_not hnot]
      exact hmin
    · have hopens : m.opens params.bigBlind log := ⟨hraises, Or.inr (by omega)⟩
      rw [hnext, fullSize_of_opens hopens]
      omega
  case unopened =>
    intro hzero
    omega
  case acted =>
    intro seat hclosed
    by_cases hself : seat = actor
    · rw [hself]
      exact hmark
    · have hother : m.seat ≠ seat := by
        rw [hseat]
        exact Ne.symm hself
      have hnot : ¬ m.opens params.bigBlind log := fun hopens => hclosed ⟨hother, Or.inl hopens⟩
      rcases hmade.kind with ⟨hzero, _, _⟩ | ⟨_, _, _, _, hsame⟩ | ⟨_, hfull, _⟩
      · exact absurd ⟨hraises, Or.inl (hbefore.trans hzero)⟩ hnot
      · rw [hmade.others seat hself, hsame]
        apply hkept.acted seat
        exact fun hopen => hclosed ⟨hother, Or.inr hopen⟩
      · exact absurd ⟨hraises, Or.inr (by omega)⟩ hnot

theorem RaiseRules.push {log : List Move} (hrules : RaiseRules params.bigBlind log)
    (hkept : LogKept params.bigBlind log h)
    (hok : performAction params seats h actor action amount = .ok (seats', h')) :
    RaiseRules params.bigBlind (⟨actor, h.betTo, h'.betTo, h'.allIn actor⟩ :: log) := by
  refine ⟨⟨(performAction_levels hok).1, hkept.level, ?_, ?_⟩, hrules⟩
  all_goals
    intro hraises
    have hraises : h.betTo < h'.betTo := hraises
    have hloud : action.isQuiet = false := by
      by_contra hquiet
      rw [Bool.not_eq_false] at hquiet
      have hsame := (performAction_quiet hquiet hok).1
      omega
    have hmade := performAction_made hloud hok
  · intro hnot
    have hmin := hkept.minRaise
    simp only [Move.size]
    rcases hmade.kind with ⟨hzero, hlarge, _⟩ | ⟨_, _, hall, _⟩ | ⟨_, hfull, _⟩
    · have hbet := hlarge hnot
      rw [hkept.unopened hzero]
      omega
    · rw [hall] at hnot
      cases hnot
    · omega
  · by_contra hclosed
    exact hmade.allowed (hkept.acted actor hclosed)

/-! ## Runs -/

structure TableLog (log : List Move) (t : Table) : Prop where
  rules : RaiseRules t.params.bigBlind log
  kept : ∀ h, t.hand = some h → h.inRound → LogKept t.params.bigBlind log h

theorem LogKept.congr {log : List Move} (hkept : LogKept bigBlind log h)
    (hbetTo : h'.betTo = h.betTo) (hsize : h'.minRaiseSize = h.minRaiseSize)
    (hinterval : h'.intervalId = h.intervalId)
    (hacted : h'.lastIntervalActed = h.lastIntervalActed) : LogKept bigBlind log h' := by
  constructor
  case level => rw [hbetTo]; exact hkept.level
  case minRaise => rw [hsize]; exact hkept.minRaise
  case unopened => rw [hbetTo]; exact hkept.unopened
  case acted => rw [hinterval, hacted]; exact hkept.acted

theorem applyAction_log {hand' : Option Hand} {now : Int} {log : List Move}
    (hrules : RaiseRules params.bigBlind log) (hkept : h.inRound → LogKept params.bigBlind log h)
    (hok : applyAction params seats h action amount now = .ok (seats', hand')) :
    RaiseRules params.bigBlind (pushMove params seats h action amount log) ∧
      ∀ h', hand' = some h' → h'.inRound →
        LogKept params.bigBlind (pushMove params seats h action amount log) h' := by
  obtain ⟨actor, middleSeats, middle, hand, hphase, hactor, _, _, hperform,
    hadvance, hdeadlines⟩ := applyAction_ok hok
  have hkept := hkept (Or.inr hphase)
  have hpush : pushMove params seats h action amount log =
      ⟨actor, h.betTo, middle.betTo, middle.allIn actor⟩ :: log := by
    simp only [pushMove, hactor, hperform]
  have hmiddle : LogKept params.bigBlind
      (⟨actor, h.betTo, middle.betTo, middle.allIn actor⟩ :: log) middle := by
    cases hquiet : action.isQuiet with
    | true => exact hkept.quiet hquiet hperform _
    | false => exact hkept.loud hquiet hperform _
  rw [hpush]
  refine ⟨hrules.push hkept hperform, ?_⟩
  rintro h' rfl hin
  obtain ⟨next, rfl, hset⟩ := setDeadlinesIfActive_some hdeadlines
  obtain ⟨_, _, _, rfl⟩ := setDeadlines_ok hset
  rcases maybeAdvance_some hadvance with
    ⟨_, _, rfl, rfl⟩ | ⟨_, _, settled, _, rfl⟩
  · exact hmiddle.congr rfl rfl rfl rfl
  · exact absurd hin (awaitPhase_not_inRound settled.street rfl)

theorem reveal_minRaise {hand : Option Hand} {pos cardID : Nat} {block : Block}
    (hreveal : applyDealerRevealToPoker params seats h pos cardID = .ok (seats', hand))
    (hdeadlines : setDeadlinesIfActive params seats' block.unix hand = .ok (some h'))
    (hin : h'.inRound) : h'.minRaiseSize = params.bigBlind := by
  obtain ⟨next, rfl, hset⟩ := setDeadlinesIfActive_some hdeadlines
  obtain ⟨_, _, _, rfl⟩ := setDeadlines_ok hset
  have hout : ¬ h.inRound := by
    rintro (hphase | hphase) <;> simp [applyDealerRevealToPoker, hphase] at hreveal
  cases applyDealerRevealToPoker_change hreveal with
  | turn hacted | close hacted => exact absurd (Or.inr hacted.phase) hout
  | await => exact absurd hin (awaitPhase_not_inRound _ rfl)
  | card | hole => exact absurd hin hout
  | resume => rfl
  | deal hphase _ => exact absurd (Or.inl hphase) hout

theorem HandEffect.log {log : List Move} {t t' : Table} {m : Msg env}
    (hlog : TableLog log t) (hparams : t'.params = t.params)
    (heffect : HandEffect t m t'.hand) : TableLog (streetLogAfter log t m) t' := by
  obtain ⟨hrules, hkept⟩ := hlog
  generalize hhand' : t'.hand = hand' at heffect
  suffices hnext : RaiseRules t.params.bigBlind (streetLogAfter log t m) ∧
      ∀ h, hand' = some h → h.inRound → LogKept t.params.bigBlind (streetLogAfter log t m) h by
    constructor
    · rw [hparams]
      exact hnext.1
    · rw [hparams, hhand']
      exact hnext.2
  cases heffect with
  | sit req | leave req | rebuy req => exact ⟨hrules, hkept⟩
  | startHand block req _ hstart =>
    refine ⟨trivial, fun h hh _ => logKept_nil ?_⟩
    obtain ⟨_, _, _, _, _, _, _, _, _, rfl⟩ := startHandOn_ok hstart
    cases hh
    rfl
  | act block req hold haction =>
    simp only [streetLogAfter, hold, Option.elim_some]
    exact applyAction_log hrules (hkept _ hold) haction
  | deadline block req hold hunset hdeadline =>
    obtain ⟨_, rfl⟩ := setActionDeadlineIfBetting_ok hdeadline
    simp only [streetLogAfter, hold, Option.elim_some, hunset, if_true]
    refine ⟨hrules, ?_⟩
    rintro _ ⟨⟩ hin
    exact (hkept _ hold hin).congr rfl rfl rfl rfl
  | tick block req hold hactor hset haction =>
    simp only [streetLogAfter, hold, Option.elim_some, hset, if_false, hactor]
    exact applyAction_log hrules (hkept _ hold) haction
  | abort tid _ => exact ⟨hrules, fun _ hnone => (nomatch hnone)⟩
  | reveal block tid pos cardID _ hreveal hdeadlines =>
    refine ⟨trivial, fun h hh hin => logKept_nil ?_⟩
    subst hh
    exact reveal_minRaise hreveal hdeadlines hin
  | advance block tid hold hphase _ hdeadlines =>
    obtain ⟨_, _, _, rfl⟩ := setDeadlines_ok hdeadlines
    refine ⟨hrules, ?_⟩
    rintro _ ⟨⟩ _
    exact (hkept _ hold (Or.inl hphase)).congr rfl rfl rfl rfl
  | dealerInitHand tid epochId deckSize hold hphase
  | dealerFinalizeDeck tid hold hphase =>
    refine ⟨hrules, ?_⟩
    rintro _ ⟨⟩ _
    exact (hkept _ hold (Or.inl hphase)).congr rfl rfl rfl rfl

theorem reachable_log {tid : Nat} {balances : env.bank.Balances} {messages : List (Msg env)}
    {t : Table} (hget : (streetRun env tid balances messages).1.getTable tid = some t) :
    TableLog (streetRun env tid balances messages).2 t := by
  refine (historyRun_invariant (P := TableLog) ?_ ?_
    (stepsMeet_of_forall (fun _ _ => trivial) messages)).2 t hget
  · exact fun _ _ _ => ⟨trivial, fun _ hnone => (nomatch hnone)⟩
  · intro log s s' m t loaded _ _ hreach _ hok hmsg hget hload _ hlog
    have hids := (reachable_solvent hreach).1
    obtain ⟨t', hget', hparams, heffect⟩ := handle_hand hids hok hmsg hget
    rw [hget'] at hload
    cases hload
    exact heffect.log hlog hparams

/-- In every run, for every action recorded on a street, whatever came before it
there: the bet level has not gone down; a bet or raise that is not all-in is at
least the big blind and at least every full bet or raise before it; and a seat
that had acted before it has been given back the right to raise by another seat
that opened a new interval since. -/
theorem raise_rules (env : Env) (tid : Nat) (balances : env.bank.Balances)
    (messages : List (Msg env)) {t : Table}
    (hget : (streetRun env tid balances messages).1.getTable tid = some t)
    {newer older : List Move} {m : Move}
    (hlog : (streetRun env tid balances messages).2 = newer ++ m :: older) :
    m.before ≤ m.after ∧ (∀ last ∈ older, last.after ≤ m.before) ∧
    (m.raises → m.allIn = false → t.params.bigBlind ≤ m.size ∧
      ∀ later full earlier, older = later ++ full :: earlier →
        full.opens t.params.bigBlind earlier → full.size ≤ m.size) ∧
    (m.raises → ∀ since own earlier, older = since ++ own :: earlier →
      own.seat = m.seat → (∀ n ∈ since, n.seat ≠ m.seat) →
      ∃ later opener between, since = later ++ opener :: between ∧
        opener.seat ≠ m.seat ∧
        opener.opens t.params.bigBlind (between ++ own :: earlier)) := by
  have hrules := (reachable_log hget).rules
  rw [hlog] at hrules
  have hrest := hrules.tail
  have hlevels := hrest.levels
  obtain ⟨⟨hlevel, _, hsize, hagain⟩, _⟩ := hrest
  refine ⟨hlevel, hlevels, ?_, ?_⟩
  · intro hraises hnot
    have hfull := hsize hraises hnot
    refine ⟨(bigBlind_le_fullSize _ _).trans hfull, ?_⟩
    rintro later full earlier rfl hopens
    exact (size_le_fullSize hopens later).trans hfull
  · rintro hraises since own earlier rfl hown hlast
    exact reopened_since hown hlast (hagain hraises)

/-- The button raises to 20, the small blind re-raises all-in to 30, which is
short of a full raise, and the big blind calls. -/
def shortRaiseRun : List (Msg ledgerEnv) :=
  dealtTo sampleTable [("A", 100), ("B", 30), ("C", 100)] ++
    [.act sampleBlock ⟨"A", 1, "raise", 20⟩, .act sampleBlock ⟨"B", 1, "raise", 30⟩,
      .act sampleBlock ⟨"C", 1, "call", 0⟩]

theorem shortRaise_rules :
    (streetRun ledgerEnv 1 (0 : Nat) shortRaiseRun).2 =
      [⟨2, 30, 30, false⟩, ⟨1, 20, 30, true⟩, ⟨0, 2, 20, false⟩] ∧
      ∃ t, (streetRun ledgerEnv 1 (0 : Nat) shortRaiseRun).1.getTable 1 = some t ∧
        t.params.bigBlind ≤ (⟨0, 2, 20, false⟩ : Move).size := by
  have hloaded : ((streetRun ledgerEnv 1 (0 : Nat) shortRaiseRun).1.getTable
      1).isSome = true := by
    decide +kernel
  have hlog : (streetRun ledgerEnv 1 (0 : Nat) shortRaiseRun).2 =
      [⟨2, 30, 30, false⟩, ⟨1, 20, 30, true⟩, ⟨0, 2, 20, false⟩] := by
    decide +kernel
  obtain ⟨t, hget⟩ := Option.isSome_iff_exists.mp hloaded
  have hsplit : (streetRun ledgerEnv 1 (0 : Nat) shortRaiseRun).2 =
      [⟨2, 30, 30, false⟩, ⟨1, 20, 30, true⟩] ++ ⟨0, 2, 20, false⟩ :: [] := hlog
  have hrules := raise_rules ledgerEnv 1 (0 : Nat) shortRaiseRun hget hsplit
  exact ⟨hlog, t, hget, (hrules.2.2.1 (by decide) rfl).1⟩

end OnChainPoker.Poker
