import OnChainPoker.Dealer.ActiveHands
import OnChainPoker.Poker.HandEnds
import OnChainPoker.Poker.Rotation

/-!
# How hands end on the chain

A hand ends in a message of the players or in one of the dealers.  The first kind
starts the cooldown and ejects the seats that have lost their bond, but leaves the
dealer's record of the hand behind; the second kind deletes the record and does
neither of the others.
-/

namespace OnChainPoker.Dealer

open Foundation
open Poker (Block Hand Table TableChange BondsPaid)

variable {env : Env} {c c' : Chain env} {msg : Msg env} {tid : Nat}

/-! ## The step of a table -/

def Msg.height : Msg env → Option Int
  | .player (.startHand block _) => some block.height
  | .player (.act block _) => some block.height
  | .player (.tick block _) => some block.height
  | .dkg block _ => some block.height
  | .hand block _ => some block.height
  | _ => none

def Msg.dealsHand : Msg env → Bool
  | .hand _ _ => true
  | _ => false

/-- What a message of the chain means to a table, seen from x/poker.  Only the
players act, and only the dealers show cards and give up. -/
structure ChainChange (c c' : Chain env) (msg : Msg env) (tid : Nat)
    (m : Poker.Msg env.poker) : Prop where
  change : TableChange c.poker c'.poker m tid
  acts : ∀ block key, m.action = some (block, key) →
    msg.height = some block.height ∧ msg.dealsHand = false
  settles : m.settles = true → msg.dealsHand = true

theorem chainChange_same (msg : Msg env) (tid : Nat) (hpoker : c'.poker = c.poker) :
    ChainChange c c' msg tid (.otherTransaction c.poker.balances) := by
  refine ⟨?_, fun _ _ hnone => (nomatch hnone), fun hnone => (nomatch hnone)⟩
  rw [hpoker]
  exact .same rfl rfl

theorem handle_chainChange (hsound : DealerSound c.dealer) (hlinked : Linked c)
    (hok : handle c msg = .ok c') (tid : Nat) :
    ∃ m, ChainChange c c' msg tid m := by
  have hids := hlinked.solvent.1
  cases handle_step hok with
  | player m _ hpoker =>
    refine ⟨m.toPoker, Poker.handle_change hids hpoker tid, ?_, ?_⟩
    · intro block key hacts
      cases m <;> cases hacts <;> exact ⟨rfl, rfl⟩
    · intro hsettles
      cases m <;> cases hsettles
  | dkg block m _ _ | otherStaking staking => exact ⟨_, chainChange_same _ tid rfl⟩
  | hand block m _ =>
    rcases (handle_refines hsound hlinked hok).2 with
      ⟨_, hplayer, _⟩ | hsame | ⟨m', hdealer, hpoker⟩
    · cases hplayer
    · exact ⟨_, chainChange_same _ tid hsame⟩
    · refine ⟨m', Poker.handle_change hids hpoker tid, ?_, fun _ => rfl⟩
      intro _ _ hacts
      cases m' <;> simp [fromDealer, Poker.Msg.action] at hdealer hacts

def handEnds (c c' : Chain env) (tid : Nat) : Bool :=
  ((c.poker.getTable tid).bind (·.hand)).isSome &&
    ((c'.poker.getTable tid).bind (·.hand)).isNone

variable {m : Poker.Msg env.poker} {balances : env.poker.bank.Balances}
  {staking : env.staking.Staking} {params : Params} {messages : List (Msg env)}

theorem ChainChange.ends (hchange : ChainChange c c' msg tid m) :
    (handEnds c c' tid = true ∧ msg.dealsHand = false ∧
      msg.height = some (c'.poker.getLastHandEndedHeight tid)) ∨
    ((handEnds c c' tid = true → msg.dealsHand = true) ∧
      c'.poker.getLastHandEndedHeight tid = c.poker.getLastHandEndedHeight tid) := by
  have hlast : ∀ {last : Store Nat Int}, c'.poker.lastHandEndedHeight = last →
      c'.poker.getLastHandEndedHeight tid = (last.lookup tid).getD 0 := by
    rintro _ rfl
    rfl
  cases hchange.change with
  | same hget hsame =>
    have hgoes : handEnds c c' tid = false := by
      rw [handEnds, hget]
      cases (c.poker.getTable tid).bind (·.hand) <;> rfl
    exact Or.inr ⟨by simp [hgoes], hsame⟩
  | created t' hnone _ _ _ hsame =>
    refine Or.inr ⟨?_, hsame⟩
    simp [handEnds, hnone]
  | changed hget hget' _ houtcome =>
    cases houtcome with
    | goesOn hopen hsame =>
      refine Or.inr ⟨?_, hlast hsame⟩
      simp [handEnds, hget', hopen]
    | idle hnone _ _ hsame =>
      refine Or.inr ⟨?_, hlast hsame⟩
      simp [handEnds, hget, hnone]
    | settled hsettles _ _ _ hsame => exact Or.inr ⟨fun _ => hchange.settles hsettles, hlast hsame⟩
    | foldedOut block hacts hopen hover _ hnoted =>
      obtain ⟨hheight, hplayers⟩ := hchange.acts _ _ hacts
      refine Or.inl ⟨?_, hplayers, ?_⟩
      · simp [handEnds, hget, hget', hover, Option.isSome_iff_ne_none, hopen]
      · rw [hlast hnoted, AList.lookup_insert]
        exact hheight

/-! ## Two ends of a hand -/

/-- Two players with a bond of one big blind, whose hole cards `A` and `B` have
dealt. -/
def bettingRun : List (Msg residueEnv) :=
  committeeRun ++
    [.player (.createTable ⟨"gm", 1, 2, 1, 1000, 30, 120, 2, 0, 9, "table", [], []⟩)] ++
    (dealRun 1 10).drop 1 ++ shufflesRun 10 ++ holeSharesRun

def foldedRun : List (Msg residueEnv) :=
  bettingRun ++ [.player (.act (blockAt 220) ⟨"P", 1, "fold", 0⟩)]

/-- The second player lets the clock run out and loses the bond; then the dealers do
not show the flop. -/
def abortedRun : List (Msg residueEnv) :=
  bettingRun ++ [.player (.act (blockAt 220) ⟨"P", 1, "call", 0⟩),
    .player (.tick (blockAt 260) ⟨"P", 1⟩), handMsgAt 500 (.timeout ⟨"gm", 1, 1⟩)]

def laterBlock : Block := ⟨15, 2000, by decide, by decide⟩

def startHandAt (block : Block) : Msg residueEnv := .player (.startHand block ⟨"P", 1⟩)

/-! ## The cooldown -/

structure HandEnd where
  height : Int
  byDealer : Bool
  deriving DecidableEq

structure EndLog where
  clock : Int
  ends : List HandEnd

def recordEnd (tid : Nat) (c : Chain env) (msg : Msg env) (log : EndLog) : EndLog :=
  let clock := msg.height.getD log.clock
  ⟨clock, if handEnds c (deliver handle c msg) tid then
    ⟨clock, msg.dealsHand⟩ :: log.ends else log.ends⟩

def endRun (env : Env) (tid : Nat) (balances : env.poker.bank.Balances)
    (staking : env.staking.Staking) (params : Params) (messages : List (Msg env)) :
    Chain env × EndLog :=
  run (withHistory handle (recordEnd tid))
    (Chain.genesis env balances staking params, ⟨1, []⟩) messages

def HeightsRise (s : Chain env × EndLog) (msg : Msg env) : Prop :=
  ∀ height ∈ msg.height, s.2.clock ≤ height

instance (s : Chain env × EndLog) (msg : Msg env) : Decidable (HeightsRise s msg) :=
  inferInstanceAs (Decidable (∀ height ∈ msg.height, s.2.clock ≤ height))

structure EndsNoted (tid : Nat) (c : Chain env) (log : EndLog) : Prop where
  clock : 1 ≤ log.clock
  past : ∀ e ∈ log.ends, e.height ≤ log.clock
  noted : ∀ e ∈ log.ends, e.byDealer = false →
    c.poker.getLastHandEndedHeight tid ≠ 0 ∧
      e.height ≤ c.poker.getLastHandEndedHeight tid

theorem EndsNoted.step {log : EndLog} (hnoted : EndsNoted tid c log)
    (hrise : HeightsRise (c, log) msg) (hok : handle c msg = .ok c')
    (hchange : ChainChange c c' msg tid m) :
    EndsNoted tid c' (recordEnd tid c msg log) := by
  obtain ⟨hclock, hpast, hcovers⟩ := hnoted
  have hlater : log.clock ≤ msg.height.getD log.clock := by
    cases hheight : msg.height with
    | none => exact le_refl _
    | some height => exact hrise height hheight
  have hends : ∀ e ∈ (recordEnd tid c msg log).ends, e ∈ log.ends ∨
      (handEnds c c' tid = true ∧ e = ⟨msg.height.getD log.clock, msg.dealsHand⟩) := by
    intro e he
    simp only [recordEnd, deliver_of_ok hok] at he
    split at he
    · rename_i hover
      rcases List.mem_cons.mp he with rfl | he
      · exact Or.inr ⟨hover, rfl⟩
      · exact Or.inl he
    · exact Or.inl he
  refine ⟨le_trans hclock hlater, ?_, ?_⟩
  · intro e he
    rcases hends e he with hold | ⟨_, rfl⟩
    · exact le_trans (hpast e hold) hlater
    · exact le_refl _
  · intro e he hplayers
    rcases hchange.ends with ⟨_, _, hheight⟩ | ⟨hdealer, hsame⟩
    · rw [hheight, Option.getD_some] at hlater
      refine ⟨by omega, ?_⟩
      rcases hends e he with hold | ⟨_, rfl⟩
      · exact le_trans (hpast e hold) hlater
      · rw [hheight]
        exact le_refl _
    · rcases hends e he with hold | ⟨hover, rfl⟩
      · rw [hsame]
        exact hcovers e hold hplayers
      · rw [hdealer hover] at hplayers
        cases hplayers

theorem reachable_endsNoted (hrise : StepsMeet (withHistory handle (recordEnd tid)) HeightsRise
      (Chain.genesis env balances staking params, ⟨1, []⟩) messages) :
    EndsNoted tid (endRun env tid balances staking params messages).1
      (endRun env tid balances staking params messages).2 := by
  have hinv := run_invariant_of_steps (fun s : Chain env × EndLog =>
      Reachable s.1 ∧ EndsNoted tid s.1 s.2) hrise
    ⟨reachable_run balances staking params [], le_refl _, by simp, by simp⟩ ?_
  · exact hinv.2
  · rintro ⟨c, log⟩ msg ⟨c', log'⟩ hrise ⟨hreach, hnoted⟩ hok
    obtain ⟨hhandle, rfl⟩ := withHistory_ok hok
    obtain ⟨m, hchange⟩ := handle_chainChange (reachable_dealerSound hreach)
      (reachable_linked hreach) hhandle tid
    exact ⟨hreach.step hhandle, hnoted.step hrise hhandle hchange⟩

/-- A hand that is started keeps its distance from all hands of its table before it
exactly if no message of the dealers has ended one of them less than the cooldown ago. -/
theorem cooldown_iff (env : Env) (tid : Nat) (balances : env.poker.bank.Balances)
    (staking : env.staking.Staking) (params : Params) (messages : List (Msg env))
    (hrise : StepsMeet (withHistory handle (recordEnd tid)) HeightsRise
      (Chain.genesis env balances staking params, ⟨1, []⟩) messages)
    {block : Block} {caller : String} {c' : Chain env}
    (hok : handle (endRun env tid balances staking params messages).1
      (.player (.startHand block ⟨caller, tid⟩)) = .ok c') :
    (∀ e ∈ (endRun env tid balances staking params messages).2.ends,
      e.height + Poker.interHandCooldownBlocks ≤ block.height) ↔
    ¬ ∃ e ∈ (endRun env tid balances staking params messages).2.ends,
      e.byDealer = true ∧ block.height < e.height + Poker.interHandCooldownBlocks := by
  constructor
  · rintro hall ⟨e, he, -, hrecent⟩
    exact absurd (hall e he) (not_le.mpr hrecent)
  · intro hnone e he
    cases hby : e.byDealer with
    | true => exact not_lt.mp fun hrecent => hnone ⟨e, he, hby, hrecent⟩
    | false =>
      obtain ⟨hset, hcovers⟩ := (reachable_endsNoted hrise).noted e he hby
      simp only [handle, ok_iff, PlayerMsg.toPoker, Poker.handle, Poker.startHand,
        not_and, not_lt] at hok
      obtain ⟨_, ⟨_, _, _, _, _, _, _, _, _, hwaited, _⟩, _⟩ := hok
      exact le_trans (Int.add_le_add_right hcovers _) (hwaited hset)

theorem foldedRun_cooldown :
    (endRun residueEnv 1 (0 : Nat) () residueParams foldedRun).2.ends = [⟨10, false⟩] ∧
      (∃ c', handle (endRun residueEnv 1 (0 : Nat) () residueParams foldedRun).1
        (startHandAt laterBlock) = .ok c') ∧
      ∀ e ∈ (endRun residueEnv 1 (0 : Nat) () residueParams foldedRun).2.ends,
        e.height + Poker.interHandCooldownBlocks ≤ laterBlock.height := by
  have hfacts : StepsMeet (withHistory handle (recordEnd 1)) HeightsRise
        (residueGenesis, ⟨1, []⟩) foldedRun ∧
      (handle (endRun residueEnv 1 (0 : Nat) () residueParams foldedRun).1
        (startHandAt laterBlock)).isOk ∧
      (endRun residueEnv 1 (0 : Nat) () residueParams foldedRun).2.ends =
        [⟨10, false⟩] := by
    decide +kernel
  obtain ⟨hrise, haccepted, hends⟩ := hfacts
  obtain ⟨c', hok⟩ := isOk_iff.mp haccepted
  refine ⟨hends, ⟨c', hok⟩, ?_⟩
  apply (cooldown_iff residueEnv 1 (0 : Nat) () residueParams foldedRun hrise hok).mpr
  rw [hends]
  decide

/-- After the abort the next hand starts in the same block. -/
theorem abortedRun_no_cooldown :
    StepsMeet (withHistory handle (recordEnd 1)) HeightsRise
      (residueGenesis, ⟨1, []⟩) abortedRun ∧
    (handle (endRun residueEnv 1 (0 : Nat) () residueParams abortedRun).1
      (startHandAt (blockAt 500))).isOk ∧
    ∃ e ∈ (endRun residueEnv 1 (0 : Nat) () residueParams abortedRun).2.ends,
      (blockAt 500).height < e.height + Poker.interHandCooldownBlocks := by
  decide +kernel

/-! ## Bonds -/

instance (t : Table) : Decidable (BondsPaid t) :=
  inferInstanceAs (Decidable (t.params.playerBond ≠ 0 →
    ∀ i, (t.seats i).player = "" ∨ (t.seats i).bond ≠ 0))

/-- If the step is one of the dealers and ends the hand, nobody at the table had lost the bond
before it. -/
def SparesBondless (tid : Nat) (c : Chain env) (msg : Msg env) : Prop :=
  msg.dealsHand = true → handEnds c (deliver handle c msg) tid = true →
    ∀ t ∈ c.poker.getTable tid, BondsPaid t

instance (tid : Nat) (c : Chain env) (msg : Msg env) :
    Decidable (SparesBondless tid c msg) :=
  inferInstanceAs (Decidable (msg.dealsHand = true →
    handEnds c (deliver handle c msg) tid = true →
      ∀ t ∈ c.poker.getTable tid, BondsPaid t))

def PaidBetween (tid : Nat) (c : Chain env) : Prop :=
  ∀ t, c.poker.getTable tid = some t → t.hand = none → BondsPaid t

theorem ChainChange.paidBetween (hchange : ChainChange c c' msg tid m) (hok : handle c msg = .ok c')
    (hspares : SparesBondless tid c msg) (hpaid : PaidBetween tid c) : PaidBetween tid c' := by
  intro t' ht' hnone
  cases hchange.change with
  | same hget _ => exact hpaid t' (hget ▸ ht') hnone
  | created new _ hget _ hnew _ =>
    cases ht'.symm.trans hget
    exact hnew
  | @changed t new hget hget' _ houtcome =>
    cases ht'.symm.trans hget'
    cases houtcome with
    | goesOn hopen _ => exact absurd hnone hopen
    | foldedOut _ _ _ _ hejected _ => exact hejected
    | idle hidle _ hkeeps _ => exact hkeeps (hpaid t hget hidle)
    | settled hsettles hopen _ hkeeps _ =>
      apply hkeeps
      apply hspares (hchange.settles hsettles) _ t hget
      rw [deliver_of_ok hok]
      simp [handEnds, hget, hget', hnone, Option.isSome_iff_ne_none, hopen]

theorem reachable_paidBetween (hspares : StepsMeet handle (SparesBondless tid)
      (Chain.genesis env balances staking params) messages) :
    PaidBetween tid (run handle (Chain.genesis env balances staking params) messages) := by
  apply (reachable_run balances staking params []).run_invariant_of_steps (PaidBetween tid) hspares
  · intro t hget
    simp [run, Chain.genesis, Poker.State.genesis, Poker.State.getTable] at hget
  · intro c msg c' hreach hspares hpaid hok
    obtain ⟨m, hchange⟩ := handle_chainChange (reachable_dealerSound hreach)
      (reachable_linked hreach) hok tid
    exact hchange.paidBetween hok hspares hpaid

/-- In every run in which the dealers end no hand of a table while somebody there
has lost the bond, a hand that is started deals in nobody without one. -/
theorem no_bondless_dealt_in (env : Env) (tid : Nat)
    (balances : env.poker.bank.Balances) (staking : env.staking.Staking)
    (params : Params) (messages : List (Msg env))
    (hspares : StepsMeet handle (SparesBondless tid)
      (Chain.genesis env balances staking params) messages)
    {block : Block} {caller : String} {c' : Chain env}
    (hok : handle (run handle (Chain.genesis env balances staking params) messages)
      (.player (.startHand block ⟨caller, tid⟩)) = .ok c')
    {t' : Table} {h : Hand} (ht' : c'.poker.getTable tid = some t')
    (hh : t'.hand = some h) (hasks : 0 < t'.params.playerBond) :
    ∀ i, h.inHand i = true → 0 < (t'.seats i).bond := by
  have hpaid := reachable_paidBetween hspares
  have hreach := reachable_run balances staking params messages
  have hids := (reachable_linked hreach).solvent.1
  simp only [handle, ok_iff, PlayerMsg.toPoker, Poker.handle, Poker.startHand] at hok
  obtain ⟨_, ⟨_, _, t, hload, _, _, _, hidle, _, _, t₁, hstart, rfl⟩, rfl⟩ := hok
  have hget := Poker.loadTable_ok hload
  obtain ⟨opened, hopened, _⟩ := Poker.startHandOn_opening hstart
  obtain ⟨hid, hparams, howners, hdealt⟩ := Poker.startHandOn_dealt hstart hopened
  have hstored := getTable_setTable hids hget hid tid
  rw [if_pos rfl] at hstored
  cases ht'.symm.trans hstored
  cases hh.symm.trans hopened
  intro i hin
  have hplayer : (t.seats i).player ≠ "" := by
    intro hvacant
    have hempty := Poker.getTable_vacant hget i hvacant
    have hchips := hdealt i hin
    omega
  have hasks : t.params.playerBond ≠ 0 := by
    rw [← hparams]
    exact Nat.ne_of_gt hasks
  have hbonded := hpaid t hget (by simpa using hidle) hasks i
  have hbond := hbonded.resolve_left hplayer
  rw [← howners.bond i] at hbond
  rw [← howners.player i] at hplayer
  simpa [Poker.normalizeTable, Poker.normalizeSeat, hplayer] using
    Nat.pos_of_ne_zero hbond

theorem foldedRun_bonds :
    ∃ c' t' h, handle (run handle residueGenesis foldedRun)
        (startHandAt laterBlock) = .ok c' ∧
      c'.poker.getTable 1 = some t' ∧ t'.hand = some h ∧ h.inHand 1 = true ∧
      0 < (t'.seats 1).bond := by
  have hfacts : StepsMeet handle (SparesBondless 1) residueGenesis foldedRun ∧
      (handle (run handle residueGenesis foldedRun) (startHandAt laterBlock)).isOk ∧
      ∃ t' ∈ (deliver handle (run handle residueGenesis foldedRun)
        (startHandAt laterBlock)).poker.getTable 1, 0 < t'.params.playerBond ∧
        ∃ h ∈ t'.hand, h.inHand 1 = true := by
    decide +kernel
  obtain ⟨hspares, haccepted, hdealt⟩ := hfacts
  obtain ⟨c', hok⟩ := isOk_iff.mp haccepted
  rw [deliver_of_ok hok] at hdealt
  obtain ⟨t', ht', hasks, h, hh, hin⟩ := hdealt
  exact ⟨c', t', h, hok, ht', hh, hin, no_bondless_dealt_in residueEnv 1 (0 : Nat) ()
    residueParams foldedRun hspares hok ht' hh hasks 1 hin⟩

/-- After the abort the second player is dealt in without a bond. -/
theorem abortedRun_deals_bondless :
    (handle (run handle residueGenesis abortedRun) (startHandAt (blockAt 500))).isOk ∧
    ∃ t' ∈ (deliver handle (run handle residueGenesis abortedRun)
      (startHandAt (blockAt 500))).poker.getTable 1, 0 < t'.params.playerBond ∧
      ∃ h ∈ t'.hand, h.inHand 1 = true ∧ (t'.seats 1).bond = 0 := by
  decide +kernel

/-! ## The dealer's records -/

def Chain.activeHandId (c : Chain env) (tid : Nat) : Option Nat :=
  ((c.poker.getTable tid).bind (·.hand)).map (·.handId)

def RecordsActive (c : Chain env) : Prop :=
  ∀ tid hid dh, c.dealer.getHand tid hid = some dh → c.activeHandId tid = some hid

/-- A step that is not of the dealers ends no hand of which the dealer has a record. -/
def SparesRecords (c : Chain env) (msg : Msg env) : Prop :=
  msg.dealsHand = false → ∀ key ∈ c.dealer.hands.keys,
    c.activeHandId key.1 = some key.2 → handEnds c (deliver handle c msg) key.1 = false

section Records

variable {c c' : Chain env} {tableID handID : Nat}

theorem activeHandId_eq {t : Table} {h : Hand} (ht : c.poker.getTable tid = some t)
    (hh : t.hand = some h) :
    c.activeHandId tid = some h.handId := by
  simp [Chain.activeHandId, ht, hh]

theorem RecordsActive.penalised (hactive : RecordsActive c)
    (hpenalty : Penalised c c') : RecordsActive c' := by
  cases hpenalty with
  | none | some _ _ => exact hactive

theorem Wrote.recordsActive {t t₁ : Table} {h : Hand} {record : Option DealerHand}
    (hwrote : Wrote c msg tableID c' t t₁ h record) (hactive : RecordsActive c) :
    RecordsActive c' := by
  intro tid hid dh hget
  rw [hwrote.hands] at hget
  split at hget
  · rename_i hkey
    obtain ⟨rfl, rfl⟩ := hkey
    obtain ⟨h₁, hid, hat, -⟩ := hwrote.active hget
    rw [activeHandId_eq hat.table hat.hand, hid]
  · rename_i hother
    have hold := hactive tid hid dh hget
    have htid : tid ≠ tableID := by
      rintro rfl
      rw [activeHandId_eq hwrote.table hwrote.hand] at hold
      cases hold
      exact hother ⟨rfl, rfl⟩
    rw [Chain.activeHandId, (hwrote.elsewhere htid).1]
    exact hold

theorem activeHandId_later (hlater : Poker.Later Poker.TableLater c.poker c'.poker)
    {tid hid : Nat} (hactive : c.activeHandId tid = some hid)
    (hgoes : handEnds c c' tid = false) : c'.activeHandId tid = some hid := by
  simp only [Chain.activeHandId, Option.map_eq_some_iff, Option.bind_eq_some_iff] at hactive
  obtain ⟨h, ⟨t, ht, hh⟩, rfl⟩ := hactive
  obtain ⟨t', ht', hlate⟩ := hlater.kept tid t ht
  cases hh' : t'.hand with
  | none => simp [handEnds, ht, hh, ht', hh'] at hgoes
  | some h' =>
    rw [activeHandId_eq ht' hh']
    rcases hlate.hand h' hh' with ⟨h₀, hh₀, hfollows⟩ | ⟨hnone, _⟩
    · cases hh.symm.trans hh₀
      exact congrArg some hfollows.deck.handId
    · rw [hh] at hnone
      cases hnone

theorem handle_others (hsound : DealerSound c.dealer) (hlinked : Linked c)
    (hok : handle c msg = .ok c') (hother : msg.dealsHand = false) :
    c'.dealer.hands = c.dealer.hands ∧ Poker.Later Poker.TableLater c.poker c'.poker := by
  have hstays : Poker.Later Poker.TableLater c.poker c.poker :=
    ⟨fun tid t ht => ⟨t, ht, .of_hand_eq (Nat.le_refl _) rfl⟩, fun tid t ht => .inl ⟨t, ht⟩⟩
  cases handle_step hok with
  | player m _ hpoker => exact ⟨rfl, (poker_later hlinked.solvent (toPoker_player m) hpoker).2⟩
  | dkg block m _ hdealer => exact ⟨(dkg_effect hsound hdealer).hands_eq, hstays⟩
  | otherStaking staking => exact ⟨rfl, hstays⟩
  | hand block m _ => cases hother

theorem handle_recordsActive_iff (hsound : DealerSound c.dealer) (hlinked : Linked c)
    (hactive : RecordsActive c) (hok : handle c msg = .ok c') :
    RecordsActive c' ↔ SparesRecords c msg := by
  have hafter := deliver_of_ok hok
  cases hdeals : msg.dealsHand with
  | true =>
    have hspares : SparesRecords c msg := by
      intro hother
      rw [hdeals] at hother
      cases hother
    refine ⟨fun _ => hspares, fun _ => ?_⟩
    cases msg with
    | hand block m =>
      obtain ⟨c₁, hpenalty, hact⟩ := handleHand_effect hok
      obtain ⟨_, _, _, _, hwrote⟩ := hact.wrote (hlinked.penalised hpenalty).solvent.1
      exact hwrote.recordsActive (hactive.penalised hpenalty)
    | player m | dkg block m | otherStaking staking => cases hdeals
  | false =>
    obtain ⟨hhands, hlater⟩ := handle_others hsound hlinked hok hdeals
    constructor
    · rintro hactive' - ⟨tid, hid⟩ hkey hat
      rw [hafter]
      -- a record of a hand that is over would still be there
      obtain ⟨dh, hget⟩ : ∃ dh, c'.dealer.getHand tid hid = some dh := by
        rw [State.getHand, hhands, ← Option.isSome_iff_exists, AList.lookup_isSome]
        exact hkey
      have hstill := hactive' tid hid dh hget
      rw [handEnds, Bool.and_eq_false_iff]
      right
      simp only [Chain.activeHandId, Option.map_eq_some_iff] at hstill
      obtain ⟨h', hh', _⟩ := hstill
      rw [hh']
      rfl
    · intro hspares tid hid dh hget
      rw [State.getHand, hhands] at hget
      have hat := hactive tid hid dh hget
      have hkey : (tid, hid) ∈ c.dealer.hands.keys := AList.lookup_isSome.mp (by rw [hget]; rfl)
      have hgoes := hspares hdeals (tid, hid) hkey hat
      rw [hafter] at hgoes
      exact activeHandId_later hlater hat hgoes

theorem RecordsActive.card_le (hactive : RecordsActive c) :
    c.dealer.hands.keys.length ≤ c.poker.tables.keys.length := by
  have hstored : ∀ key ∈ c.dealer.hands.keys, c.activeHandId key.1 = some key.2 := by
    rintro ⟨tid, hid⟩ hkey
    obtain ⟨dh, hget⟩ := Option.isSome_iff_exists.mp (AList.lookup_isSome.mpr hkey)
    exact hactive tid hid dh hget
  have hnodup : (c.dealer.hands.keys.map Prod.fst).Nodup := by
    apply List.Nodup.map_on _ c.dealer.hands.nodupKeys
    intro key hkey other hother hsame
    have hfirst := hstored key hkey
    rw [hsame, hstored other hother] at hfirst
    exact Prod.ext hsame (Option.some.inj hfirst).symm
  have hsub : c.dealer.hands.keys.map Prod.fst ⊆ c.poker.tables.keys := by
    intro tid htid
    obtain ⟨key, hkey, rfl⟩ := List.mem_map.mp htid
    have hactiveKey := hstored key hkey
    apply AList.lookup_isSome.mp
    cases hlookup : c.poker.tables.lookup key.1 with
    | some t => rfl
    | none => simp [Chain.activeHandId, Poker.State.getTable, hlookup] at hactiveKey
  have hle := (hnodup.subperm hsub).length_le
  rwa [List.length_map] at hle

end Records

/-- The dealer's records are those of active hands all along a run, and never more
than there are tables, exactly if the players end no hand that has a record. -/
theorem records_active_iff (env : Env) (balances : env.poker.bank.Balances)
    (staking : env.staking.Staking) (params : Params) (messages : List (Msg env)) :
    (∀ k, RecordsActive (run handle (Chain.genesis env balances staking params)
        (messages.take k)) ∧
      (run handle (Chain.genesis env balances staking params)
        (messages.take k)).dealer.hands.keys.length ≤
      (run handle (Chain.genesis env balances staking params)
        (messages.take k)).poker.tables.keys.length) ↔
    AcceptedMeet handle SparesRecords (Chain.genesis env balances staking params)
      messages := by
  have hstart : RecordsActive (Chain.genesis env balances staking params) := by
    intro tid hid dh hget
    simp [Chain.genesis, State.genesis, State.getHand] at hget
  have hiff : (∀ k, RecordsActive (run handle
      (Chain.genesis env balances staking params) (messages.take k))) ↔
      AcceptedMeet handle SparesRecords (Chain.genesis env balances staking params)
        messages :=
    forall_take_iff (fun log c msg c' hreach hactive hok =>
      have hreach := reachable_of_reaches hreach
      handle_recordsActive_iff (reachable_dealerSound hreach) (reachable_linked hreach)
        hactive hok) hstart messages
  rw [← hiff]
  constructor
  · exact fun hall k => (hall k).1
  · exact fun hall k => ⟨hall k, (hall k).card_le⟩

def secondHandRun : List (Msg residueEnv) :=
  foldedRun ++ [startHandAt laterBlock,
    .hand laterBlock (.initHand (List.replicate 32 0) ⟨"gm", 1, 2, 1, 10⟩)]

theorem foldedRun_leaves_record :
    ((run handle residueGenesis foldedRun).dealer.getHand 1 1).isSome ∧
      (run handle residueGenesis foldedRun).activeHandId 1 = none ∧
      (run handle residueGenesis secondHandRun).dealer.hands.keys.length = 2 ∧
      (run handle residueGenesis secondHandRun).poker.tables.keys.length = 1 := by
  decide +kernel

end OnChainPoker.Dealer
