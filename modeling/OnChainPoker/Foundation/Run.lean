import Mathlib.Data.List.Basic

/-!
# Message-driven transition systems

A handler maps a state and a message to a new state or to an error.  A message
that returns an error leaves the state unchanged.  `Reaches` follows the
accepted messages only, newest first, so that invariants and statements about
what was accepted so far are proved by one induction.
-/

namespace OnChainPoker.Foundation

variable {State Message Error : Type*} {s : State} {m : Message} {log messages : List Message}

def deliver (handle : State → Message → Except Error State)
    (s : State) (m : Message) : State :=
  match handle s m with
  | .ok s' => s'
  | .error _ => s

def run (handle : State → Message → Except Error State) : State → List Message → State
  | s, [] => s
  | s, m :: rest => run handle (deliver handle s m) rest

def acceptedFrom (handle : State → Message → Except Error State) :
    State → List Message → List Message → List Message
  | _, log, [] => log
  | s, log, m :: rest =>
    match handle s m with
    | .ok s' => acceptedFrom handle s' (m :: log) rest
    | .error _ => acceptedFrom handle s log rest

def accepted (handle : State → Message → Except Error State)
    (start : State) (messages : List Message) : List Message :=
  acceptedFrom handle start [] messages

/-- `Reaches handle start log s`: accepting the messages of `log`, the newest
at its head, leads from `start` to `s`. -/
inductive Reaches (handle : State → Message → Except Error State)
    (start : State) : List Message → State → Prop
  | refl : Reaches handle start [] start
  | step {log : List Message} {s s' : State} {m : Message} :
      Reaches handle start log s → handle s m = .ok s' →
      Reaches handle start (m :: log) s'

def Reachable (handle : State → Message → Except Error State)
    (initial : State → Prop) (s : State) : Prop :=
  ∃ start log, initial start ∧ Reaches handle start log s

def AcceptedAt (handle : State → Message → Except Error State) (start : State)
    (log : List Message) (s : State) (m : Message) : Prop :=
  ∃ newer older, log = newer ++ m :: older ∧ Reaches handle start older s ∧
    (handle s m).isOk = true

/-- Every message of the run, in the state it arrives in, is allowed. -/
def StepsMeet (handle : State → Message → Except Error State)
    (allowed : State → Message → Prop) : State → List Message → Prop
  | _, [] => True
  | s, m :: rest => allowed s m ∧ StepsMeet handle allowed (deliver handle s m) rest

instance StepsMeet.decidable {handle : State → Message → Except Error State}
    {allowed : State → Message → Prop} [∀ s m, Decidable (allowed s m)] :
    ∀ s messages, Decidable (StepsMeet handle allowed s messages)
  | _, [] => isTrue trivial
  | s, m :: rest =>
    have : Decidable (StepsMeet handle allowed (deliver handle s m)
        rest) := StepsMeet.decidable _ rest
    inferInstanceAs (Decidable (allowed s m ∧ StepsMeet handle allowed _ rest))

/-- Every accepted message of the run, in the state it arrives in, is allowed. -/
def AcceptedMeet (handle : State → Message → Except Error State)
    (allowed : State → Message → Prop) (start : State) (messages : List Message) :
    Prop :=
  StepsMeet handle (fun s m => (handle s m).isOk = true → allowed s m) start messages

/-- The system with a history variable, which accepted messages update and
which the handler never reads. -/
def withHistory {History : Type*}
    (handle : State → Message → Except Error State)
    (record : State → Message → History → History)
    (s : State × History) (m : Message) : Except Error (State × History) :=
  (handle s.1 m).map fun next => (next, record s.1 m s.2)

section

variable {handle : State → Message → Except Error State} {start : State}

variable {s' : State} {Inv : State → Prop} {allowed : State → Message → Prop}
  {History : Type*} {record : State → Message → History → History}

theorem deliver_of_ok (hok : handle s m = .ok s') : deliver handle s m = s' := by rw [deliver, hok]

theorem Reaches.run (h : Reaches handle start log s) (messages : List Message) :
    Reaches handle start (acceptedFrom handle s log messages)
      (Foundation.run handle s messages) := by
  induction messages generalizing s log with
  | nil => exact h
  | cons m rest ih =>
    simp only [acceptedFrom, Foundation.run, deliver]
    cases hm : handle s m with
    | error e => exact ih h
    | ok s' => exact ih (h.step hm)

theorem reaches_run (messages : List Message) :
    Reaches handle start (accepted handle start messages) (run handle start messages) :=
  Reaches.refl.run messages

theorem run_append (s : State) (first second : List Message) :
    run handle s (first ++ second) = run handle (run handle s first) second := by
  induction first generalizing s with
  | nil => rfl
  | cons m rest ih => exact ih (deliver handle s m)

theorem Reaches.eq_run (h : Reaches handle start log s) :
    Foundation.run handle start log.reverse = s := by
  induction h with
  | refl => rfl
  | step _ hok ih =>
    rw [List.reverse_cons, run_append, ih]
    exact deliver_of_ok hok

theorem AcceptedAt.newest (h : Reaches handle start log s) (hok : handle s m = .ok s') :
    AcceptedAt handle start (m :: log) s m :=
  ⟨[], log, rfl, h, by rw [hok]; rfl⟩

theorem AcceptedAt.newer (h : AcceptedAt handle start log s m) (m' : Message) :
    AcceptedAt handle start (m' :: log) s m := by
  obtain ⟨newer, older, rfl, hreach, hok⟩ := h
  exact ⟨m' :: newer, older, rfl, hreach, hok⟩

theorem Reaches.invariant (hstart : Inv start)
    (hstep : ∀ s m s', Inv s → handle s m = .ok s' → Inv s') (h : Reaches handle start log s) :
    Inv s := by
  induction h with
  | refl => exact hstart
  | step _ hm ih => exact hstep _ _ _ ih hm

theorem run_invariant (hstart : Inv start)
    (hstep : ∀ s m s', Inv s → handle s m = .ok s' → Inv s') (messages : List Message) :
    Inv (run handle start messages) :=
  (reaches_run messages).invariant hstart hstep

theorem run_invariant_of_steps (Inv : State → Prop)
    (hmeet : StepsMeet handle allowed start messages) (hstart : Inv start)
    (hstep : ∀ s m s', allowed s m → Inv s → handle s m = .ok s' → Inv s') :
    Inv (run handle start messages) := by
  induction messages generalizing start with
  | nil => exact hstart
  | cons m rest ih =>
    obtain ⟨hallowed, hrest⟩ := hmeet
    refine ih hrest ?_
    unfold deliver
    cases hm : handle start m with
    | error e => exact hstart
    | ok s' => exact hstep start m s' hallowed hstart hm

section Reachable

variable {initial : State → Prop}

theorem Reachable.step {s s' : State} (h : Reachable handle initial s)
    (hok : handle s m = .ok s') : Reachable handle initial s' := by
  obtain ⟨start, log, hstart, hreach⟩ := h
  exact ⟨start, m :: log, hstart, hreach.step hok⟩

theorem Reachable.run (h : Reachable handle initial s) (messages : List Message) :
    Reachable handle initial (Foundation.run handle s messages) := by
  obtain ⟨start, log, hstart, hreach⟩ := h
  exact ⟨start, _, hstart, hreach.run messages⟩

theorem Reachable.invariant {Inv : State → Prop} (hstart : ∀ s, initial s → Inv s)
    (hstep : ∀ s m s', Reachable handle initial s → Inv s → handle s m = .ok s' → Inv s')
    (h : Reachable handle initial s) : Inv s := by
  obtain ⟨start, log, hinitial, hreach⟩ := h
  induction hreach with
  | refl => exact hstart start hinitial
  | step hprev hok ih => exact hstep _ _ _ ⟨start, _, hinitial, hprev⟩ ih hok

theorem Reachable.run_invariant_of_steps (Inv : State → Prop)
    {allowed : State → Message → Prop} (h : Reachable handle initial s)
    (hmeet : StepsMeet handle allowed s messages) (hs : Inv s)
    (hstep : ∀ s m s', Reachable handle initial s → allowed s m → Inv s →
      handle s m = .ok s' → Inv s') :
    Inv (Foundation.run handle s messages) := by
  have hall := Foundation.run_invariant_of_steps
    (fun s => Reachable handle initial s ∧ Inv s) hmeet ⟨h, hs⟩ ?_
  · exact hall.2
  · rintro s m s' hallowed ⟨hreach, hinv⟩ hok
    exact ⟨hreach.step hok, hstep s m s' hreach hallowed hinv hok⟩

end Reachable

theorem withHistory_ok {s s' : State × History} (hok : withHistory handle record s m = .ok s') :
    handle s.1 m = .ok s'.1 ∧ s'.2 = record s.1 m s.2 := by
  unfold withHistory at hok
  cases hm : handle s.1 m with
  | error e => rw [hm] at hok; cases hok
  | ok next => rw [hm] at hok; cases hok; exact ⟨rfl, rfl⟩

theorem run_withHistory (history : History) (messages : List Message) :
    (run (withHistory handle record) (start, history) messages).1 = run handle start messages := by
  induction messages generalizing start history with
  | nil => rfl
  | cons m rest ih =>
    simp only [run, deliver, withHistory]
    cases hm : handle start m with
    | error e => exact ih history
    | ok next => exact ih _

theorem StepsMeet.withHistory (hmeet : StepsMeet handle allowed start messages)
    (record : State → Message → History → History) (history : History) :
    StepsMeet (withHistory handle record) (fun s m => allowed s.1 m) (start, history) messages := by
  induction messages generalizing start history with
  | nil => trivial
  | cons m rest ih =>
    constructor
    · exact hmeet.1
    · have hrest := hmeet.2
      simp only [deliver, Foundation.withHistory] at hrest ⊢
      cases hm : handle start m with
      | error e =>
        rw [hm] at hrest
        exact ih hrest history
      | ok next =>
        rw [hm] at hrest
        exact ih hrest _

theorem stepsMeet_of_mem (hall : ∀ m ∈ messages, ∀ s, allowed s m) :
    StepsMeet handle allowed start messages := by
  induction messages generalizing start with
  | nil => trivial
  | cons m rest ih => exact ⟨hall m (by simp) _, ih fun m' hm' => hall m' (by simp [hm'])⟩

theorem StepsMeet.mono {allowed' : State → Message → Prop}
    (hmeet : StepsMeet handle allowed start messages)
    (hmono : ∀ m ∈ messages, ∀ s, allowed s m → allowed' s m) :
    StepsMeet handle allowed' start messages := by
  induction messages generalizing start with
  | nil => trivial
  | cons m rest ih =>
    constructor
    · exact hmono m (by simp) start hmeet.1
    · exact ih hmeet.2 fun m' hm' => hmono m' (by simp [hm'])

theorem stepsMeet_of_forall (hall : ∀ s m, allowed s m) (messages : List Message) :
    StepsMeet handle allowed start messages :=
  stepsMeet_of_mem fun m _ s => hall s m

theorem StepsMeet.append {messages later : List Message}
    (hfirst : StepsMeet handle allowed start messages)
    (hlater : StepsMeet handle allowed (run handle start messages) later) :
    StepsMeet handle allowed start (messages ++ later) := by
  induction messages generalizing start with
  | nil => exact hlater
  | cons m rest ih => exact ⟨hfirst.1, ih hfirst.2 hlater⟩

theorem StepsMeet.take (hmeet : StepsMeet handle allowed start messages) (k : Nat) :
    StepsMeet handle allowed start (messages.take k) := by
  induction messages generalizing start k with
  | nil => simpa using hmeet
  | cons m rest ih =>
    cases k with
    | zero => trivial
    | succ k => exact ⟨hmeet.1, ih hmeet.2 k⟩

/-- Where the allowed messages are exactly those that keep a property, it holds all
along a run exactly when the accepted messages of the run are allowed. -/
theorem forall_take_iff_of_steps (Inv : State → Prop) {P : State → Prop}
    {guard : State → Message → Prop} (hstep : ∀ s m s', guard s m → Inv s → handle s m = .ok s' →
      Inv s' ∧ (P s → (P s' ↔ allowed s m)))
    (hmeet : StepsMeet handle guard start messages) (hinv : Inv start) (hstart : P start) :
    (∀ k, P (run handle start (messages.take k))) ↔ AcceptedMeet handle allowed start messages := by
  induction messages generalizing start with
  | nil => simpa [AcceptedMeet, StepsMeet, run] using hstart
  | cons m rest ih =>
    have hsplit : (∀ k, P (run handle start ((m :: rest).take k))) ↔
        ∀ k, P (run handle (deliver handle start m) (rest.take k)) := by
      constructor
      · exact fun hall k => hall (k + 1)
      · rintro hall (- | k)
        · exact hstart
        · exact hall k
    rw [hsplit]
    obtain ⟨hguard, hrest⟩ := hmeet
    simp only [AcceptedMeet, StepsMeet]
    cases hm : handle start m with
    | error e =>
      have hsame : deliver handle start m = start := by rw [deliver, hm]
      rw [hsame] at hrest ⊢
      rw [ih hrest hinv hstart]
      simp [Except.isOk, Except.toBool, AcceptedMeet]
    | ok s' =>
      rw [deliver_of_ok hm] at hrest ⊢
      obtain ⟨hinv', hiff⟩ := hstep start m s' hguard hinv hm
      constructor
      · intro hall
        exact ⟨fun _ => (hiff hstart).mp (hall 0), (ih hrest hinv' (hall 0)).mp hall⟩
      · rintro ⟨hallowed, hmet⟩
        exact (ih hrest hinv' ((hiff hstart).mpr (hallowed rfl))).mpr hmet

theorem forall_take_iff {P : State → Prop}
    (hstep : ∀ log s m s', Reaches handle start log s → P s → handle s m = .ok s' →
      (P s' ↔ allowed s m)) (hstart : P start) (messages : List Message) :
    (∀ k, P (run handle start (messages.take k))) ↔ AcceptedMeet handle allowed start messages := by
  have hmeet : StepsMeet handle (fun _ _ => True) start messages :=
    stepsMeet_of_forall (fun _ _ => trivial) messages
  refine forall_take_iff_of_steps (fun s => ∃ log, Reaches handle start log s) ?_ hmeet
    ⟨[], .refl⟩ hstart
  rintro s m s' - ⟨log, hreach⟩ hok
  exact ⟨⟨m :: log, hreach.step hok⟩, fun hs => hstep log s m s' hreach hs hok⟩

end

end OnChainPoker.Foundation
