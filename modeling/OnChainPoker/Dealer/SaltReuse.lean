import OnChainPoker.Dealer.BeaconDaemon

/-!
# Salts that are used twice

The daemons of some validators take part in the beacon while everything else on the chain
is arbitrary.  A daemon queues its commit and its reveal for the epoch it has fetched;
each is put into some later block, or rejected and dropped.  The salt is a function of the
epoch, so when a second window opens for an epoch the daemons commit to salts that they
may already have revealed.
-/

namespace OnChainPoker.Dealer

open Foundation Crypto
open Poker (Block maxUint64)
open BeaconDaemon

/-! ## The network -/

structure Daemons where
  config : String → Option BeaconConfig
  own : ∀ v cfg, config v = some cfg → cfg.validatorAddress = v

structure BeaconNetwork {env : Env} (rand : Randomness env) where
  chain : Chain (env.withBeacon rand)
  outbox : String → List BeaconMsg

/-- A daemon polls, its next message is put into a block, or the chain receives a message
that no daemon sends. -/
inductive BeaconEvent (env : Env) where
  | poll (v : String)
  | submit (v : String) (block : Block)
  | other (msg : FullMsg env)

def Daemons.sends {env : Env} (daemons : Daemons) : FullMsg env → Bool
  | .beacon _ (.beaconCommit req) => (daemons.config req.validator).isSome
  | .beacon _ (.beaconReveal req) => (daemons.config req.validator).isSome
  | _ => false

section Network

variable {env : Env} {rand : Randomness env} (hmac : Hmac) (daemons : Daemons)

def BeaconNetwork.handle (n : BeaconNetwork rand) :
    BeaconEvent env → Except Err (BeaconNetwork rand)
  | .poll v => do
      let config ← require (daemons.config v) (plain "no daemon")
      rejectIf ((n.outbox v).isEmpty = false) (plain "still sending")
      let (commit, reveal) ← (maybeBeaconParticipate rand.sha256 hmac config
        n.chain.dealer.epoch).mapError plain
      let queued : List BeaconMsg := [.beaconCommit commit, .beaconReveal reveal]
      pure { n with outbox := Function.update n.outbox v queued }
  | .submit v block =>
    match n.outbox v with
    | [] => .error (plain "nothing to send")
    | msg :: rest =>
      pure ⟨deliver handleFull n.chain (.beacon block msg),
        Function.update n.outbox v rest⟩
  | .other msg => do
      rejectIf (daemons.sends msg = true) (plain "sent by a daemon")
      let chain ← handleFull n.chain msg
      pure { n with chain := chain }

def BeaconNetwork.accepts (n : BeaconNetwork rand) : BeaconEvent env → Option BeaconMsg
  | .poll _ => none
  | .submit v block =>
    (n.outbox v).head?.filter fun msg =>
      (handleFull n.chain (.beacon block msg)).isOk
  | .other (.beacon _ msg) => some msg
  | .other _ => none

def recordBeacon (n : BeaconNetwork rand) (e : BeaconEvent env) (log : List BeaconMsg) :
    List BeaconMsg :=
  (n.accepts e).toList ++ log

def BeaconNetwork.genesis (rand : Randomness env) (balances : env.poker.bank.Balances)
    (staking : env.staking.Staking) (params : Params) : BeaconNetwork rand :=
  ⟨fullGenesis rand balances staking params, fun _ => []⟩

/-! ## Reuse -/

def CommitsTo (sha256 : Bytes → Bytes) (hmac : Hmac) (config : BeaconConfig)
    (req : MsgBeaconCommit) (salt : Bytes) : Prop :=
  deriveSalt hmac config.statePassphrase config.validatorAddress req.epochId = .ok salt ∧
    Committee.commit sha256 req.validator req.epochId salt = .ok req.commit

def Reuses (rand : Randomness env) (log : List BeaconMsg) : BeaconMsg → Prop
  | .beaconCommit req => ∃ config reveal, daemons.config req.validator = some config ∧
      .beaconReveal reveal ∈ log ∧ reveal.validator = req.validator ∧
      CommitsTo rand.sha256 hmac config req reveal.salt
  | _ => False

def NoReuse (rand : Randomness env) (log : List BeaconMsg) : Prop :=
  ∀ newer msg older, log = newer ++ msg :: older → ¬ Reuses hmac daemons rand older msg

def BeaconMsg.isRevealOf (v : String) (epochId : Nat) : BeaconMsg → Bool
  | .beaconReveal req => req.validator = v ∧ req.epochId = epochId
  | _ => false

def HasRevealed (log : List BeaconMsg) (v : String) (epochId : Nat) : Prop :=
  ∃ msg ∈ log, msg.isRevealOf v epochId = true

/-- A daemon's commit is for an epoch for which its validator has not revealed. -/
def FreshCommit (log : List BeaconMsg) : BeaconMsg → Prop
  | .beaconCommit req => (daemons.config req.validator).isSome = true →
      ¬ HasRevealed log req.validator req.epochId
  | _ => True

instance (log : List BeaconMsg) : ∀ msg, Decidable (FreshCommit daemons log msg)
  | .beaconCommit req => inferInstanceAs (Decidable (
      (daemons.config req.validator).isSome = true →
        ¬ ∃ msg ∈ log, msg.isRevealOf req.validator req.epochId = true))
  | .beaconReveal _ => isTrue trivial
  | .openBeaconWindow _ => isTrue trivial
  | .beginBlock => isTrue trivial

def SaltsDiffer (hmac : Hmac) : Prop :=
  ∀ passphrase validator epochId epochId' salt,
    deriveSalt hmac passphrase validator epochId = .ok salt →
    deriveSalt hmac passphrase validator epochId' = .ok salt → epochId = epochId'

def FromDaemon (rand : Randomness env) (config : BeaconConfig) : BeaconMsg → Prop
  | .beaconCommit req => req.validator = config.validatorAddress ∧
      ∃ salt, CommitsTo rand.sha256 hmac config req salt
  | .beaconReveal req => req.validator = config.validatorAddress ∧
      deriveSalt hmac config.statePassphrase config.validatorAddress req.epochId =
        .ok req.salt
  | _ => False

structure DaemonsSpeak (s : BeaconNetwork rand × List BeaconMsg) : Prop where
  queued : ∀ v msg, msg ∈ s.1.outbox v → ∃ config, daemons.config v = some config ∧
    FromDaemon hmac rand config msg
  commits : ∀ req config, .beaconCommit req ∈ s.2 →
    daemons.config req.validator = some config →
    FromDaemon hmac rand config (.beaconCommit req)
  reveals : ∀ req config, .beaconReveal req ∈ s.2 →
    daemons.config req.validator = some config →
    FromDaemon hmac rand config (.beaconReveal req)

end Network

section Runs

variable {env : Env} {rand : Randomness env} {hmac : Hmac} {daemons : Daemons}
  {n n' : BeaconNetwork rand} {log : List BeaconMsg} {e : BeaconEvent env}

variable {config : BeaconConfig} {msg : BeaconMsg} {v : String}

theorem participates_commit {target : Nat} {commit : MsgBeaconCommit} {reveal : MsgBeaconReveal}
    (hparts : Participates rand.sha256 hmac config target commit reveal) :
    FromDaemon hmac rand config (.beaconCommit commit) ∧
      FromDaemon hmac rand config (.beaconReveal reveal) := by
  have hopens := committee_reveal_ok hparts.opens
  refine ⟨⟨hparts.commitValidator, reveal.salt, ?_, ?_⟩, hparts.revealValidator, ?_⟩
  · rw [hparts.commitEpoch]
    exact hparts.salt
  · rw [hparts.commitValidator, hparts.commitEpoch]
    exact hopens
  · rw [hparts.revealEpoch]
    exact hparts.salt

theorem accepts_fromDaemon (hspeak : DaemonsSpeak hmac daemons (n, log))
    (hok : n.handle hmac daemons e = .ok n') (haccepts : n.accepts e = some msg)
    (hconfig : daemons.config v = some config)
    (hname : (∃ req, msg = .beaconCommit req ∧ req.validator = v) ∨
      ∃ req, msg = .beaconReveal req ∧ req.validator = v) :
    FromDaemon hmac rand config msg := by
  cases e with
  | poll name => cases haccepts
  | submit name block =>
    obtain ⟨hhead, -⟩ := Option.filter_eq_some_iff.mp haccepts
    obtain ⟨config', hconfig', hfrom⟩ := hspeak.queued name msg (List.mem_of_mem_head? hhead)
    -- The name on the message is the address of the daemon that sends it.
    have hown := daemons.own name config' hconfig'
    have hsame : v = name := by
      rcases hname with ⟨req, rfl, rfl⟩ | ⟨req, rfl, rfl⟩
      · exact hfrom.1.trans hown
      · exact hfrom.1.trans hown
    cases hsame
    cases hconfig.symm.trans hconfig'
    exact hfrom
  | other m =>
    exfalso
    simp only [BeaconNetwork.handle, ok_iff] at hok
    obtain ⟨-, hsends, -⟩ := hok
    cases m with
    | beacon block m =>
      cases haccepts
      rcases hname with ⟨req, rfl, rfl⟩ | ⟨req, rfl, rfl⟩
      · exact hsends (by simp [Daemons.sends, hconfig])
      · exact hsends (by simp [Daemons.sends, hconfig])
    | _ => cases haccepts

theorem hasRevealed_iff {epochId : Nat} :
    HasRevealed log v epochId ↔ ∃ salt, .beaconReveal ⟨v, epochId, salt⟩ ∈ log := by
  constructor
  · rintro ⟨msg, hmem, hreveal⟩
    cases msg with
    | beaconReveal req =>
      obtain ⟨validator, id, salt⟩ := req
      simp only [BeaconMsg.isRevealOf, decide_eq_true_eq] at hreveal
      obtain ⟨rfl, rfl⟩ := hreveal
      exact ⟨salt, hmem⟩
    | _ => cases hreveal
  · rintro ⟨salt, hmem⟩
    exact ⟨_, hmem, by simp [BeaconMsg.isRevealOf]⟩

theorem mem_recordBeacon : msg ∈ recordBeacon n e log ↔ n.accepts e = some msg ∨ msg ∈ log := by
  simp [recordBeacon]

theorem DaemonsSpeak.step (hspeak : DaemonsSpeak hmac daemons (n, log))
    (hok : n.handle hmac daemons e = .ok n') :
    DaemonsSpeak hmac daemons (n', recordBeacon n e log) := by
  constructor
  · intro v msg hmsg
    cases e with
    | poll name =>
      simp only [BeaconNetwork.handle, ok_iff] at hok
      obtain ⟨config, hconfig, -, -, ⟨commit, reveal⟩, hsent, rfl⟩ := hok
      by_cases hv : v = name
      · subst hv
        obtain ⟨hcommit, hreveal⟩ := participates_commit (maybeBeaconParticipate_ok hsent)
        simp only [Function.update_self, List.mem_cons, List.not_mem_nil, or_false] at hmsg
        rcases hmsg with rfl | rfl
        · exact ⟨config, hconfig, hcommit⟩
        · exact ⟨config, hconfig, hreveal⟩
      · simp only [Function.update_of_ne hv] at hmsg
        exact hspeak.queued v msg hmsg
    | submit name block =>
      simp only [BeaconNetwork.handle] at hok
      split at hok
      · cases hok
      · rename_i first rest houtbox
        cases hok
        by_cases hv : v = name
        · subst hv
          simp only [Function.update_self] at hmsg
          exact hspeak.queued v msg (by rw [houtbox]; exact List.mem_cons_of_mem _ hmsg)
        · simp only [Function.update_of_ne hv] at hmsg
          exact hspeak.queued v msg hmsg
    | other m =>
      simp only [BeaconNetwork.handle, ok_iff] at hok
      obtain ⟨-, -, chain, -, rfl⟩ := hok
      exact hspeak.queued v msg hmsg
  · intro req config hreq hconfig
    rcases mem_recordBeacon.mp hreq with hnew | hold
    · exact accepts_fromDaemon hspeak hok hnew hconfig (.inl ⟨req, rfl, rfl⟩)
    · exact hspeak.commits req config hold hconfig
  · intro req config hreq hconfig
    rcases mem_recordBeacon.mp hreq with hnew | hold
    · exact accepts_fromDaemon hspeak hok hnew hconfig (.inr ⟨req, rfl, rfl⟩)
    · exact hspeak.reveals req config hold hconfig

theorem reuses_iff (hdiffer : SaltsDiffer hmac) (hspeak : DaemonsSpeak hmac daemons (n, log))
    (hok : n.handle hmac daemons e = .ok n') (haccepts : n.accepts e = some msg) :
    ¬ Reuses hmac daemons rand log msg ↔ FreshCommit daemons log msg := by
  cases msg with
  | beaconCommit req =>
    constructor
    · intro hnot hdaemon hhas
      obtain ⟨salt, hrevealed⟩ := hasRevealed_iff.mp hhas
      obtain ⟨config, hconfig⟩ := Option.isSome_iff_exists.mp hdaemon
      have hsalt := (hspeak.reveals _ config hrevealed hconfig).2
      have hfrom := accepts_fromDaemon hspeak hok haccepts hconfig (.inl ⟨req, rfl, rfl⟩)
      obtain ⟨-, salt', hsalt', hcommit⟩ := hfrom
      cases hsalt.symm.trans hsalt'
      exact hnot ⟨config, _, hconfig, hrevealed, rfl, hsalt', hcommit⟩
    · rintro hfresh ⟨config, reveal, hconfig, hrevealed, hname, hsalt, -⟩
      apply hfresh (by rw [hconfig]; rfl)
      have hown := (hspeak.reveals reveal config hrevealed (by rw [hname]; exact hconfig)).2
      have hepoch := hdiffer _ _ _ _ _ hown hsalt
      obtain ⟨v, epochId, salt⟩ := reveal
      cases hname
      cases hepoch
      exact hasRevealed_iff.mpr ⟨salt, hrevealed⟩
  | _ => exact iff_of_true id trivial

theorem noReuse_recordBeacon (hnone : NoReuse hmac daemons rand log) :
    NoReuse hmac daemons rand (recordBeacon n e log) ↔
      ∀ msg, n.accepts e = some msg → ¬ Reuses hmac daemons rand log msg := by
  unfold recordBeacon
  cases n.accepts e with
  | none => simpa using hnone
  | some new =>
    constructor
    · rintro hall msg ⟨⟩
      exact hall [] new log rfl
    · rintro hnew (- | ⟨first, newer⟩) msg older hsplit
      · cases hsplit
        exact hnew new rfl
      · exact hnone newer msg older (List.cons.inj hsplit).2

/-- The beacon message that the chain accepts in this event is no daemon's commit for an
epoch for which its validator has revealed. -/
def FreshEvent (daemons : Daemons) (s : BeaconNetwork rand × List BeaconMsg)
    (e : BeaconEvent env) : Prop :=
  ∀ msg, s.1.accepts e = some msg → FreshCommit daemons s.2 msg

instance (s : BeaconNetwork rand × List BeaconMsg) (e : BeaconEvent env) :
    Decidable (FreshEvent daemons s e) :=
  inferInstanceAs (Decidable (∀ msg ∈ s.1.accepts e, FreshCommit daemons s.2 msg))

theorem reachable_daemonsSpeak {balances : env.poker.bank.Balances}
    {staking : env.staking.Staking} {params : Params} {events : List (BeaconEvent env)}
    {s : BeaconNetwork rand × List BeaconMsg}
    (hreach : Reaches (withHistory (BeaconNetwork.handle hmac daemons) recordBeacon)
      (BeaconNetwork.genesis rand balances staking params, []) events s) :
    DaemonsSpeak hmac daemons s := by
  induction hreach with
  | refl => exact ⟨fun _ _ h => (nomatch h), fun _ _ h => (nomatch h), fun _ _ h => (nomatch h)⟩
  | step _ hok ih =>
    obtain ⟨hstep, hlog⟩ := withHistory_ok hok
    have hspeak := ih.step hstep
    rw [← hlog] at hspeak
    exact hspeak

end Runs

/-- All along every run of the chain with its daemons, no daemon commits to a salt that its
validator has already revealed exactly if no accepted commit of a daemon is for an epoch
for which its validator has revealed. -/
theorem salts_unused_iff (env : Env) (rand : Randomness env) (hmac : Hmac)
    (daemons : Daemons) (balances : env.poker.bank.Balances)
    (staking : env.staking.Staking) (params : Params) (events : List (BeaconEvent env))
    (hdiffer : SaltsDiffer hmac) :
    (∀ k, NoReuse hmac daemons rand
      (run (withHistory (BeaconNetwork.handle hmac daemons) recordBeacon)
        (BeaconNetwork.genesis rand balances staking params, []) (events.take k)).2) ↔
      AcceptedMeet (withHistory (BeaconNetwork.handle hmac daemons) recordBeacon)
        (FreshEvent daemons) (BeaconNetwork.genesis rand balances staking params, [])
        events := by
  let P : BeaconNetwork rand × List BeaconMsg → Prop :=
    fun s => NoReuse hmac daemons rand s.2
  refine forall_take_iff (P := P) ?_ ?_ events
  · intro past s event s' hreach hnone hok
    obtain ⟨hstep, hlog⟩ := withHistory_ok hok
    have hspeak := reachable_daemonsSpeak hreach
    show NoReuse hmac daemons rand s'.2 ↔ _
    rw [hlog, noReuse_recordBeacon hnone]
    constructor
    · intro hall msg hmsg
      exact (reuses_iff hdiffer hspeak hstep hmsg).mp (hall msg hmsg)
    · intro hall msg hmsg
      exact (reuses_iff hdiffer hspeak hstep hmsg).mpr (hall msg hmsg)
  · intro newer msg older hsplit
    simp at hsplit

deriving instance DecidableEq for MsgOpenBeaconWindow, MsgBeaconCommit, MsgBeaconReveal,
  BeaconMsg

def firstConfig : BeaconConfig := ⟨"ocp1aaa", "passphrase", by decide⟩

def firstDaemon : Daemons where
  config := fun v => if v = "ocp1aaa" then some firstConfig else none
  own := fun v cfg hcfg => by
    split at hcfg
    · rename_i hv
      cases hcfg
      exact hv.symm
    · cases hcfg

theorem tailHmac_saltsDiffer : SaltsDiffer tailHmac := by
  intro passphrase validator epochId epochId' salt hsalt hsalt'
  simp only [deriveSalt, u64LE, ok_iff, not_lt] at hsalt hsalt'
  obtain ⟨_, ⟨-, hfits, rfl⟩, rfl⟩ := hsalt
  obtain ⟨_, ⟨-, hfits', rfl⟩, hsame⟩ := hsalt'
  have hmax : maxUint64 < 256 ^ 8 := by decide
  -- The code starts with the bytes of the epoch, the last one first.
  have hstart := congrArg (List.take 8) hsame
  simp only [tailHmac, List.reverse_append, List.append_assoc, List.take_take] at hstart
  rw [List.take_append_of_le_length (by simp), List.take_append_of_le_length (by simp),
    List.take_of_length_le (by simp), List.take_of_length_le (by simp)] at hstart
  exact (leBytes_inj (by omega) (by omega) (List.reverse_injective hstart)).symm

/-- The daemon commits in a window, its reveal stays the only one, and it is offered a
second window for the same epoch. -/
def secondWindowRun : List (BeaconEvent threeEnv) :=
  [.other (beginBlockAt 1036000),
    .poll "ocp1aaa", .submit "ocp1aaa" (threeBlock 1036001),
    .submit "ocp1aaa" (threeBlock 1036001),
    .poll "ocp1aaa", .submit "ocp1aaa" (threeBlock 1036060),
    .submit "ocp1aaa" (threeBlock 1036060),
    .other (beginBlockAt 1036101),
    .poll "ocp1aaa", .submit "ocp1aaa" (threeBlock 1036102)]

def secondWindowLog (events : List (BeaconEvent threeEnv)) : List BeaconMsg :=
  (run (withHistory (BeaconNetwork.handle tailHmac firstDaemon) recordBeacon)
    (BeaconNetwork.genesis threeRandomness (0 : Nat) () residueParams, []) events).2

theorem firstWindow_noReuse :
    NoReuse tailHmac firstDaemon threeRandomness
      (secondWindowLog (secondWindowRun.take 8)) := by
  refine (salts_unused_iff threeEnv threeRandomness tailHmac firstDaemon (0 : Nat) ()
    residueParams (secondWindowRun.take 8) tailHmac_saltsDiffer).mpr ?_ 8
  unfold AcceptedMeet
  decide +kernel

def firstSalt : Bytes :=
  tailHmac.mac [] (stringBytes "ocp/v1/beacon/salt/v1" ++ stringBytes "ocp1aaa" ++
    leBytes 8 1)

theorem secondWindow_reuses :
    ¬ NoReuse tailHmac firstDaemon threeRandomness (secondWindowLog secondWindowRun) := by
  have hlog : secondWindowLog secondWindowRun =
      [.beaconCommit ⟨"ocp1aaa", 1, firstSalt.reverse⟩, .beginBlock,
        .beaconReveal ⟨"ocp1aaa", 1, firstSalt⟩,
        .beaconCommit ⟨"ocp1aaa", 1, firstSalt.reverse⟩, .beginBlock] := by
    decide +kernel
  intro hnone
  apply hnone [] _ _ hlog
  refine ⟨firstConfig, ⟨"ocp1aaa", 1, firstSalt⟩, rfl, by simp, rfl, ?_⟩
  unfold CommitsTo
  decide +kernel

end OnChainPoker.Dealer
