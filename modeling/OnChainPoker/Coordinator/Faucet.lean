import Mathlib.Data.Option.Basic
import Mathlib.Order.Basic
import OnChainPoker.Foundation.Run

/-!
# The faucet

A drip checks the cooldown of its address, waits for its transaction and only then sets
the cooldown.  Meanwhile `busy` keeps other drips out, so that no text is paid twice
within its cooldown.  But the cooldowns are kept by text, and an account has two texts.
-/

namespace OnChainPoker.Coordinator

open Foundation

/-! ## Addresses -/

def bech32Charset : List Char := "qpzry9x8gf2tvdw0s3jn54khce6mua7l".toList

def bech32Polymod (values : List Nat) : Nat :=
  let gen := [0x3b6a57b2, 0x26508e6d, 0x1ea119fa, 0x3d4233dd, 0x2a1462b3]
  values.foldl (fun chk v =>
    let b := chk >>> 25
    gen.zipIdx.foldl (fun chk g => if (b >>> g.2) &&& 1 = 1 then chk ^^^ g.1 else chk)
      (((chk &&& 0x1ffffff) <<< 5) ^^^ v)) 1

def bech32HrpExpand (hrp : List Char) : List Nat :=
  hrp.map (fun c => c.toNat >>> 5) ++ 0 :: hrp.map (fun c => c.toNat &&& 31)

def decodeBech32 (address : String) : Option (List Char × List Nat) := do
  let cs := address.toList
  guard (8 ≤ cs.length ∧ cs.length ≤ 90)
  guard (cs.all fun c => 33 ≤ c.toNat ∧ c.toNat ≤ 126)
  guard ¬ (cs.any (fun c => 97 ≤ c.toNat ∧ c.toNat ≤ 122) ∧
    cs.any fun c => 65 ≤ c.toNat ∧ c.toNat ≤ 90)
  let addr := cs.map Char.toLower
  let sep ← (List.range addr.length).reverse.find? fun i => addr[i]? = some '1'
  guard (1 ≤ sep ∧ sep + 7 ≤ addr.length)
  let hrp := addr.take sep
  let data ← (addr.drop (sep + 1)).mapM fun c => bech32Charset.idxOf? c
  guard (bech32Polymod (bech32HrpExpand hrp ++ data) = 1)
  pure (hrp, data)

def decodeBech32Prefix (address : String) : Option String :=
  (decodeBech32 address).map fun decoded => String.ofList decoded.1

/-- The bits of the address bytes: the data without the checksum, in whole bytes. -/
def account (address : String) : Option (List Bool) :=
  (decodeBech32 address).map fun decoded =>
    let words := decoded.2.take (decoded.2.length - 6)
    (words.flatMap fun w => [4, 3, 2, 1, 0].map w.testBit).take (words.length * 5 / 8 * 8)

/-! ## Cooldowns -/

/-- The entries of a `Map` in the order of their insertion. -/
abbrev Cooldowns := List (String × Nat)

namespace Cooldowns

variable (m : Cooldowns) (k : String) (now : Nat)

def get : Option Nat := (m.find? (·.1 = k)).map (·.2)

def set (v : Nat) : Cooldowns :=
  if m.any (·.1 = k) then m.map fun e => if e.1 = k then (k, v) else e else m ++ [(k, v)]

def cooling : Cooldowns := m.filter fun e => now < e.2

def evictSoonestToExpire (maxEntries : Nat) : Cooldowns :=
  if m.length ≤ maxEntries then m
  else
    let excess := m.length - maxEntries
    let soonestToExpire := (m.mergeSort fun a b => a.2 ≤ b.2).take excess
    m.filter fun e => soonestToExpire.all (·.1 ≠ e.1)

def wait : Option Nat := do
  let expiry ← m.get k
  guard (now < expiry)
  pure ((expiry - now + 999) / 1000)

variable {m k now}

theorem get_set_self (v : Nat) : (m.set k v).get k = some v := by
  unfold set
  split
  · rename_i hany
    induction m with
    | nil => simp at hany
    | cons e rest ih =>
      by_cases he : e.1 = k
      · simp [get, he]
      · simpa [get, he] using ih (by simpa [he] using hany)
  · rename_i hnone
    simp only [List.any_eq_true, decide_eq_true_eq, not_exists, not_and] at hnone
    rw [get, List.find?_append, List.find?_eq_none.mpr (by simpa using hnone)]
    simp

theorem get_set_of_ne {k' : String} (hne : k' ≠ k) (v : Nat) : (m.set k v).get k' = m.get k' := by
  unfold set
  split
  · clear * - hne
    induction m with
    | nil => rfl
    | cons e rest ih =>
      by_cases he : e.1 = k
      · simpa [get, he, hne.symm] using ih
      · by_cases he' : e.1 = k'
        · simp [get, hne, he']
        · simpa [get, he, he'] using ih
  · simp [get, hne.symm]

theorem mem_of_get {v : Nat} (hget : m.get k = some v) : (k, v) ∈ m := by
  obtain ⟨e, he, rfl⟩ := Option.map_eq_some_iff.mp hget
  have hk : e.1 = k := by simpa using List.find?_some he
  exact hk ▸ List.mem_of_find?_eq_some he

theorem mem_set {v : Nat} {e : String × Nat} (he : e ∈ m.set k v) : e ∈ m ∨ e = (k, v) := by
  unfold set at he
  split at he
  · obtain ⟨e', he', rfl⟩ := List.mem_map.mp he
    split
    · exact .inr rfl
    · exact .inl he'
  · simpa using he

theorem get_cooling {v : Nat} (hget : m.get k = some v) (hlater : now < v) :
    (m.cooling now).get k = some v := by
  induction m with
  | nil => cases hget
  | cons e rest ih =>
    by_cases he : e.1 = k
    · have hv : e.2 = v := by simpa [get, he] using hget
      simp [get, cooling, hv, hlater, he]
    · have hrest := ih (by simpa [get, he] using hget)
      by_cases hcooling : now < e.2
      · simpa [get, cooling, hcooling, he] using hrest
      · simpa [get, cooling, hcooling] using hrest

end Cooldowns

/-! ## The service -/

structure FaucetConfig where
  cooldownMs : Nat
  ipCooldownMs : Nat
  bech32Prefix : String

structure Refusal where
  message : String
  status : Nat
  retryAfter : Option Nat

structure Drip where
  address : String
  clientIp : String
  now : Nat
  deriving DecidableEq

/-- The drips in `pending` wait for their transactions; those in `paid` have succeeded, the
newest at its head. -/
structure Faucet where
  now : Nat
  addressCooldowns : Cooldowns
  ipCooldowns : Cooldowns
  busy : Bool
  pending : List Drip
  paid : List Drip

def maxCooldownEntries : Nat := 10000

inductive Event where
  | elapse (ms : Nat)
  | drip (address clientIp : String)
  | finish (i : Nat) (code : Option Nat)
  | prune

variable (config : FaucetConfig) (s : Faucet)

def rateLimited (what : String) (wait : Nat) : Refusal :=
  ⟨s!"{what} rate limited — try again in {wait}s", 429, some wait⟩

/-- A drip up to the point where it waits for its transaction. -/
def drip (address clientIp : String) : Faucet × Option Refusal :=
  match s.ipCooldowns.wait clientIp s.now with
  | some wait => (s, some (rateLimited "IP" wait))
  | none =>
    let s := { s with
      ipCooldowns := s.ipCooldowns.set clientIp (s.now + min config.ipCooldownMs 60000) }
    if decodeBech32Prefix address ≠ some config.bech32Prefix then
      (s, some ⟨"invalid address", 400, none⟩)
    else
      match s.addressCooldowns.wait address s.now with
      | some wait => (s, some (rateLimited "address" wait))
      | none =>
        if s.busy then (s, some ⟨"faucet is busy — try again shortly", 429, some 5⟩)
        else ({ s with
          busy := true
          pending := s.pending ++ [⟨address, clientIp, s.now⟩] }, none)

/-- The rest of a drip, with the code of its transaction or after an exception. -/
def finishDrip (i : Nat) (code : Option Nat) : Faucet :=
  match s.pending[i]? with
  | none => s
  | some d =>
    let s := { s with busy := false, pending := s.pending.eraseIdx i }
    if code = some 0 then
      { s with
        addressCooldowns := s.addressCooldowns.set d.address (d.now + config.cooldownMs)
        ipCooldowns := s.ipCooldowns.set d.clientIp (d.now + config.ipCooldownMs)
        paid := d :: s.paid }
    else s

def pruneCooldowns : Faucet :=
  { s with
    addressCooldowns :=
      (s.addressCooldowns.cooling s.now).evictSoonestToExpire maxCooldownEntries
    ipCooldowns := (s.ipCooldowns.cooling s.now).evictSoonestToExpire maxCooldownEntries }

def step : Event → Except Refusal Faucet
  | .elapse ms => .ok { s with now := s.now + ms }
  | .drip address clientIp => .ok (drip config s address clientIp).1
  | .finish i code => .ok (finishDrip config s i code)
  | .prune => .ok (pruneCooldowns s)

def started : Faucet := ⟨0, [], [], false, [], []⟩

/-- The cooldowns that have not expired are fewer than those that are kept. -/
def BelowCap (s : Faucet) : Event → Prop
  | .prune => (s.addressCooldowns.cooling s.now).length ≤ maxCooldownEntries
  | _ => True

variable {config s}

def Apart (config : FaucetConfig) (same : String → String → Prop) (later earlier : Drip) :
    Prop :=
  same later.address earlier.address → earlier.now + config.cooldownMs ≤ later.now

def SameAccount (a b : String) : Prop := account a = account b

structure TextsApart (config : FaucetConfig) (s : Faucet) : Prop where
  idle : s.busy = false → s.pending = []
  single : s.pending.length ≤ 1
  begun : ∀ d ∈ s.pending, d.now ≤ s.now
  next : ∀ d ∈ s.pending, ∀ e ∈ s.paid, Apart config (· = ·) d e
  cooling : ∀ e ∈ s.paid, s.now < e.now + config.cooldownMs →
    s.addressCooldowns.get e.address = some (e.now + config.cooldownMs)
  owed : ∀ entry ∈ s.addressCooldowns, ∃ e ∈ s.paid,
    entry = (e.address, e.now + config.cooldownMs)
  apart : s.paid.Pairwise (Apart config (· = ·))

/-- What a drip does: it is refused, or it waits for its transaction. -/
inductive Dripped (config : FaucetConfig) (s : Faucet) (address clientIp : String) :
    Faucet × Option Refusal → Prop
  | refused (ipCooldowns : Cooldowns) (refusal : Refusal) :
      Dripped config s address clientIp ({ s with ipCooldowns }, some refusal)
  | waits (ipCooldowns : Cooldowns) : s.busy = false → (account address).isSome →
      s.addressCooldowns.wait address s.now = none →
      Dripped config s address clientIp ({ s with
        ipCooldowns
        busy := true
        pending := s.pending ++ [⟨address, clientIp, s.now⟩] }, none)

theorem drip_dripped (config : FaucetConfig) (s : Faucet) (address clientIp : String) :
    Dripped config s address clientIp (drip config s address clientIp) := by
  unfold drip
  split
  · exact .refused s.ipCooldowns _
  · dsimp only
    split
    · exact .refused _ _
    · rename_i hprefix
      have hdecoded : (account address).isSome := by
        rw [not_not, decodeBech32Prefix] at hprefix
        obtain ⟨decoded, hdecoded, -⟩ := Option.map_eq_some_iff.mp hprefix
        simp [account, hdecoded]
      split
      · exact .refused _ _
      · rename_i hwait
        split
        · exact .refused _ _
        · rename_i hidle
          exact .waits _ (by simpa using hidle) hdecoded hwait

section

variable (h : TextsApart config s)
include h

theorem TextsApart.setIp (ipCooldowns : Cooldowns) : TextsApart config { s with ipCooldowns } :=
  ⟨h.idle, h.single, h.begun, h.next, h.cooling, h.owed, h.apart⟩

/-- A text that is free to drip has not been paid within its cooldown. -/
theorem TextsApart.free {address : String}
    (hwait : s.addressCooldowns.wait address s.now = none) {e : Drip} (he : e ∈ s.paid)
    (hsame : address = e.address) : e.now + config.cooldownMs ≤ s.now := by
  by_contra hearly
  have hget := h.cooling e he (Nat.not_le.mp hearly)
  rw [← hsame] at hget
  simp [Cooldowns.wait, hget, Nat.not_le.mp hearly] at hwait

theorem TextsApart.drip (address clientIp : String) :
    TextsApart config (drip config s address clientIp).1 := by
  have hdripped := drip_dripped config s address clientIp
  generalize Coordinator.drip config s address clientIp = result at hdripped ⊢
  cases hdripped with
  | refused ipCooldowns _ => exact h.setIp ipCooldowns
  | waits ipCooldowns hidle _ hwait =>
    rw [h.idle hidle, List.nil_append]
    refine ⟨by simp, by simp, by simp, ?_, h.cooling, h.owed, h.apart⟩
    intro d hd e he hsame
    cases List.mem_singleton.mp hd
    exact h.free hwait he hsame

/-- A drip that finishes was the only one to wait. -/
theorem TextsApart.eraseIdx {i : Nat} {d : Drip} (hd : s.pending[i]? = some d) :
    s.pending = [d] ∧ s.pending.eraseIdx i = [] := by
  have hsingle := h.single
  obtain ⟨hlt, hget⟩ := List.getElem?_eq_some_iff.mp hd
  obtain ⟨d', hd'⟩ := List.length_eq_one_iff.mp (show s.pending.length = 1 by omega)
  obtain rfl : i = 0 := by omega
  simp_all

theorem TextsApart.finishDrip (i : Nat) (code : Option Nat) :
    TextsApart config (finishDrip config s i code) := by
  unfold Coordinator.finishDrip
  split
  · exact h
  · rename_i d hd
    have hmem := List.mem_of_getElem? hd
    have hnext := h.next d hmem
    simp only [(h.eraseIdx hd).2]
    split
    · refine ⟨by simp, by simp, by simp, by simp, fun e he hearly => ?_, fun entry he => ?_,
        List.pairwise_cons.mpr ⟨hnext, h.apart⟩⟩
      · by_cases hsame : e.address = d.address
        · rcases List.mem_cons.mp he with rfl | hold
          · exact Cooldowns.get_set_self _
          · have hbegun := h.begun d hmem
            have hlate := hnext e hold hsame.symm
            dsimp only at hearly
            omega
        · rw [Cooldowns.get_set_of_ne hsame]
          rcases List.mem_cons.mp he with rfl | hold
          · exact absurd rfl hsame
          · exact h.cooling e hold hearly
      · rcases Cooldowns.mem_set he with hold | rfl
        · obtain ⟨e, he, hentry⟩ := h.owed entry hold
          exact ⟨e, List.mem_cons_of_mem _ he, hentry⟩
        · exact ⟨d, List.mem_cons_self, rfl⟩
    · exact ⟨by simp, by simp, by simp, by simp, h.cooling, h.owed, h.apart⟩

theorem TextsApart.step {s' : Faucet} {event : Event} (hcap : BelowCap s event)
    (hok : step config s event = .ok s') : TextsApart config s' := by
  cases event with
  | elapse ms =>
    cases hok
    refine ⟨h.idle, h.single, fun d hd => ?_, h.next, fun e he hearly => ?_, h.owed, h.apart⟩
    · exact Nat.le_add_right_of_le (h.begun d hd)
    · exact h.cooling e he (Nat.lt_of_le_of_lt (Nat.le_add_right _ _) hearly)
  | drip address clientIp =>
    cases hok
    exact h.drip address clientIp
  | finish i code =>
    cases hok
    exact h.finishDrip i code
  | prune =>
    cases hok
    have hkept : (pruneCooldowns s).addressCooldowns = s.addressCooldowns.cooling s.now :=
      if_pos hcap
    refine ⟨h.idle, h.single, h.begun, h.next, fun e he hearly => ?_, fun entry he => ?_, h.apart⟩
    · rw [hkept]
      exact Cooldowns.get_cooling (h.cooling e he hearly) hearly
    · rw [hkept] at he
      exact h.owed entry (List.mem_of_mem_filter he)

end

theorem started_textsApart : TextsApart config started := by
  constructor <;> simp [started]

/-! ## Accounts -/

/-- A drip that is accepted finds no other text of its account cooling down. -/
def FreshText (config : FaucetConfig) (s : Faucet) : Event → Prop
  | .drip address clientIp => (drip config s address clientIp).2 = none →
      ∀ entry ∈ s.addressCooldowns, s.now < entry.2 → SameAccount address entry.1 →
        entry.1 = address
  | _ => True

/-- The drips that have succeeded and those that still may. -/
def begunDrips (s : Faucet) : List Drip := s.pending ++ s.paid

theorem drip_apart_iff (h : TextsApart config s) (address clientIp : String)
    (hapart : (begunDrips s).Pairwise (Apart config SameAccount)) :
    (begunDrips (drip config s address clientIp).1).Pairwise (Apart config SameAccount) ↔
      FreshText config s (.drip address clientIp) := by
  dsimp only [FreshText]
  have hdripped := drip_dripped config s address clientIp
  generalize drip config s address clientIp = result at hdripped ⊢
  cases hdripped with
  | refused ipCooldowns refusal => exact iff_of_true hapart (by simp)
  | waits ipCooldowns hidle _ hwait =>
    simp only [begunDrips, h.idle hidle, List.nil_append] at hapart ⊢
    rw [List.singleton_append, List.pairwise_cons]
    constructor
    · rintro ⟨hlater, -⟩ - entry hentry hcooling hsame
      obtain ⟨e, he, rfl⟩ := h.owed entry hentry
      exact absurd (hlater e he hsame) (Nat.not_le.mpr hcooling)
    · refine fun hfresh => ⟨fun e he hsame => ?_, hapart⟩
      by_contra hearly
      replace hearly := Nat.not_le.mp hearly
      have hentry := Cooldowns.mem_of_get (h.cooling e he hearly)
      have htext := hfresh trivial _ hentry hearly hsame
      exact Nat.not_le.mpr hearly (h.free hwait he htext.symm)

theorem step_apart_iff (h : TextsApart config s) {s' : Faucet} {event : Event}
    (hapart : (begunDrips s).Pairwise (Apart config SameAccount))
    (hok : step config s event = .ok s') :
    (begunDrips s').Pairwise (Apart config SameAccount) ↔ FreshText config s event := by
  cases event with
  | elapse _ | prune =>
    cases hok
    exact iff_of_true hapart trivial
  | drip address clientIp =>
    cases hok
    exact drip_apart_iff h address clientIp hapart
  | finish i code =>
    cases hok
    refine iff_of_true ?_ trivial
    unfold finishDrip
    split
    · exact hapart
    · rename_i d hd
      obtain ⟨hpending, herased⟩ := h.eraseIdx hd
      rw [begunDrips, hpending] at hapart
      simp only [herased]
      split
      · exact hapart
      · exact (List.pairwise_cons.mp hapart).2

/-- Were the transaction of the drip that waits to succeed now, all that have begun would
be paid. -/
theorem paid_of_finish (h : TextsApart config s) :
    (finishDrip config s 0 (some 0)).paid = begunDrips s := by
  unfold finishDrip
  split
  · rename_i hnone
    rw [List.getElem?_eq_none_iff, Nat.le_zero, List.length_eq_zero_iff] at hnone
    simp [begunDrips, hnone]
  · rename_i d hd
    simp [begunDrips, (h.eraseIdx hd).1]

/-- What has begun was asked for, under a text that names an account. -/
def Asked (events : List Event) (s : Faucet) : Prop :=
  ∀ d ∈ begunDrips s, (∃ clientIp, .drip d.address clientIp ∈ events) ∧
    (account d.address).isSome

theorem asked_step {events : List Event} {s' : Faucet} {event : Event} (hevent : event ∈ events)
    (hasked : Asked events s) (hok : step config s event = .ok s') : Asked events s' := by
  cases event with
  | elapse _ | prune =>
    cases hok
    exact hasked
  | drip address clientIp =>
    cases hok
    have hdripped := drip_dripped config s address clientIp
    generalize drip config s address clientIp = result at hdripped ⊢
    cases hdripped with
    | refused _ _ => exact hasked
    | waits _ _ hdecoded _ =>
      intro d hd
      simp only [begunDrips, List.append_assoc, List.mem_append, List.mem_singleton] at hd
      rcases hd with hold | rfl | hold
      · exact hasked d (List.mem_append_left _ hold)
      · exact ⟨⟨clientIp, hevent⟩, hdecoded⟩
      · exact hasked d (List.mem_append_right _ hold)
  | finish i code =>
    cases hok
    unfold finishDrip
    split
    · exact hasked
    · rename_i d hd
      have hrest : ∀ e ∈ s.pending.eraseIdx i ++ s.paid, e ∈ begunDrips s := fun e he =>
        List.mem_append.mpr ((List.mem_append.mp he).imp_left List.mem_of_mem_eraseIdx)
      dsimp only
      split
      · intro e he
        simp only [begunDrips, List.mem_append, List.mem_cons] at he
        rcases he with hold | rfl | hold
        · exact hasked e (hrest e (List.mem_append_left _ hold))
        · exact hasked _ (List.mem_append_left _ (List.mem_of_getElem? hd))
        · exact hasked e (hrest e (List.mem_append_right _ hold))
      · exact fun e he => hasked e (hrest e he)

/-- As long as no cooldown is evicted, no drip that waits could succeed and pay an account
twice within its cooldown exactly if every accepted drip finds no other text of its account
cooling down.  That is so if every account is asked for under one text. -/
theorem faucet_pays_once_iff (config : FaucetConfig) (events : List Event)
    (hcap : StepsMeet (step config) BelowCap started events) :
    ((∀ k, (run (step config) started (events.take k ++ [.finish 0 (some 0)])).paid.Pairwise
        (Apart config SameAccount)) ↔
      AcceptedMeet (step config) (FreshText config) started events) ∧
    (AcceptedMeet (step config) (FreshText config) started events →
      (run (step config) started events).paid.Pairwise (Apart config SameAccount)) ∧
    ((∀ a ip b ip', .drip a ip ∈ events → .drip b ip' ∈ events → (account a).isSome →
        SameAccount a b → a = b) →
      (run (step config) started events).paid.Pairwise (Apart config SameAccount)) := by
  have htexts : ∀ k, TextsApart config (run (step config) started (events.take k)) := fun k =>
    run_invariant_of_steps (TextsApart config) (hcap.take k) started_textsApart
      fun s event s' hallowed h hok => h.step hallowed hok
  have hiff := forall_take_iff_of_steps (TextsApart config)
    (P := fun s => (begunDrips s).Pairwise (Apart config SameAccount))
    (fun s event s' hbelow h hok => ⟨h.step hbelow hok, fun hs => step_apart_iff h hs hok⟩)
    hcap started_textsApart (by simp [begunDrips, started])
  have hfinish : ∀ k, (run (step config) started (events.take k ++ [.finish 0 (some 0)])).paid =
      begunDrips (run (step config) started (events.take k)) := by
    intro k
    rw [run_append]
    exact paid_of_finish (htexts k)
  have hall := htexts events.length
  rw [List.take_length] at hall
  refine ⟨?_, fun hfresh => ?_, fun hone => ?_⟩
  · simp only [hfinish]
    exact hiff
  · have hbegun := hiff.mpr hfresh events.length
    rw [List.take_length] at hbegun
    exact hbegun.sublist (List.sublist_append_right _ _)
  · have hlisted : StepsMeet (step config) (fun _ event => event ∈ events) started events :=
      stepsMeet_of_mem fun event hevent _ => hevent
    have hasked := run_invariant_of_steps (Asked events) hlisted
      (by simp [Asked, begunDrips, started]) fun _ _ _ hevent h hok => asked_step hevent h hok
    refine hall.apart.imp_of_mem fun {d e} hd he hsame haccount => hsame ?_
    obtain ⟨⟨ip, hd'⟩, hsome⟩ := hasked d (List.mem_append_right _ hd)
    obtain ⟨⟨ip', he'⟩, -⟩ := hasked e (List.mem_append_right _ he)
    exact hone _ ip _ ip' hd' he' hsome haccount

def dailyConfig : FaucetConfig := ⟨86400000, 60000, "ocp"⟩

def dailyRun : List Event :=
  [.drip "ocp1qqqqqqqqqqqqqqqqqqqqqqqqqqqqqqqqjuqpcz" "10.0.0.1", .finish 0 (some 0),
    .elapse 86400000, .drip "ocp1qqqqqqqqqqqqqqqqqqqqqqqqqqqqqqqqjuqpcz" "10.0.0.2",
    .finish 0 (some 0)]

theorem dailyRun_pays_daily :
    (run (step dailyConfig) started dailyRun).paid.length = 2 ∧
      (run (step dailyConfig) started dailyRun).paid.Pairwise (Apart dailyConfig SameAccount) := by
  refine ⟨by decide +kernel, (faucet_pays_once_iff dailyConfig dailyRun
    ⟨trivial, trivial, trivial, trivial, trivial, trivial⟩).2.2 ?_⟩
  intro a ip b ip' ha hb _ _
  simp only [dailyRun, List.mem_cons, Event.drip.injEq, List.not_mem_nil, reduceCtorEq,
    false_or, or_false] at ha hb
  rcases ha with ⟨rfl, -⟩ | ⟨rfl, -⟩ <;> rcases hb with ⟨rfl, -⟩ | ⟨rfl, -⟩ <;> rfl

def twoTextsRun : List Event :=
  [.drip "ocp1qqqqqqqqqqqqqqqqqqqqqqqqqqqqqqqqjuqpcz" "10.0.0.1", .finish 0 (some 0),
    .drip "OCP1QQQQQQQQQQQQQQQQQQQQQQQQQQQQQQQQJUQPCZ" "10.0.0.2", .finish 0 (some 0)]

theorem twoTextsRun_paid_twice :
    ¬ (run (step dailyConfig) started twoTextsRun).paid.Pairwise
      (Apart dailyConfig SameAccount) := by
  unfold Apart SameAccount
  decide +kernel

end OnChainPoker.Coordinator
