import OnChainPoker.Poker.Reveals

/-!
# Table passwords

`CreateTable` stores the digest of a salt and a password, and `Sit` compares the proof
of a request with the stored digest.  The digest is part of the public table record, so
the record alone is enough to pass: a password keeps nobody out whom the other checks
of `Sit` would let in.
-/

namespace OnChainPoker.Poker

open Foundation

variable {env : Env} {s : State env} {tid : Nat} {t : Table}

/-! ## Observers -/

/-- What can be computed from the stored password data: its fields, and what
concatenation, cutting and SHA-256 make of them.  There is no way back from a
digest. -/
inductive Observation where
  | salt
  | hash
  | append (first second : Observation)
  | cut (start count : Nat) (whole : Observation)
  | digest (text : Observation)

def Observation.eval (sha256 : Bytes → Bytes) (params : TableParams) : Observation → Bytes
  | .salt => params.passwordSalt
  | .hash => params.passwordHash
  | .append first second => first.eval sha256 params ++ second.eval sha256 params
  | .cut start count whole => ((whole.eval sha256 params).drop start).take count
  | .digest text => sha256 (text.eval sha256 params)

/-! ## The checks of Sit -/

theorem checkPasswordProof_ok_iff {hash proof : Bytes} (hlocked : hash ≠ [])
    (hlength : hash.length = passwordCommitmentBytes) :
    checkPasswordProof hash proof = .ok () ↔ proof = hash := by
  simp only [checkPasswordProof, ok_iff, not_and, not_not]
  constructor
  · rintro ⟨-, -, -, -, hsame⟩
    exact hsame hlocked
  · rintro rfl
    exact ⟨(), fun h => h, (), fun _ => hlength, fun _ => rfl⟩

/-- What `Sit` checks of a request besides its password proof. -/
structure Admits (s : State env) (t : Table) (req : MsgSit) : Prop where
  unseated : seatOfPlayer t.seats req.player = none
  seat : ∃ i, autoAssignSeat t = .ok i
  buyIn : t.params.minBuyIn ≤ req.buyIn ∧ req.buyIn ≤ t.params.maxBuyIn
  key : req.pkPlayer.length = pointBytes ∧ env.canonicalPoint req.pkPlayer = true
  fits : t.params.playerBond = 0 ∨ req.buyIn ≤ maxUint64 - t.params.playerBond
  paid : ∃ addr balances, playerAddress env req.player = .ok addr ∧
    env.bank.sendCoinsFromAccountToModule s.balances addr
      (req.buyIn + t.params.playerBond) = .ok balances

theorem sit_isOk_iff (req : MsgSit) (hget : s.getTable tid = some t) (hreq : req.tableId = tid) :
    (sit s req).isOk = true ↔
      checkPasswordProof t.params.passwordHash req.passwordProof = .ok () ∧ Admits s t req := by
  subst hreq
  rw [isOk_iff]
  simp only [sit, State.loadTable, hget, ok_iff, Option.some.injEq, exists_eq_left']
  constructor
  · rintro ⟨s', addr, haddr, -, hseated, ⟨⟩, hpassword, i, hseat, -, hrange, -, hkey, -,
      hpoint, -, hfits, balances, hpaid, -⟩
    refine ⟨hpassword, ?_, ⟨i, hseat⟩, ?_, ⟨?_, ?_⟩, ?_, addr, balances, haddr, hpaid⟩
    · simpa using hseated
    · rw [not_or, not_lt, not_lt] at hrange
      exact hrange
    · simpa using hkey
    · simpa using hpoint
    · rw [not_and_or, not_not, not_lt] at hfits
      exact hfits
  · rintro ⟨hpassword, hadmits⟩
    obtain ⟨i, hseat⟩ := hadmits.seat
    obtain ⟨addr, balances, haddr, hpaid⟩ := hadmits.paid
    refine ⟨_, addr, haddr, (), ?_, (), hpassword, i, hseat, (), ?_, (), ?_, (), ?_, (),
      ?_, balances, hpaid, rfl⟩
    · simp [hadmits.unseated]
    · rw [not_or, not_lt, not_lt]
      exact hadmits.buyIn
    · simp [hadmits.key.1]
    · simp [hadmits.key.2]
    · rw [not_and_or, not_not, not_lt]
      exact hadmits.fits

/-! ## Observers at the table -/

/-- The stored password keeps out everyone who knows no more than the table record exactly
if the other checks of `Sit` already keep out everyone. -/
theorem password_protects_iff (env : Env) (balances : env.bank.Balances)
    (messages : List (Msg env)) (sha256 : Bytes → Bytes) {tid : Nat} {t : Table}
    (hget : (run handle (State.genesis env balances) messages).getTable tid = some t)
    (hlocked : t.params.passwordHash ≠ []) :
    (∀ proof, checkPasswordProof t.params.passwordHash proof = .ok () ↔
      proof = t.params.passwordHash) ∧
    ((∀ (o : Observation) req, req.tableId = tid →
        req.passwordProof = o.eval sha256 t.params →
        (sit (run handle (State.genesis env balances) messages) req).isOk = false) ↔
      ∀ req, req.tableId = tid →
        ¬ Admits (run handle (State.genesis env balances) messages) t req) := by
  have hlength := (reachable_standing hget).params.password hlocked
  have hproof : ∀ proof, checkPasswordProof t.params.passwordHash proof = .ok () ↔
      proof = t.params.passwordHash :=
    fun proof => checkPasswordProof_ok_iff hlocked hlength
  refine ⟨hproof, ?_, ?_⟩
  · intro hprotected req hreq hadmits
    -- The observer copies the stored digest into its own request.
    have hrejected := hprotected .hash { req with passwordProof := t.params.passwordHash }
      hreq rfl
    have haccepted : (sit (run handle (State.genesis env balances) messages)
        { req with passwordProof := t.params.passwordHash }).isOk = true := by
      apply (sit_isOk_iff { req with passwordProof := t.params.passwordHash } hget hreq).mpr
      constructor
      · exact (hproof _).mpr rfl
      · exact ⟨hadmits.unseated, hadmits.seat, hadmits.buyIn, hadmits.key, hadmits.fits,
          hadmits.paid⟩
    exact Bool.false_ne_true (hrejected.symm.trans haccepted)
  · intro hclosed o req hreq _
    rw [← Bool.not_eq_true, sit_isOk_iff _ hget hreq]
    exact fun hok => hclosed req hreq hok.2

def lockedTable : MsgCreateTable :=
  ⟨"gm", 1, 2, 1, 1000, 30, 120, 0, 0, 9, "table", List.replicate 32 7,
    List.replicate 32 5⟩

theorem lockedTable_stored :
    ∃ t ∈ (run handle (State.genesis ledgerEnv (0 : Nat)) [.createTable lockedTable]).getTable 1,
      t.params.passwordHash = List.replicate 32 7 := by
  decide +kernel

theorem lockedTable_proofs :
    ∃ t, (run handle (State.genesis ledgerEnv (0 : Nat))
        [.createTable lockedTable]).getTable 1 = some t ∧
      t.params.passwordHash ≠ [] ∧
      ∀ proof, checkPasswordProof t.params.passwordHash proof = .ok () ↔
        proof = List.replicate 32 7 := by
  obtain ⟨t, ht, hhash⟩ := lockedTable_stored
  have hlocked : t.params.passwordHash ≠ [] := by
    rw [hhash]
    decide
  refine ⟨t, ht, hlocked, ?_⟩
  rw [← hhash]
  exact (password_protects_iff ledgerEnv (0 : Nat) [.createTable lockedTable] id ht
    hlocked).1

def outsiderSits : MsgSit := ⟨"eve", 1, 100, List.replicate 32 1, List.replicate 32 7⟩

theorem lockedTable_open :
    ∃ t, (run handle (State.genesis ledgerEnv (0 : Nat))
        [.createTable lockedTable]).getTable 1 = some t ∧
      t.params.passwordHash ≠ [] ∧
      (∀ sha256 : Bytes → Bytes,
        outsiderSits.passwordProof = Observation.hash.eval sha256 t.params) ∧
      (sit (run handle (State.genesis ledgerEnv (0 : Nat)) [.createTable lockedTable])
        outsiderSits).isOk = true := by
  obtain ⟨t, ht, hhash⟩ := lockedTable_stored
  refine ⟨t, ht, ?_, fun _ => hhash.symm, by decide +kernel⟩
  rw [hhash]
  decide

end OnChainPoker.Poker
