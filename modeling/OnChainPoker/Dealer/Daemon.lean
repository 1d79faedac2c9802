import OnChainPoker.Dealer.System

/-!
# The DKG handlers of the dealer daemon

Every member of a committee runs a daemon.  It polls the record of the DKG and answers
with transactions: a commit to a polynomial, the encrypted shares, complaints and, where
it is complained about, reveals (`handlers/dkg.ts`, in the order of `pollOnce`).

A handler prepares its transactions from what it has fetched and sends them one after
another, while the chain and the other daemons go on.  So a daemon has an outbox, and in
the network of chain and daemons anything may happen between two transactions.  The
random scalars of a handler are arguments; encryption with AES-GCM is external code.
-/

namespace OnChainPoker.Dealer

open Foundation Crypto
open Poker (Block)

/-! ## Shares -/

section Shares

variable {S : Suite}

def evalPoly (coeffs : List S.Scalar) (x : S.Scalar) : S.Scalar :=
  (coeffs.foldl (fun (state : S.Scalar × S.Scalar) a =>
    (state.1 + a * state.2, state.2 * x)) (0, 1)).1

def dkgEncShareProve (commitments : List S.Point) (j : Nat) (pkR u v : S.Point)
    (s r ws wr : S.Scalar) : Except String S.ShareProof := do
  rejectIf (ws = 0 ∨ wr = 0) "dkgEncShareProve: nonces must be non-zero"
  rejectIf (commitments = []) "dkgEncShareProve: commitments must be a non-empty array"
  rejectIf (j < 1 ∨ j > 0xffffffff) "dkgEncShareProve: j must be a uint32 >= 1"
  let a1 := S.mulBase ws
  let a2 := S.mulBase wr
  let a3 := S.mulBase ws + wr • pkR
  let t := (newTranscript Suite.dkgEncShareDomain).appendMessages
    ([("t", u32le commitments.length)] ++ S.commitmentMessages commitments ++
      [("j", u32le j)])
  let e ← S.pointsChallenge t
    [("pkR", pkR), ("U", u), ("V", v), ("A1", a1), ("A2", a2), ("A3", a3)]
  pure ⟨a1, a2, a3, ws + e * s, wr + e * r⟩

def encodeDkgEncShareProof (proof : S.ShareProof) : Bytes :=
  S.pointBytes proof.a1 ++ S.pointBytes proof.a2 ++ S.pointBytes proof.a3 ++
    S.scalarBytes proof.sx ++ S.scalarBytes proof.sr

abbrev Seal := (key nonce plaintext aad : Bytes) → Bytes

def encryptShareScalar (aesGcmSeal : Seal) (pkR : S.Point) (r s : S.Scalar)
    (proofBytes : Bytes) : Except String Bytes := do
  let ct := aesGcmSeal (S.deriveScalarAeadKey (r • pkR)) (List.replicate 12 0)
    (S.scalarBytes s) proofBytes
  rejectIf (ct.length ≠ 48) s!"encryptShareScalar: unexpected ct length {ct.length}"
  pure ct

end Shares

/-! ## The daemon -/

def sameAddress (a b : String) : Bool :=
  a.toList.map Char.toLower = b.toList.map Char.toLower

structure EpochSecrets (S : Suite) where
  validatorIndex : Nat
  polyCoeffs : List S.Scalar
  ephemeralSk : S.Scalar

structure Tx (S : Suite) where
  msg : DkgMsg
  saves : Option (Nat × EpochSecrets S)

inductive Handler where
  | commit
  | encryptedShares
  | complaints
  | reveals

/-- The epoch, its members and the record are those that the poll has fetched. -/
structure Daemon (S : Suite) where
  validatorAddress : String
  threshold : Nat
  store : Store Nat (EpochSecrets S)
  epochId : Nat
  members : List DealerMember
  fetched : Option DealerDKG
  next : Handler
  outbox : List (Tx S)

def Daemon.start (S : Suite) (validatorAddress : String) (threshold : Nat) : Daemon S :=
  ⟨validatorAddress, threshold, ∅, 0, [], none, .commit, []⟩

def parseMembersFromEpoch (dkg : DealerDKG) : List DealerMember :=
  dkg.members.filter (·.validator ≠ "")

abbrev Draws (S : Suite) := Nat → { x : S.Scalar // x ≠ 0 }

section Handlers

variable {S : Suite} (aesGcmSeal : Seal) (daemon : Daemon S) (draws : Draws S)

def handleDkgCommit : List (Tx S) :=
  match daemon.store.lookup daemon.epochId,
      daemon.members.find? (sameAddress ·.validator daemon.validatorAddress) with
  | none, some myMember =>
    let polyCoeffs : List S.Scalar := (List.range daemon.threshold).map (draws ·)
    let ephemeralSk : S.Scalar := draws daemon.threshold
    [⟨.dkgCommit ⟨daemon.validatorAddress, daemon.epochId,
        polyCoeffs.map fun c => S.pointBytes (S.mulBase c),
        S.pointBytes (S.mulBase ephemeralSk)⟩,
      some (daemon.epochId, ⟨myMember.index, polyCoeffs, ephemeralSk⟩)⟩]
  | _, _ => []

def encryptedShareFor (polyCoeffs : List S.Scalar) (commitments : List S.Point)
    (recipient : DealerMember) (pkR : S.Point) (draw : Nat) : Except String DkgMsg := do
  let s := evalPoly polyCoeffs recipient.index
  let r : S.Scalar := draws draw
  let u := S.mulBase r
  let v := S.mulBase s + r • pkR
  let proof ← dkgEncShareProve commitments recipient.index pkR u v s r
    (draws (draw + 1)) (draws (draw + 2))
  let proofBytes := encodeDkgEncShareProof proof
  let scalarCt ← encryptShareScalar aesGcmSeal pkR r s proofBytes
  pure (.dkgEncryptedShare ⟨daemon.validatorAddress, daemon.epochId, recipient.index,
    S.pointBytes u, S.pointBytes v, proofBytes, scalarCt⟩)

def encryptedShareTxs (dkg : DealerDKG) (polyCoeffs : List S.Scalar)
    (commitments : List S.Point) : (draw : Nat) → List DealerMember → List (Tx S)
  | _, [] => []
  | draw, recipient :: rest =>
    if sameAddress recipient.validator daemon.validatorAddress ||
        dkg.encryptedShares.any fun es =>
          sameAddress es.dealer daemon.validatorAddress &&
            es.recipientIndex = recipient.index then
      encryptedShareTxs dkg polyCoeffs commitments draw rest
    else
      match S.pointFromBytesCanonical recipient.ephemeralPubkey with
      | .error _ => encryptedShareTxs dkg polyCoeffs commitments draw rest
      | .ok pkR =>
        match encryptedShareFor aesGcmSeal daemon draws polyCoeffs commitments
            recipient pkR draw with
        | .error _ => []
        | .ok msg =>
          ⟨msg, none⟩ :: encryptedShareTxs dkg polyCoeffs commitments (draw + 3) rest

def handleDkgEncryptedShares (dkg : DealerDKG) : List (Tx S) :=
  match daemon.store.lookup daemon.epochId,
      (parseMembersFromEpoch dkg).find?
        (sameAddress ·.validator daemon.validatorAddress),
      dkg.commits.find? (sameAddress ·.dealer daemon.validatorAddress) with
  | some secrets, some _, some myCommit =>
    match myCommit.commitments.mapM S.pointFromBytesCanonical with
    | .error _ => []
    | .ok commitments =>
      if secrets.polyCoeffs = [] then []
      else encryptedShareTxs aesGcmSeal daemon draws dkg secrets.polyCoeffs
        commitments 0 (parseMembersFromEpoch dkg)
  | _, _, _ => []

def handleDkgComplaints (dkg : DealerDKG) : List (Tx S) :=
  if dkg.commits.any (sameAddress ·.dealer daemon.validatorAddress) then
    (daemon.members.filter fun m =>
      !sameAddress m.validator daemon.validatorAddress &&
        (!dkg.complaints.any fun c =>
          sameAddress c.complainer daemon.validatorAddress &&
            sameAddress c.dealer m.validator) &&
        dkg.commits.any (sameAddress ·.dealer m.validator)).map fun m =>
      ⟨.dkgComplaintMissing ⟨daemon.validatorAddress, daemon.epochId, m.validator⟩, none⟩
  else []

def handleDkgReveals (dkg : DealerDKG) : List (Tx S) :=
  match daemon.store.lookup daemon.epochId with
  | none => []
  | some secrets =>
    (dkg.complaints.filter (sameAddress ·.dealer daemon.validatorAddress)).filterMap
      fun complaint =>
        if dkg.reveals.any fun r => sameAddress r.dealer daemon.validatorAddress &&
            sameAddress r.recipient complaint.complainer then none
        else
          (daemon.members.find? (sameAddress ·.validator complaint.complainer)).map
            fun m => ⟨.dkgShareReveal ⟨daemon.validatorAddress, daemon.epochId,
              complaint.complainer, S.scalarBytes (evalPoly secrets.polyCoeffs m.index)⟩,
              none⟩

/-- The next handler of `pollOnce` with the record of the chain; the complaints are about
the record that was fetched for the shares. -/
def Daemon.poll (dkg : Option DealerDKG) : Daemon S :=
  match daemon.next, dkg with
  | .commit, some dkg =>
    let members := parseMembersFromEpoch dkg
    if members ≠ [] ∧ dkg.epochId > 0 then
      let daemon := { daemon with epochId := dkg.epochId, members := members }
      { daemon with next := .encryptedShares, outbox := handleDkgCommit daemon draws }
    else daemon
  | .encryptedShares, some dkg =>
    { daemon with
      fetched := some dkg
      next := .complaints
      outbox := handleDkgEncryptedShares aesGcmSeal daemon draws dkg }
  | .complaints, _ =>
    { daemon with
      next := .reveals
      outbox := (daemon.fetched.map (handleDkgComplaints daemon)).getD [] }
  | .reveals, some dkg =>
    { daemon with next := .commit, outbox := handleDkgReveals daemon dkg }
  | _, none => { daemon with next := .commit }

end Handlers

/-! ## The network -/

structure Network (env : Env) where
  chain : Chain env
  daemon : String → Daemon env.suite

/-- A daemon runs its next handler, the first transaction of its outbox is put into a
block, or the chain receives a transaction that no handler sends. -/
inductive Event (env : Env) where
  | poll (name : String) (draws : Draws env.suite)
  | submit (name : String) (block : Block)
  | other (msg : Msg env)

section Network

variable {env : Env}

def Msg.fromHandler : Msg env → Bool
  | .dkg _ (.dkgCommit _) => true
  | .dkg _ (.dkgEncryptedShare _) => true
  | .dkg _ (.dkgComplaintMissing _) => true
  | .dkg _ (.dkgShareReveal _) => true
  | _ => false

def Daemon.save (daemon : Daemon env.suite) (tx : Tx env.suite) : Daemon env.suite :=
  { daemon with
    store := tx.saves.elim daemon.store fun saved => daemon.store.insert saved.1 saved.2 }

def Network.submit (n : Network env) (name : String) (block : Block) (tx : Tx env.suite)
    (rest : List (Tx env.suite)) : Network env :=
  let daemon := { n.daemon name with outbox := rest }
  match handle n.chain (.dkg block tx.msg) with
  | .ok chain => ⟨chain, Function.update n.daemon name (daemon.save tx)⟩
  | .error _ => ⟨n.chain, Function.update n.daemon name daemon⟩

def Network.handle (aesGcmSeal : Seal) (n : Network env) :
    Event env → Except Err (Network env)
  | .poll name draws => do
      rejectIf ((n.daemon name).outbox.isEmpty = false) (plain "still sending")
      let daemon := (n.daemon name).poll aesGcmSeal draws n.chain.dealer.dkg
      pure { n with daemon := Function.update n.daemon name daemon }
  | .submit name block =>
    match (n.daemon name).outbox with
    | [] => .error (plain "nothing to send")
    | tx :: rest => pure (n.submit name block tx rest)
  | .other msg => do
      rejectIf (msg.fromHandler = true) (plain "sent by a handler")
      let chain ← Dealer.handle n.chain msg
      pure { n with chain := chain }

def Network.genesis (env : Env) (balances : env.poker.bank.Balances)
    (staking : env.staking.Staking) (params : Params) (threshold : String → Nat) :
    Network env :=
  ⟨Chain.genesis env balances staking params,
    fun name => Daemon.start env.suite name (threshold name)⟩

end Network

end OnChainPoker.Dealer
