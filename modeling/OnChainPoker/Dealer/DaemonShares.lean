import OnChainPoker.Crypto.ShuffleComplete
import OnChainPoker.Dealer.DaemonCommit

/-!
# The daemon's shares of a card

The daemon of a member computes its shares in TypeScript: encrypted ones of the hole
cards and a public one of a card to reveal (`handlers/encshares.ts`,
`handlers/pubshares.ts`).  Hash and group are those of the chain; the scalars are
numbers, reduced and written out by `ocp-crypto` itself.
-/

namespace OnChainPoker.Dealer

open Foundation Crypto
open Poker (SeatIdx Seats unsetPos)

/-! ## The handlers -/

/-- A number that `Number` represents exactly. -/
abbrev SafeInteger := { n : Nat // n < 2 ^ 53 }

namespace ShareDaemon

/-- The loop over `x & 0xffn` and `x >>= 8n`. -/
def bytesLE : Nat → Int → Bytes
  | 0, _ => []
  | width + 1, x => UInt8.ofNat (x % 256).toNat :: bytesLE width (x / 256)

def u64le (v : SafeInteger) : Bytes := bytesLE 8 v.1

def i64le (v : Int) : Bytes := bytesLE 8 (if v < 0 then v + 2 ^ 64 else v)

variable {S : Suite}

def scalarFromBytesModOrder (b : Bytes) : S.Scalar := leNat b

def scalarToBytes (s : S.Scalar) : Bytes := bytesLE 32 s.val

def hashToScalar (domainSep : String) (msgs : List Bytes) : S.Scalar :=
  scalarFromBytesModOrder <| S.sha512 <|
    stringBytes "OCPv1|hash_to_scalar|" ++ lenBytes (stringBytes domainSep) ++
      msgs.flatMap lenBytes

def challengeScalar (domainSep : String) (points : List (String × S.Point)) : S.Scalar :=
  scalarFromBytesModOrder <| S.sha512 <|
    (newTranscript domainSep).appendMessages
      (points.map fun entry => (entry.1, S.pointBytes entry.2)) ++
      stringBytes "challenge" ++ lenBytes (stringBytes "e")

/-- The nonces are not zero, as `encShareProve` demands. -/
def encShareProve (y c1 pkP u v : S.Point) (x r : S.Scalar)
    (wx wr : { w : S.Scalar // w ≠ 0 }) : S.ShareProof :=
  let a1 := S.mulBase wx
  let a2 := S.mulBase wr
  let a3 := wx.1 • c1 + wr.1 • pkP
  let e := challengeScalar "ocp/v1/dealer/encshare"
    [("Y", y), ("C1", c1), ("PKP", pkP), ("U", u), ("V", v),
      ("A1", a1), ("A2", a2), ("A3", a3)]
  ⟨a1, a2, a3, wx + e * x, wr + e * r⟩

def encodeEncShareProof (p : S.ShareProof) : Bytes :=
  S.pointBytes p.a1 ++ S.pointBytes p.a2 ++ S.pointBytes p.a3 ++
    scalarToBytes p.sx ++ scalarToBytes p.sr

def chaumPedersenProve (y c1 d : S.Point) (x w : S.Scalar) : S.ChaumPedersenProof :=
  let a := S.mulBase w
  let b := w • c1
  let e := challengeScalar "ocp/v1/chaum-pedersen-eqdl"
    [("y", y), ("c1", c1), ("d", d), ("a", a), ("b", b)]
  ⟨a, b, w + e * x⟩

def encodeChaumPedersenProof (p : S.ChaumPedersenProof) : Bytes :=
  S.pointBytes p.a ++ S.pointBytes p.b ++ scalarToBytes p.s

/-- What both handlers derive; without a share or with another salt they give up. -/
def xHand (secretShare : S.Scalar) (epochId tableId handId : SafeInteger)
    (dh : DealerHand) : Option S.Scalar :=
  if secretShare = 0 ∨ dh.initHashSalt.length ≠ 32 then none
  else some (secretShare * hashToScalar "ocp/v1/dealer/hand-derive/v2"
    [u64le epochId, u64le tableId, u64le handId, i64le dh.initHeight, dh.initHashSalt])

variable (validator : String) (secretShare : S.Scalar)
  (epochId tableId handId : SafeInteger) (dh : DealerHand)

/-- The body of the loop over seats and cards. -/
def encShareFor (deck : List S.ElGamalCiphertext) (x : S.Scalar) (pkPlayer : Bytes)
    (pkP : S.Point) (pos : Nat) (draws : Draws S) : Option MsgSubmitEncShare :=
  if pos = unsetPos then none
  else deck[pos]?.map fun cipher =>
    let r : S.Scalar := draws 0
    let u := S.mulBase r
    let v := x • cipher.c1 + r • pkP
    let proof := encShareProve (S.mulBase x) cipher.c1 pkP u v x r (draws 1) (draws 2)
    ⟨validator, tableId.1, handId.1, pos, pkPlayer, S.pointBytes u ++ S.pointBytes v,
      encodeEncShareProof proof⟩

def handleEncShares (seats : Seats) (holePos : SeatIdx → Fin 2 → Nat)
    (draws : SeatIdx → Fin 2 → Draws S) : Except String (List MsgSubmitEncShare) :=
  match xHand secretShare epochId tableId handId dh with
  | none => pure []
  | some x => do
    let deck ← dh.deck.mapM (decodeDeckCiphertext S)
    pure ((List.finRange 9).flatMap fun seat =>
      if (seats seat).player = "" then []
      else match S.pointFromBytesCanonical (seats seat).pk with
      | .error _ => []
      | .ok pkP => (List.finRange 2).filterMap fun card =>
          encShareFor validator tableId handId deck x (seats seat).pk pkP
            (holePos seat card) (draws seat card))

def handlePubShare (pos : Nat) (w : S.Scalar) :
    Except String (Option MsgSubmitPubShare) :=
  match xHand secretShare epochId tableId handId dh with
  | none => pure none
  | some x => do
    let deck ← dh.deck.mapM (decodeDeckCiphertext S)
    pure (deck[pos]?.map fun cipher =>
      let d := x • cipher.c1
      let proof := chaumPedersenProve (S.mulBase x) cipher.c1 d x w
      ⟨validator, tableId.1, handId.1, pos, S.pointBytes d,
        encodeChaumPedersenProof proof⟩)

section Sends

variable {validator secretShare dh} {tableId handId} {deck : List S.ElGamalCiphertext}

theorem encShareFor_some {pos : Nat} (hset : pos ≠ unsetPos) (hpos : pos < deck.length)
    (x : S.Scalar) (pkPlayer : Bytes) (pkP : S.Point) (draws : Draws S) :
    ∃ req, encShareFor validator tableId handId deck x pkPlayer pkP pos draws = some req ∧
      req.pos = pos ∧ req.pkPlayer = pkPlayer := by
  rw [encShareFor, if_neg hset, List.getElem?_eq_getElem hpos]
  exact ⟨_, rfl, rfl, rfl⟩

theorem mem_handleEncShares {epochId : SafeInteger} {seats : Seats}
    {holePos : SeatIdx → Fin 2 → Nat} {draws : SeatIdx → Fin 2 → Draws S}
    {sent : List MsgSubmitEncShare} {req : MsgSubmitEncShare} (hreq : req ∈ sent)
    (hsent : handleEncShares validator secretShare epochId tableId handId dh seats holePos
      draws = .ok sent) :
    ∃ x deck seat card pkP, xHand secretShare epochId tableId handId dh = some x ∧
      dh.deck.mapM (decodeDeckCiphertext S) = .ok deck ∧
      S.pointFromBytesCanonical (seats seat).pk = .ok pkP ∧
      encShareFor validator tableId handId deck x (seats seat).pk pkP (holePos seat card)
        (draws seat card) = some req := by
  unfold handleEncShares at hsent
  split at hsent
  · cases hsent
    cases hreq
  · rename_i x hx
    simp only [ok_iff] at hsent
    obtain ⟨deck, hdeck, rfl⟩ := hsent
    obtain ⟨seat, -, hseat⟩ := List.mem_flatMap.mp hreq
    split at hseat
    · cases hseat
    · split at hseat
      · cases hseat
      · rename_i pkP hpkP
        obtain ⟨card, -, hbuilt⟩ := List.mem_filterMap.mp hseat
        exact ⟨x, deck, seat, card, pkP, hx, hdeck, hpkP, hbuilt⟩

variable (hsecret : secretShare ≠ 0) (hsalt : dh.initHashSalt.length = 32)
  (hdeck : dh.deck.mapM (decodeDeckCiphertext S) = .ok deck)
include hsecret hsalt hdeck

theorem handleEncShares_sends (seats : Seats) (holePos : SeatIdx → Fin 2 → Nat)
    (draws : SeatIdx → Fin 2 → Draws S) :
    ∃ sent, handleEncShares validator secretShare epochId tableId handId dh seats holePos
        draws = .ok sent ∧
      ∀ seat card, (seats seat).player ≠ "" →
        (S.pointFromBytesCanonical (seats seat).pk).isOk = true →
        holePos seat card ≠ unsetPos → holePos seat card < dh.deck.length →
        ∃ req ∈ sent, req.pos = holePos seat card ∧ req.pkPlayer = (seats seat).pk := by
  rw [handleEncShares, xHand, if_neg (by simp [hsecret, hsalt])]
  dsimp only
  rw [hdeck, ok_bind]
  refine ⟨_, rfl, fun seat card hplayer hkey hset hpos => ?_⟩
  obtain ⟨pkP, hpkP⟩ := isOk_iff.mp hkey
  rw [(mapM_eq_ok_iff.mp hdeck).length_eq] at hpos
  obtain ⟨req, hreq, hbuilt⟩ := encShareFor_some hset hpos _ (seats seat).pk pkP (draws seat card)
  refine ⟨req, List.mem_flatMap.mpr ⟨seat, List.mem_finRange seat, ?_⟩, hbuilt⟩
  rw [if_neg hplayer, hpkP]
  exact List.mem_filterMap.mpr ⟨card, List.mem_finRange card, hreq⟩

theorem handlePubShare_sends {pos : Nat} (hpos : pos < dh.deck.length) (w : S.Scalar) :
    ∃ req, handlePubShare validator secretShare epochId tableId handId dh pos w =
      .ok (some req) ∧ req.pos = pos := by
  rw [(mapM_eq_ok_iff.mp hdeck).length_eq] at hpos
  rw [handlePubShare, xHand, if_neg (by simp [hsecret, hsalt])]
  dsimp only
  rw [hdeck, ok_bind, List.getElem?_eq_getElem hpos]
  exact ⟨_, rfl, rfl⟩

end Sends

/-! ## Both sides compute the same -/

/-- SHA-512 digests are reduced as numbers, and scalars are written in 32 bytes. -/
structure SameScalars (S : Suite) : Prop where
  reduce : ∀ text, S.fromUniformBytes (S.sha512 text) = (leNat (S.sha512 text) : S.Scalar)
  bytes : ∀ x : S.Scalar, S.scalarBytes x = leBytes 32 x.val

theorem bytesLE_natCast (width x : Nat) : bytesLE width x = leBytes width x := by
  induction width generalizing x with
  | zero => rfl
  | succ width ih =>
    have hbyte : ((x : Int) % 256).toNat = x % 256 := by omega
    have hrest : (x : Int) / 256 = (x / 256 : Nat) := by omega
    rw [bytesLE, leBytes, hbyte, hrest, ih]
    congr 1
    exact UInt8.toNat_inj.mp (by simp)

theorem i64le_eq {v : Int} (hlow : -2 ^ 63 ≤ v) (hhigh : v < 2 ^ 63) : i64le v = leInt64 v := by
  have hwrap : (if v < 0 then v + 2 ^ 64 else v) = ((v % 2 ^ 64).toNat : Int) := by split <;> omega
  rw [i64le, hwrap, bytesLE_natCast]
  rfl

variable (hsame : SameScalars S)
include hsame

theorem scalarToBytes_eq (s : S.Scalar) : scalarToBytes s = S.scalarBytes s := by
  rw [scalarToBytes, bytesLE_natCast, hsame.bytes]

theorem scalarFromUniformBytes_sha512 (text : Bytes) :
    S.scalarFromUniformBytes (S.sha512 text) = .ok (scalarFromBytesModOrder (S.sha512 text)) := by
  rw [Suite.scalarFromUniformBytes, rejectIf_bind (by simp [S.sha512_length]), hsame.reduce]
  rfl

theorem hashToScalar_eq (domainSep : String) (msgs : List Bytes) :
    S.hashToScalar domainSep msgs = .ok (hashToScalar domainSep msgs) :=
  scalarFromUniformBytes_sha512 hsame _

theorem pointsChallenge_eq (domainSep : String) (points : List (String × S.Point)) :
    S.pointsChallenge (newTranscript domainSep) points =
      .ok (challengeScalar domainSep points) := by
  simp only [Suite.pointsChallenge, Suite.challengeScalar,
    scalarFromUniformBytes_sha512 hsame, ok_bind]
  rfl

theorem encShareVerify_prove (c1 pkP : S.Point) (x r : S.Scalar)
    (wx wr : { w : S.Scalar // w ≠ 0 }) :
    Suite.encShareVerify (S.mulBase x) c1 pkP (S.mulBase r) (x • c1 + r • pkP)
      (encShareProve (S.mulBase x) c1 pkP (S.mulBase r) (x • c1 + r • pkP) x r wx wr) =
        .ok true := by
  rw [Suite.encShareVerify, Suite.encShareDomain, pointsChallenge_eq hsame, ok_bind]
  refine congrArg Except.ok ?_
  simp only [Bool.and_eq_true, decide_eq_true_eq]
  dsimp only [encShareProve, Suite.mulBase]
  refine ⟨⟨?_, ?_⟩, ?_⟩ <;> module

theorem chaumPedersenVerify_prove (c1 : S.Point) (x w : S.Scalar) :
    Suite.chaumPedersenVerify (S.mulBase x) c1 (x • c1)
      (chaumPedersenProve (S.mulBase x) c1 (x • c1) x w) = .ok true := by
  rw [Suite.chaumPedersenVerify, Suite.chaumPedersenDomain, pointsChallenge_eq hsame, ok_bind]
  refine congrArg Except.ok ?_
  simp only [Bool.and_eq_true, decide_eq_true_eq]
  dsimp only [chaumPedersenProve, Suite.mulBase]
  constructor <;> module

theorem decodeEncShareProof_encode (p : S.ShareProof) :
    S.decodeEncShareProof (encodeEncShareProof p) = .ok p := by
  simp [Suite.decodeEncShareProof, Suite.decodeShareProof, encodeEncShareProof,
    scalarToBytes_eq hsame, Suite.chunk, S.pointBytes_length, S.scalarBytes_length,
    List.drop_append, List.drop_eq_nil_of_le, List.take_of_length_le,
    Suite.scalarFromBytesCanonical_scalarBytes]

theorem decodeChaumPedersenProof_encode (p : S.ChaumPedersenProof) :
    S.decodeChaumPedersenProof (encodeChaumPedersenProof p) = .ok p := by
  simp [Suite.decodeChaumPedersenProof, encodeChaumPedersenProof, scalarToBytes_eq hsame,
    Suite.chunk, S.pointBytes_length, S.scalarBytes_length, List.drop_append,
    List.drop_eq_nil_of_le, List.take_of_length_le, Suite.scalarFromBytesCanonical_scalarBytes]

theorem handShareKey_eq {secretShare x : S.Scalar} {epochId tableId handId : SafeInteger}
    {dh : DealerHand} {mem : DealerMember} (hepoch : dh.epochId = epochId.1)
    (hlow : -2 ^ 63 ≤ dh.initHeight) (hhigh : dh.initHeight < 2 ^ 63)
    (hshare : S.pointFromBytesCanonical mem.pubShare = .ok (S.mulBase secretShare))
    (hx : xHand secretShare epochId tableId handId dh = some x) :
    handShareKey S dh tableId.1 handId.1 mem = .ok (S.mulBase x) := by
  unfold xHand at hx
  split at hx
  · cases hx
  · rename_i hgood
    push Not at hgood
    have hscalar : deriveHandScalar S dh.epochId tableId.1 handId.1 dh.initHeight
        dh.initHashSalt = .ok (hashToScalar "ocp/v1/dealer/hand-derive/v2"
          [u64le epochId, u64le tableId, u64le handId, i64le dh.initHeight, dh.initHashSalt]) := by
      simp only [u64le, bytesLE_natCast, i64le_eq hlow hhigh, ← hashToScalar_eq hsame]
      rw [deriveHandScalar, rejectIf_bind (by simp [hgood.2]), hepoch]
      rfl
    cases hx
    simp only [handShareKey, hscalar, decodePoint, hshare, Except.mapError, ok_bind]
    rw [Suite.mulBase, Suite.mulBase, smul_smul, mul_comm]
    rfl

end ShareDaemon

def PubShareVerified (S : Suite) (tableID handID : Nat) (dh : DealerHand)
    (mem : DealerMember) (req : MsgSubmitPubShare) : Prop :=
  ∃ card yHand c1 share proof, dh.deck[req.pos]? = some card ∧
    handShareKey S dh tableID handID mem = .ok yHand ∧
    S.pointFromBytesCanonical card.c1 = .ok c1 ∧
    S.pointFromBytesCanonical req.pubShare = .ok share ∧
    S.decodeChaumPedersenProof req.proofShare = .ok proof ∧
    Suite.chaumPedersenVerify yHand c1 share proof = .ok true

theorem decodedDeck_getElem? {S : Suite} {cards : List DealerCiphertext}
    {deck : List S.ElGamalCiphertext} {pos : Nat} {cipher : S.ElGamalCiphertext}
    (hdeck : cards.mapM (decodeDeckCiphertext S) = .ok deck) (hcipher : deck[pos]? = some cipher) :
    ∃ card, cards[pos]? = some card ∧ S.pointFromBytesCanonical card.c1 = .ok cipher.c1 := by
  have hlt := (List.getElem?_eq_some_iff.mp hcipher).1
  rw [← (mapM_eq_ok_iff.mp hdeck).length_eq] at hlt
  have hcard := List.getElem?_eq_getElem hlt
  obtain ⟨cipher', hcipher', hdecode⟩ := mapM_getElem? hdeck hcard
  cases hcipher.symm.trans hcipher'
  simp only [decodeDeckCiphertext, ok_iff] at hdecode
  obtain ⟨c1, hc1, c2, -, rfl⟩ := hdecode
  exact ⟨_, hcard, hc1⟩

open ShareDaemon in
/-- Every share that a daemon builds from the secret behind its member's public share has
the form and passes the proof checks of the chain.  It builds one for each card that it is
asked for if the deck and the player's key decode. -/
theorem daemon_shares_verify (S : Suite) (hsame : SameScalars S) (validator : String)
    (secretShare : S.Scalar) (epochId tableId handId : SafeInteger) (dh : DealerHand)
    (mem : DealerMember) (hepoch : dh.epochId = epochId.1)
    (hlow : -2 ^ 63 ≤ dh.initHeight) (hhigh : dh.initHeight < 2 ^ 63)
    (hshare : S.pointFromBytesCanonical mem.pubShare = .ok (S.mulBase secretShare)) :
    (∀ seats holePos draws sent, handleEncShares validator secretShare epochId tableId
        handId dh seats holePos draws = .ok sent → ∀ req ∈ sent,
      req.pkPlayer.length = 32 ∧ req.encShare.length = 64 ∧
      req.proofEncShare.length = 160 ∧
      EncShareVerified S tableId.1 handId.1 dh mem ⟨req.pos, req.validator, mem.index,
        req.pkPlayer, req.encShare, req.proofEncShare⟩) ∧
    (∀ pos w req, handlePubShare validator secretShare epochId tableId handId dh pos w =
        .ok (some req) →
      req.pubShare.length = 32 ∧ req.proofShare.length = 96 ∧
      PubShareVerified S tableId.1 handId.1 dh mem req) ∧
    (secretShare ≠ 0 → dh.initHashSalt.length = 32 →
      (dh.deck.mapM (decodeDeckCiphertext S)).isOk = true →
      (∀ seats holePos draws, ∃ sent, handleEncShares validator secretShare epochId tableId
          handId dh seats holePos draws = .ok sent ∧
        ∀ seat card, (seats seat).player ≠ "" →
          (S.pointFromBytesCanonical (seats seat).pk).isOk = true →
          holePos seat card ≠ unsetPos → holePos seat card < dh.deck.length →
          ∃ req ∈ sent, req.pos = holePos seat card ∧ req.pkPlayer = (seats seat).pk) ∧
      ∀ pos w, pos < dh.deck.length → ∃ req, handlePubShare validator secretShare epochId
        tableId handId dh pos w = .ok (some req) ∧ req.pos = pos) := by
  refine ⟨?_, ?_, fun hsecret hsalt hdecodes => ?_⟩
  rotate_right
  · obtain ⟨deck, hdeck⟩ := isOk_iff.mp hdecodes
    exact ⟨handleEncShares_sends epochId hsecret hsalt hdeck,
      fun pos w hpos => handlePubShare_sends epochId hsecret hsalt hdeck hpos w⟩
  · intro seats holePos draws sent hsent req hreq
    obtain ⟨x, deck, seat, card, pkP, hx, hdeck, hpkP, hbuilt⟩ := mem_handleEncShares hreq hsent
    simp only [encShareFor, Option.ite_none_left_eq_some, Option.map_eq_some_iff] at hbuilt
    obtain ⟨-, cipher, hcipher, rfl⟩ := hbuilt
    obtain ⟨entry, hentry, hc1⟩ := decodedDeck_getElem? hdeck hcipher
    have hlength : (seats seat).pk.length = 32 := by
      rw [← S.pointFromBytesCanonical_eq_ok.mp hpkP]
      exact S.pointBytes_length pkP
    refine ⟨hlength, by simp [S.pointBytes_length], ?_, ?_⟩
    · simp [encodeEncShareProof, scalarToBytes_eq hsame, S.pointBytes_length,
        S.scalarBytes_length]
    · exact ⟨entry, _, _, pkP, _, _, _, hentry,
        handShareKey_eq hsame hepoch hlow hhigh hshare hx, hc1, hpkP,
        by simp [S.pointBytes_length], by simp [S.pointBytes_length],
        decodeEncShareProof_encode hsame _, encShareVerify_prove hsame _ _ _ _ _ _⟩
  · intro pos w req hsent
    unfold handlePubShare at hsent
    split at hsent
    · cases hsent
    · rename_i x hx
      simp only [ok_iff, Option.map_eq_some_iff] at hsent
      obtain ⟨deck, hdeck, cipher, hcipher, rfl⟩ := hsent
      obtain ⟨entry, hentry, hc1⟩ := decodedDeck_getElem? hdeck hcipher
      refine ⟨S.pointBytes_length _, ?_, ?_⟩
      · simp [encodeChaumPedersenProof, scalarToBytes_eq hsame, S.pointBytes_length,
          S.scalarBytes_length]
      · exact ⟨entry, _, _, _, _, hentry,
          handShareKey_eq hsame hepoch hlow hhigh hshare hx, hc1,
          S.pointFromBytesCanonical_pointBytes _, decodeChaumPedersenProof_encode hsame _,
          chaumPedersenVerify_prove hsame _ _ _⟩

theorem residueSuite_sameScalars : ShareDaemon.SameScalars residueSuite where
  reduce := fun _ => (by decide +kernel :
    (1 : ZMod 53) = (leNat (1 :: List.replicate 63 0) : ZMod 53))
  bytes := by decide +kernel

def oneCardHand : DealerHand :=
  ⟨1, [], 1, [⟨residueBytes 3, residueBytes 5⟩], 0, true, 0, 0, [], [], [], 7,
    List.replicate 32 0⟩

theorem oneCardHand_verifies :
    (∃ sent, ShareDaemon.handleEncShares (S := residueSuite) "A" (2 : ZMod 53)
        ⟨1, by decide⟩ ⟨4, by decide⟩ ⟨9, by decide⟩ oneCardHand
        (Function.update (fun _ => Poker.emptySeat) 0
          { Poker.emptySeat with player := "P", pk := residueBytes 6 })
        (fun _ _ => 0) (fun _ _ => unitDraws) = .ok sent ∧ sent.length = 2 ∧
      ∀ req ∈ sent, EncShareVerified residueSuite 4 9 oneCardHand
        ⟨"A", 1, residueBytes 2, [], 1, []⟩
        ⟨req.pos, req.validator, 1, req.pkPlayer, req.encShare, req.proofEncShare⟩) ∧
    ∃ req, ShareDaemon.handlePubShare (S := residueSuite) "A" (2 : ZMod 53)
        ⟨1, by decide⟩ ⟨4, by decide⟩ ⟨9, by decide⟩ oneCardHand 0 (1 : ZMod 53) =
          .ok (some req) ∧
      PubShareVerified residueSuite 4 9 oneCardHand
        ⟨"A", 1, residueBytes 2, [], 1, []⟩ req := by
  obtain ⟨henc, hpub, hsends⟩ := daemon_shares_verify residueSuite residueSuite_sameScalars "A"
    (2 : ZMod 53) ⟨1, by decide⟩ ⟨4, by decide⟩ ⟨9, by decide⟩ oneCardHand
    ⟨"A", 1, residueBytes 2, [], 1, []⟩ rfl (by decide) (by decide) (by decide +kernel)
  obtain ⟨-, hpublic⟩ := hsends (by decide : (2 : ZMod 53) ≠ 0) rfl (by decide +kernel)
  constructor
  · refine ⟨_, rfl, by decide +kernel, fun req hreq => ?_⟩
    exact (henc _ _ _ _ rfl req hreq).2.2.2
  · obtain ⟨req, hreq, -⟩ := hpublic 0 1 (by decide)
    exact ⟨req, hreq, (hpub 0 _ _ hreq).2.2⟩

end OnChainPoker.Dealer
