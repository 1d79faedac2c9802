import OnChainPoker.Crypto.Permutation
import OnChainPoker.Dealer.HandActs
import OnChainPoker.Foundation.Framing

/-!
# Shuffle proofs are for one place

The context of a shuffle proof is the table, the hand, the round and the shuffler. The Go
and the TypeScript code write the same bytes for it, different places have different
contexts, and the verifier compares the bytes in the proof with those of the place at
hand.
-/

namespace OnChainPoker.Dealer

open Foundation Crypto
open Poker (Block)

@[ext] structure ShufflePlace where
  tableId : Nat
  handId : Nat
  round : Nat
  shuffler : String
  tableId_lt : tableId < 2 ^ 64
  handId_lt : handId < 2 ^ 64
  round_lt : round < 2 ^ 16
  shuffler_le : (stringBytes shuffler).length ≤ 65535

def ShufflePlace.buildShuffleContext (place : ShufflePlace) : Except String Bytes :=
  Suite.buildShuffleContext place.tableId place.handId place.round place.shuffler

/-! ## The TypeScript builder -/

namespace Ts

def writeAt (out : Bytes) (off : Nat) (b : Bytes) : Bytes :=
  out.take off ++ b ++ out.drop (off + b.length)

def buildShuffleContext (tableId handId round : Int) (shuffler : String) :
    Except String Bytes := do
  rejectIf (tableId < 0 ∨ tableId > 0xffffffffffffffff)
    "buildShuffleContext: tableId out of range"
  rejectIf (handId < 0 ∨ handId > 0xffffffffffffffff)
    "buildShuffleContext: handId out of range"
  rejectIf (round < 0 ∨ round > 0xffff) "buildShuffleContext: round out of range"
  let shufflerBytes := stringBytes shuffler
  rejectIf (shufflerBytes.length > 0xffff) "buildShuffleContext: shuffler too long"
  let out := List.replicate (8 + 8 + 2 + 2 + shufflerBytes.length) 0
  let out := writeAt out 0 (u64le tableId.toNat)
  let out := writeAt out 8 (u64le handId.toNat)
  let out := writeAt out 16 (u16le round.toNat)
  let out := writeAt out 18 (u16le shufflerBytes.length)
  pure (writeAt out 20 shufflerBytes)

theorem writeAt_replicate {done b : Bytes} {off zeros left : Nat}
    (hoff : done.length = off) (hzeros : zeros = b.length + left) :
    writeAt (done ++ List.replicate zeros 0) off b = done ++ b ++ List.replicate left 0 := by
  subst hoff hzeros
  rw [writeAt, List.take_left, ← List.drop_drop, List.drop_left, List.drop_replicate,
    Nat.add_sub_cancel_left]

end Ts

section Places

variable {place place' : ShufflePlace} {context context' : Bytes}

theorem ShufflePlace.build_eq (place : ShufflePlace) :
    place.buildShuffleContext = .ok (u64le place.tableId ++ u64le place.handId ++
      u16le place.round ++ u16le (stringBytes place.shuffler).length ++
      stringBytes place.shuffler) := by
  have hlength := place.shuffler_le
  rw [buildShuffleContext, Suite.buildShuffleContext, rejectIf_bind (by omega)]
  rfl

theorem ShufflePlace.build_ts (place : ShufflePlace) :
    Ts.buildShuffleContext place.tableId place.handId place.round place.shuffler =
      place.buildShuffleContext := by
  have htable := place.tableId_lt
  have hhand := place.handId_lt
  have hround := place.round_lt
  have hlength := place.shuffler_le
  have hu64 : ∀ x, (u64le x).length = 8 := leBytes_length 8
  have hu16 : ∀ x, (u16le x).length = 2 := leBytes_length 2
  rw [place.build_eq, Ts.buildShuffleContext, rejectIf_bind (by omega),
    rejectIf_bind (by omega), rejectIf_bind (by omega)]
  dsimp only [Int.toNat_natCast]
  rw [rejectIf_bind (by omega)]
  have hfirst : Ts.writeAt
      (List.replicate (8 + 8 + 2 + 2 + (stringBytes place.shuffler).length) 0) 0
      (u64le place.tableId) = [] ++ u64le place.tableId ++
        List.replicate (8 + 2 + 2 + (stringBytes place.shuffler).length) 0 :=
    @Ts.writeAt_replicate [] _ _ _ _ rfl (by rw [hu64]; omega)
  rw [hfirst, List.nil_append, Ts.writeAt_replicate (hu64 _) (show _ = _ + (2 + 2 + (stringBytes
    place.shuffler).length) by rw [hu64]; omega), Ts.writeAt_replicate (by simp [hu64]) (show _ = _
    + (2 + (stringBytes place.shuffler).length) by rw [hu16]; omega), Ts.writeAt_replicate (by simp
    [hu64, hu16]) (show _ = _ + (stringBytes place.shuffler).length by rw [hu16]),
    Ts.writeAt_replicate (by simp [hu64, hu16]) (Nat.add_zero _).symm, List.replicate_zero,
    List.append_nil]
  rfl

theorem ShufflePlace.build_injective (hbuild : place.buildShuffleContext = .ok context)
    (hbuild' : place'.buildShuffleContext = .ok context) : place = place' := by
  rw [place.build_eq, Except.ok.injEq] at hbuild
  rw [place'.build_eq, Except.ok.injEq, ← hbuild] at hbuild'
  simp only [List.append_assoc] at hbuild'
  obtain ⟨htable, hbuild'⟩ := framed_leBytes 8 place'.tableId_lt place.tableId_lt hbuild'
  obtain ⟨hhand, hbuild'⟩ := framed_leBytes 8 place'.handId_lt place.handId_lt hbuild'
  obtain ⟨hround, hbuild'⟩ := framed_leBytes 2 place'.round_lt place.round_lt hbuild'
  obtain ⟨-, hshuffler⟩ := List.append_inj hbuild' (by simp [u16le])
  exact ShufflePlace.ext htable.symm hhand.symm hround.symm (stringBytes_injective hshuffler).symm

end Places

/-! ## The context in the proof -/

def carriedContext (proofBytes : Bytes) : Bytes :=
  (proofBytes.drop 7).take (leNat ((proofBytes.drop 5).take 2))

theorem takeBytes_ok {n : Nat} {rd first rest : Bytes}
    (hok : takeBytes n rd = .ok (first, rest)) : first = rd.take n ∧ rest = rd.drop n := by
  unfold takeBytes at hok
  split at hok
  · cases hok
  · cases hok
    exact ⟨rfl, rfl⟩

theorem checkVersion_some {version : Nat} {context : Bytes} {u : Unit}
    (hok : Suite.checkVersion version (some context) = .ok u) : version = 2 := by
  unfold Suite.checkVersion at hok
  split at hok <;> simp_all [throw, throwThe, MonadExceptOf.throw]

theorem shuffleVerifyV1_context {S : Suite} {pk : S.Point}
    {deck out : List S.ElGamalCiphertext} {proofBytes context : Bytes}
    (hok : Suite.shuffleVerifyV1 pk deck proofBytes (some context) = .ok out) :
    proofBytes.head? = some 2 ∧ carriedContext proofBytes = context := by
  simp only [Suite.shuffleVerifyV1, Suite.readShuffleHeader, Suite.readContext, ok_iff] at hok
  obtain ⟨_, ⟨⟨version, rd₁⟩, hversion, _, hcheck, ⟨nU16, rd₂⟩, hn, ⟨roundsU16, rd₃⟩, hrounds,
    _, ⟨⟨ctxLen, rd₄⟩, hlen, ⟨ctxBytes, rd₅⟩, hctx, _, hsame, -⟩, -⟩, -⟩ := hok
  obtain ⟨rfl, rfl⟩ := takeBytes_ok hversion
  obtain ⟨rfl, rfl⟩ := takeBytes_ok hn
  obtain ⟨rfl, rfl⟩ := takeBytes_ok hrounds
  obtain ⟨rfl, rfl⟩ := takeBytes_ok hlen
  obtain ⟨rfl, rfl⟩ := takeBytes_ok hctx
  refine ⟨?_, by simpa [carriedContext] using hsame⟩
  have htwo := checkVersion_some hcheck
  cases proofBytes with
  | nil => cases htwo
  | cons b rest =>
    have hb : b.toNat = (2 : UInt8).toNat := by simpa [leNat] using htwo
    rw [List.head?_cons, UInt8.toNat_inj.mp hb]

/-- A shuffle proof is accepted at one place at most: the Go and the TypeScript context
are the same bytes, they tell the place, and a proof that is verified with the context of
one place is rejected with that of any other, whatever key and deck are there. A proof
without a context is never accepted. -/
theorem shuffle_proof_one_place :
    (∀ place : ShufflePlace, ∃ context, place.buildShuffleContext = .ok context ∧
      Ts.buildShuffleContext place.tableId place.handId place.round place.shuffler =
        .ok context) ∧
    (∀ (place place' : ShufflePlace) (context : Bytes),
      place.buildShuffleContext = .ok context →
      place'.buildShuffleContext = .ok context → place = place') ∧
    (∀ (S : Suite) (place place' : ShufflePlace) (context context' : Bytes)
      (pkHandBytes : Bytes) (deckIn deckOut : List DealerCiphertext) (proofBytes : Bytes),
      place.buildShuffleContext = .ok context →
      place'.buildShuffleContext = .ok context' →
      verifyShuffle S pkHandBytes deckIn proofBytes context = .ok deckOut →
      place' ≠ place → ∀ (pk : S.Point) (deck : List S.ElGamalCiphertext),
        ∃ err, Suite.shuffleVerifyV1 pk deck proofBytes (some context') = .error err) ∧
    (∀ (env : Env) (c c' : Chain env) (block : Block) (req : MsgSubmitShuffle),
      submitShuffle c block req = .ok c' → req.proofShuffle.head? = some 2) := by
  refine ⟨fun place => ⟨_, place.build_eq, place.build_ts.trans place.build_eq⟩,
    fun _ _ _ => ShufflePlace.build_injective, ?_, ?_⟩
  · intro S place place' context context' pkHandBytes deckIn deckOut proofBytes hbuild hbuild'
      hverify hne pk deck
    simp only [verifyShuffle, ok_iff] at hverify
    obtain ⟨pk', -, deck', -, out, hout, -⟩ := hverify
    cases hother : Suite.shuffleVerifyV1 pk deck proofBytes (some context') with
    | error err => exact ⟨err, rfl⟩
    | ok out' =>
      have hsame : context' = context :=
        (shuffleVerifyV1_context hother).2.symm.trans (shuffleVerifyV1_context hout).2
      exact absurd (ShufflePlace.build_injective hbuild' (hsame ▸ hbuild)) hne
  · intro env c c' block req hok
    simp only [submitShuffle, ok_iff, verifyShuffle] at hok
    obtain ⟨_, -, _, -, _, -, _, -, _, -, _, -, _, -, _, -, _, -, _, -, _, -, _, -, _, -, _, -,
      _, -, _, ⟨pk, -, deck, -, out, hout, -⟩, -⟩ := hok
    exact (shuffleVerifyV1_context hout).1

def firstHandPlace : ShufflePlace := ⟨1, 1, 1, "A", by decide, by decide, by decide, by decide⟩

def secondHandPlace : ShufflePlace := ⟨1, 2, 1, "A", by decide, by decide, by decide, by decide⟩

def firstHandShuffle : Except String (Bytes × List DealerCiphertext) := do
  let context ← firstHandPlace.buildShuffleContext
  let result ← Suite.shuffleProveV1 1 spacedKey spacedDeck [7] [] 3 (some context)
  let deckOut ← verifyShuffle residueSuite (residueSuite.pointBytes spacedKey)
    (spacedDeck.map (encodeCiphertext residueSuite)) result.proofBytes context
  pure (result.proofBytes, deckOut)

theorem firstHandShuffle_rejected_later :
    ∃ proofBytes deckOut context, firstHandShuffle = .ok (proofBytes, deckOut) ∧
      secondHandPlace.buildShuffleContext = .ok context ∧
      ∃ err, Suite.shuffleVerifyV1 spacedKey spacedDeck proofBytes (some context) =
        .error err := by
  obtain ⟨⟨proofBytes, deckOut⟩, hok⟩ := isOk_iff.mp
    (show firstHandShuffle.isOk = true by decide +kernel)
  have hne : secondHandPlace ≠ firstHandPlace := fun heq => by
    cases congrArg ShufflePlace.handId heq
  have hfirst := hok
  simp only [firstHandShuffle, ok_iff, Prod.mk.injEq] at hfirst
  obtain ⟨context, hcontext, result, -, out, hverify, rfl, rfl⟩ := hfirst
  exact ⟨_, _, _, hok, secondHandPlace.build_eq,
    shuffle_proof_one_place.2.2.1 residueSuite firstHandPlace secondHandPlace _ _ _ _ _ _
      hcontext secondHandPlace.build_eq hverify hne spacedKey spacedDeck⟩

end OnChainPoker.Dealer
