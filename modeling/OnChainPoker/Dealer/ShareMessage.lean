import OnChainPoker.Dealer.Logic
import OnChainPoker.Foundation.Framing

/-!
# Signed share messages have one encoding

`decodeDKGShareMsgV1` accepts exactly the byte strings that its comment documents, and
the body that is signed tells the epoch, the dealer, the recipient and the share.
-/

namespace OnChainPoker.Dealer

open Foundation Crypto

/-- What a share message says, as far as its encoding reaches. -/
structure ShareFields where
  epochID : Nat
  dealer : Bytes
  recipient : Bytes
  share : Bytes
  sig : Bytes
  epochID_lt : epochID < 256 ^ 8
  dealer_ne : dealer ≠ []
  dealer_lt : dealer.length < 256 ^ 2
  recipient_ne : recipient ≠ []
  recipient_lt : recipient.length < 256 ^ 2
  share_length : share.length = 32
  sig_length : sig.length = 64

namespace ShareFields

variable (m m' : ShareFields)

/-- `magic(4) || epochId(u64le) || dealerLen(u16le) || dealer || toLen(u16le) || to ||
share(32)` -/
def body : Bytes :=
  stringBytes "OCP1" ++ (u64le m.epochID ++ (u16le m.dealer.length ++ (m.dealer ++
    (u16le m.recipient.length ++ (m.recipient ++ m.share)))))

def encode : Bytes := m.body ++ m.sig

def decoded : DkgShareMsgV1 :=
  ⟨m.epochID, m.dealer, m.recipient, m.share, m.sig, m.body⟩

theorem body_inj (hbody : m.body = m'.body) :
    m.epochID = m'.epochID ∧ m.dealer = m'.dealer ∧ m.recipient = m'.recipient ∧
      m.share = m'.share := by
  have hrest := List.append_cancel_left hbody
  obtain ⟨hepoch, hrest⟩ := framed_leBytes 8 m.epochID_lt m'.epochID_lt hrest
  rw [← List.append_assoc, ← List.append_assoc (u16le m'.dealer.length)] at hrest
  obtain ⟨hdealer, hrest⟩ := framed_bytes 2 m.dealer_lt m'.dealer_lt hrest
  rw [← List.append_assoc, ← List.append_assoc (u16le m'.recipient.length)] at hrest
  obtain ⟨hrecipient, hshare⟩ := framed_bytes 2 m.recipient_lt m'.recipient_lt hrest
  exact ⟨hepoch, hdealer, hrecipient, hshare⟩

theorem decode_encode : decodeDKGShareMsgV1 m.encode = .ok m.decoded := by
  have hu64 (x : Nat) : (u64le x).length = 8 := leBytes_length 8 x
  have hu16 (x : Nat) : (u16le x).length = 2 := leBytes_length 2 x
  have hmagic : (stringBytes "OCP1").length = 4 := by decide +kernel
  have hdealer := List.length_pos_iff.mpr m.dealer_ne
  have hrecipient := List.length_pos_iff.mpr m.recipient_ne
  have hlength : m.encode.length = 14 + m.dealer.length + 2 + m.recipient.length + 32 + 64 := by
    simp only [encode, body, List.length_append, hmagic, hu64, hu16, m.share_length, m.sig_length]
    omega
  have h4 : m.encode.drop 4 = u64le m.epochID ++ (u16le m.dealer.length ++ (m.dealer ++
      (u16le m.recipient.length ++ (m.recipient ++ (m.share ++ m.sig))))) := by
    rw [encode, body, List.append_assoc, List.drop_left' hmagic]
    simp only [List.append_assoc]
  have h12 := congrArg (List.drop 8) h4
  rw [List.drop_drop, List.drop_left' (hu64 _)] at h12
  have h14 := congrArg (List.drop 2) h12
  rw [List.drop_drop, List.drop_left' (hu16 _)] at h14
  have hto := congrArg (List.drop m.dealer.length) h14
  rw [List.drop_drop, List.drop_left] at hto
  have hname := congrArg (List.drop 2) hto
  rw [List.drop_drop, List.drop_left' (hu16 _)] at hname
  have hshare := congrArg (List.drop m.recipient.length) hname
  rw [List.drop_drop, List.drop_left] at hshare
  have hsig := congrArg (List.drop 32) hshare
  rw [List.drop_drop, List.drop_left' m.share_length] at hsig
  have hfirst : m.encode.take 4 = stringBytes "OCP1" := by
    rw [encode, body, List.append_assoc, List.take_left' hmagic]
  have hepoch : leNat ((m.encode.drop 4).take 8) = m.epochID := by
    rw [h4, List.take_left' (hu64 _)]
    exact leNat_leBytes m.epochID_lt
  have hdealerLen : leNat ((m.encode.drop 12).take 2) = m.dealer.length := by
    rw [h12, List.take_left' (hu16 _)]
    exact leNat_leBytes m.dealer_lt
  have hrecipientLen : leNat ((m.encode.drop (14 + m.dealer.length)).take 2) =
      m.recipient.length := by
    rw [hto, List.take_left' (hu16 _)]
    exact leNat_leBytes m.recipient_lt
  rw [decodeDKGShareMsgV1, rejectIf_bind (by omega), rejectIf_bind (by simp [hfirst])]
  dsimp only
  rw [hdealerLen, rejectIf_bind (by omega), hrecipientLen, rejectIf_bind (by omega), rejectIf_bind
    (by omega), hepoch, h14, hname, hshare, hsig, List.take_left, List.take_left, List.take_left'
    m.share_length, List.take_of_length_le m.sig_length.le]
  have hbody : m.encode.take (m.encode.length - 64) = m.body := by
    rw [encode, List.length_append, m.sig_length, Nat.add_sub_cancel, List.take_left]
  rw [hbody]
  rfl

end ShareFields

theorem decodeDKGShareMsgV1_fields {b : Bytes} {sm : DkgShareMsgV1}
    (hok : decodeDKGShareMsgV1 b = .ok sm) :
    ∃ m : ShareFields, m.encode = b ∧ m.decoded = sm := by
  simp only [decodeDKGShareMsgV1, ok_iff] at hok
  obtain ⟨-, hshort, -, hmagic, -, hdealer, -, hrecipient, -, hend, rfl⟩ := hok
  push Not at hmagic hdealer hrecipient hend
  generalize hdealerLen : leNat ((b.drop 12).take 2) = dealerLen at *
  generalize hrecipientLen : leNat ((b.drop (14 + dealerLen)).take 2) = recipientLen at *
  have hlength (i n : Nat) (hfits : i + n ≤ b.length) : ((b.drop i).take n).length = n := by
    rw [List.length_take, List.length_drop]
    omega
  have hbytes (i n : Nat) (hfits : i + n ≤ b.length) :
      leBytes n (leNat ((b.drop i).take n)) = (b.drop i).take n := by
    have hread := leBytes_leNat ((b.drop i).take n)
    rwa [hlength i n hfits] at hread
  have hlt (i n : Nat) (hfits : i + n ≤ b.length) : leNat ((b.drop i).take n) < 256 ^ n := by
    have hread := leNat_lt ((b.drop i).take n)
    rwa [hlength i n hfits] at hread
  have hsplit (i n : Nat) : b.drop i = (b.drop i).take n ++ b.drop (i + n) := by
    rw [← List.drop_drop, List.take_append_drop]
  have hdealerLt := hlt 12 2 (by omega)
  have hrecipientLt := hlt (14 + dealerLen) 2 (by omega)
  have hdealerRead := hlength 14 dealerLen (by omega)
  have hrecipientRead := hlength (14 + dealerLen + 2) recipientLen (by omega)
  let m : ShareFields := ⟨leNat ((b.drop 4).take 8), (b.drop 14).take dealerLen,
    (b.drop (14 + dealerLen + 2)).take recipientLen,
    (b.drop (14 + dealerLen + 2 + recipientLen)).take 32,
    (b.drop (14 + dealerLen + 2 + recipientLen + 32)).take 64, hlt 4 8 (by omega),
    List.ne_nil_of_length_pos (by omega), by omega, List.ne_nil_of_length_pos (by omega),
    by omega, hlength _ 32 (by omega), hlength _ 64 (by omega)⟩
  have hencode : m.encode = b := by
    conv_rhs =>
      rw [← List.take_append_drop 4 b, hmagic, hsplit 4 8, hsplit 12 2, hsplit 14 dealerLen, hsplit
        (14 + dealerLen) 2, hsplit (14 + dealerLen + 2) recipientLen, hsplit (14 + dealerLen + 2 +
        recipientLen) 32, hsplit (14 + dealerLen + 2 + recipientLen + 32) 64, hend,
        List.drop_length, List.append_nil, ← hbytes 4 8 (by omega), ← hbytes 12 2 (by omega),
        hdealerLen, ← hbytes (14 + dealerLen) 2 (by omega), hrecipientLen]
    simp only [m, ShareFields.encode, ShareFields.body, u64le, u16le, hdealerRead,
      hrecipientRead, List.append_assoc]
  refine ⟨m, hencode, ?_⟩
  have hbody : b.take (b.length - 64) = m.body := by
    rw [← hencode, ShareFields.encode, List.length_append, m.sig_length,
      Nat.add_sub_cancel, List.take_left]
  rw [hbody]
  rfl

/-! ## Slices -/

/-- `b[lo:hi]`; `none` where the program stops because an index is out of range. -/
def slice (b : Bytes) (lo hi : Nat) : Except (Option String) Bytes :=
  if lo ≤ hi ∧ hi ≤ b.length then .ok ((b.drop lo).take (hi - lo)) else .error none

/-- `decodeDKGShareMsgV1` with the bounds that each slice is checked against. -/
def decodeSliced (b : Bytes) : Except (Option String) DkgShareMsgV1 := do
  rejectIf (b.length < 4 + 8 + 2 + 2 + 32 + 64) (some "shareMsg too short")
  let magic ← slice b 0 4
  rejectIf (magic ≠ stringBytes "OCP1") (some "shareMsg bad magic")
  let epochID ← slice b 4 (4 + 8)
  let dealerLen ← slice b 12 (12 + 2)
  let dealerLen := leNat dealerLen
  rejectIf (dealerLen = 0 ∨ 14 + dealerLen + 2 > b.length)
    (some "shareMsg bad dealer length")
  let dealer ← slice b 14 (14 + dealerLen)
  let off := 14 + dealerLen
  let toLen ← slice b off (off + 2)
  let toLen := leNat toLen
  let off := off + 2
  rejectIf (toLen = 0 ∨ off + toLen + 32 + 64 > b.length) (some "shareMsg bad to length")
  let recipient ← slice b off (off + toLen)
  let off := off + toLen
  let share ← slice b off (off + 32)
  let sig ← slice b (off + 32) (off + 32 + 64)
  rejectIf (off + 32 + 64 ≠ b.length) (some "shareMsg trailing bytes")
  let body ← slice b 0 (b.length - 64)
  pure ⟨leNat epochID, dealer, recipient, share, sig, body⟩

theorem slice_of_le {b : Bytes} {lo n : Nat} (h : lo + n ≤ b.length) :
    slice b lo (lo + n) = .ok ((b.drop lo).take n) := by
  rw [slice, if_pos ⟨Nat.le_add_right lo n, h⟩, Nat.add_sub_cancel_left]

theorem slice_zero {b : Bytes} {n : Nat} (h : n ≤ b.length) : slice b 0 n = .ok (b.take n) := by
  rw [slice, if_pos ⟨Nat.zero_le n, h⟩, List.drop_zero, Nat.sub_zero]

theorem rejectIf_some_bind {condition : Prop} [Decidable condition] {error : String}
    {α : Type} {next : Unit → Except (Option String) α} {next' : Unit → Except String α}
    (hnext : ¬ condition → next () = (next' ()).mapError some) :
    (rejectIf condition (some error) >>= next) =
      (rejectIf condition error >>= next').mapError some := by
  unfold rejectIf
  split
  · rfl
  · exact hnext ‹_›

theorem decodeSliced_eq (b : Bytes) : decodeSliced b = (decodeDKGShareMsgV1 b).mapError some := by
  unfold decodeSliced decodeDKGShareMsgV1
  apply rejectIf_some_bind
  intro hlong
  rw [slice_zero (by omega), ok_bind]
  apply rejectIf_some_bind
  intro _
  rw [slice_of_le (by omega), ok_bind, slice_of_le (by omega), ok_bind]
  apply rejectIf_some_bind
  intro hdealer
  rw [slice_of_le (by omega), ok_bind]
  dsimp only
  rw [slice_of_le (by omega), ok_bind]
  apply rejectIf_some_bind
  intro hrecipient
  rw [slice_of_le (by omega), ok_bind, slice_of_le (by omega), ok_bind,
    slice_of_le (by omega), ok_bind]
  apply rejectIf_some_bind
  intro _
  rw [slice_zero (by omega), ok_bind]
  rfl

/-- The decoder stays inside every byte string, it accepts exactly the documented
encodings and returns their fields, and the signed bodies of two accepted messages are
equal exactly if they say the same. -/
theorem share_message_one_encoding :
    (∀ b, decodeSliced b = (decodeDKGShareMsgV1 b).mapError some) ∧
    (∀ b sm, decodeDKGShareMsgV1 b = .ok sm ↔
      ∃ m : ShareFields, m.encode = b ∧ m.decoded = sm) ∧
    ∀ b b' sm sm', decodeDKGShareMsgV1 b = .ok sm → decodeDKGShareMsgV1 b' = .ok sm' →
      (sm.body = sm'.body ↔ sm.epochID = sm'.epochID ∧ sm.dealer = sm'.dealer ∧
        sm.recipient = sm'.recipient ∧ sm.share = sm'.share) := by
  refine ⟨decodeSliced_eq, fun b sm => ⟨decodeDKGShareMsgV1_fields, ?_⟩, ?_⟩
  · rintro ⟨m, rfl, rfl⟩
    exact m.decode_encode
  · intro b b' sm sm' hok hok'
    obtain ⟨m, -, rfl⟩ := decodeDKGShareMsgV1_fields hok
    obtain ⟨m', -, rfl⟩ := decodeDKGShareMsgV1_fields hok'
    constructor
    · exact m.body_inj m'
    · rintro ⟨hepoch, hdealer, hrecipient, hshare⟩
      simp only [ShareFields.decoded] at hepoch hdealer hrecipient hshare
      simp only [ShareFields.decoded, ShareFields.body, hepoch, hdealer, hrecipient, hshare]

end OnChainPoker.Dealer
