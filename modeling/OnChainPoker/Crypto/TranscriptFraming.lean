import OnChainPoker.Crypto.Proofs
import OnChainPoker.Foundation.Framing

/-!
# Transcripts are framed

What a transcript feeds to SHA-512 at a challenge tells the domain and every call that
came before.  Tags have no delimiters, and `chal` begins `challenge`: a label would have to
be longer than a gigabyte for the two to be confused.  The TypeScript transcript feeds the
same bytes.
-/

namespace OnChainPoker.Crypto

open Foundation

inductive TranscriptOp where
  | appendMessage (label : String) (msg : Bytes)
  | challengeScalar (label : String)

def TranscriptOp.Fits : TranscriptOp → Prop
  | .appendMessage label msg => (stringBytes label).length < 2 ^ 16 ∧ msg.length < 2 ^ 32
  | .challengeScalar label => (stringBytes label).length < 2 ^ 16

def challengeInput (t : Transcript) (label : String) : Bytes :=
  t ++ stringBytes "challenge" ++ lenBytes (stringBytes label)

def hashToScalarInput (domainSep : String) (msgs : List Bytes) : Bytes :=
  stringBytes "OCPv1|hash_to_scalar|" ++ lenBytes (stringBytes domainSep) ++
    msgs.flatMap lenBytes

namespace Suite

variable (S : Suite)

def callTranscript (t : Transcript) : TranscriptOp → Except String Transcript
  | .appendMessage label msg => pure (t.appendMessage label msg)
  | .challengeScalar label => do
      let (_, t) ← S.challengeScalar t label
      pure t

def fedBytes (domainSep : String) (ops : List TranscriptOp) (label : String) :
    Except String Bytes := do
  let t ← ops.foldlM S.callTranscript (newTranscript domainSep)
  pure (challengeInput t label)

end Suite

/-! ## The TypeScript transcript -/

namespace Ts

def u32le (n : Nat) : Except String Bytes := do
  rejectIf (n > 0xffffffff) s!"u32le: invalid value {n}"
  pure [UInt8.ofNat (n &&& 0xff), UInt8.ofNat ((n >>> 8) &&& 0xff),
    UInt8.ofNat ((n >>> 16) &&& 0xff), UInt8.ofNat ((n >>> 24) &&& 0xff)]

/-- A hash state is what it has been updated with. -/
def updateLenBytes (h bytes : Bytes) : Except String Bytes := do
  let length ← u32le bytes.length
  pure (h ++ length ++ bytes)

def newTranscript (domainSep : String) : Except String Bytes :=
  updateLenBytes (stringBytes "OCPv1|transcript|") (stringBytes domainSep)

def appendMessage (h : Bytes) (label : String) (msg : Bytes) : Except String Bytes := do
  let h := h ++ stringBytes "msg"
  let h ← updateLenBytes h (stringBytes label)
  updateLenBytes h msg

/-- What the clone is updated with, and the state with the digest folded back in. -/
def challengeScalar (S : Suite) (h : Bytes) (label : String) :
    Except String (Bytes × Bytes) := do
  let c ← updateLenBytes (h ++ stringBytes "challenge") (stringBytes label)
  let digest := S.sha512 c
  let h := h ++ stringBytes "chal"
  let h ← updateLenBytes h (stringBytes label)
  let h ← updateLenBytes h digest
  pure (c, h)

def callTranscript (S : Suite) (h : Bytes) : TranscriptOp → Except String Bytes
  | .appendMessage label msg => appendMessage h label msg
  | .challengeScalar label => do
      let (_, h) ← challengeScalar S h label
      pure h

def fedBytes (S : Suite) (domainSep : String) (ops : List TranscriptOp) (label : String) :
    Except String Bytes := do
  let h ← newTranscript domainSep
  let h ← ops.foldlM (callTranscript S) h
  let (c, _) ← challengeScalar S h label
  pure c

theorem updateLenBytes_eq {h bytes : Bytes} (hfits : bytes.length < 2 ^ 32) :
    updateLenBytes h bytes = .ok (h ++ lenBytes bytes) := by
  have hbyte (n : Nat) : UInt8.ofNat (n &&& 0xff) = UInt8.ofNat n := by
    rw [← UInt8.toNat_inj, UInt8.toNat_ofNat', UInt8.toNat_ofNat',
      Nat.and_two_pow_sub_one_eq_mod n 8]
    omega
  have hshift (n k : Nat) : n >>> k = n / 2 ^ k := Nat.shiftRight_eq_div_pow n k
  rw [updateLenBytes, u32le, rejectIf_bind (by omega)]
  simp only [pure_bind, hbyte, hshift]
  rw [lenBytes, Crypto.u32le]
  simp [leBytes, Nat.div_div_eq_div_mul]

end Ts

/-! ## What the calls write -/

section Framing

variable (S : Suite)

def TranscriptOp.record (t : Transcript) : TranscriptOp → Bytes
  | .appendMessage label msg =>
    stringBytes "msg" ++ (lenBytes (stringBytes label) ++ lenBytes msg)
  | .challengeScalar label =>
    stringBytes "chal" ++ (lenBytes (stringBytes label) ++
      lenBytes (S.sha512 (challengeInput t label)))

def records : Transcript → List TranscriptOp → Bytes
  | _, [] => []
  | t, op :: ops => op.record S t ++ records (t ++ op.record S t) ops

variable {S} {domainSep domainSep' label label' : String} {ops ops' : List TranscriptOp}
  {t t' : Transcript}

theorem challengeScalar_eq (t : Transcript) (label : String) :
    S.challengeScalar t label = .ok (S.fromUniformBytes (S.sha512 (challengeInput t label)),
      t ++ (TranscriptOp.challengeScalar label).record S t) := by
  rw [Suite.challengeScalar, ← challengeInput, Suite.scalarFromUniformBytes,
    rejectIf_bind (by simp [S.sha512_length])]
  simp only [TranscriptOp.record, List.append_assoc]
  rfl

theorem callTranscript_eq (t : Transcript) (op : TranscriptOp) :
    S.callTranscript t op = .ok (t ++ op.record S t) := by
  cases op with
  | appendMessage label msg =>
    simp only [Suite.callTranscript, Transcript.appendMessage, TranscriptOp.record,
      List.append_assoc]
    rfl
  | challengeScalar label =>
    rw [Suite.callTranscript, challengeScalar_eq]
    rfl

theorem foldlM_callTranscript (t : Transcript) (ops : List TranscriptOp) :
    ops.foldlM S.callTranscript t = .ok (t ++ records S t ops) := by
  induction ops generalizing t with
  | nil => rw [records, List.append_nil]; rfl
  | cons op ops ih =>
    rw [List.foldlM_cons, callTranscript_eq, ok_bind, ih, records, List.append_assoc]

theorem fedBytes_eq (domainSep : String) (ops : List TranscriptOp) (label : String) :
    S.fedBytes domainSep ops label = .ok (newTranscript domainSep ++
      (records S (newTranscript domainSep) ops ++
        (stringBytes "challenge" ++ lenBytes (stringBytes label)))) := by
  rw [Suite.fedBytes, foldlM_callTranscript, ok_bind, challengeInput]
  simp only [List.append_assoc]
  rfl

/-! ## Reading it back -/

theorem framed_label : Framed (fun label => (stringBytes label).length < 256 ^ 4)
    (fun label => lenBytes (stringBytes label)) :=
  (framed_bytes 4).comp stringBytes_injective

variable {rest rest' : Bytes} {op : TranscriptOp}

/-- The length that `chal` would need in order to go on as `challenge` does. -/
theorem challenge_ne_chal {n : Nat} (hn : n < 2 ^ 16) :
    stringBytes "challenge" ++ rest ≠ stringBytes "chal" ++ (leBytes 4 n ++ rest') := by
  intro hbytes
  have hsplit : stringBytes "challenge" =
      stringBytes "chal" ++ (leBytes 4 0x676e656c ++ stringBytes "e") := by
    decide +kernel
  rw [hsplit, List.append_assoc, List.append_assoc] at hbytes
  have hlength := (framed_leBytes 4 (by omega) (by omega) (List.append_cancel_left hbytes)).1
  omega

theorem msg_ne {tag : String} (htag : (stringBytes tag).head? = some 0x63) :
    stringBytes "msg" ++ rest ≠ stringBytes tag ++ rest' := by
  intro hbytes
  have hmsg : stringBytes "msg" = [0x6d, 0x73, 0x67] := by decide +kernel
  obtain ⟨tail, htail⟩ : ∃ tail, stringBytes tag = 0x63 :: tail := by
    cases htext : stringBytes tag with
    | nil => simp [htext] at htag
    | cons x tail =>
      rw [htext] at htag
      cases htag
      exact ⟨tail, rfl⟩
  rw [hmsg, htail] at hbytes
  simp at hbytes

theorem record_inj {op' : TranscriptOp} (hop : op.Fits) (hop' : op'.Fits)
    (hbytes : op.record S t ++ rest = op'.record S t' ++ rest') :
    op = op' ∧ rest = rest' := by
  have hchal : (stringBytes "chal").head? = some 0x63 := by decide +kernel
  have hdigest (b : Bytes) : (S.sha512 b).length < 256 ^ 4 := by
    rw [S.sha512_length]
    omega
  cases op with
  | appendMessage label msg =>
    cases op' with
    | appendMessage label' msg' =>
      obtain ⟨hlabel, hmsg⟩ := hop
      obtain ⟨hlabel', hmsg'⟩ := hop'
      simp only [TranscriptOp.record, List.append_assoc] at hbytes
      obtain ⟨rfl, hframe⟩ := framed_label (by omega) (by omega) (List.append_cancel_left hbytes)
      obtain ⟨rfl, hrest⟩ := framed_bytes 4 (by omega) (by omega) hframe
      exact ⟨rfl, hrest⟩
    | challengeScalar label' => exact absurd hbytes (msg_ne hchal)
  | challengeScalar label =>
    cases op' with
    | appendMessage label' msg' => exact absurd hbytes.symm (msg_ne hchal)
    | challengeScalar label' =>
      simp only [TranscriptOp.Fits] at hop hop'
      simp only [TranscriptOp.record, List.append_assoc] at hbytes
      obtain ⟨rfl, hframe⟩ := framed_label (by omega) (by omega) (List.append_cancel_left hbytes)
      exact ⟨rfl, (framed_bytes 4 (hdigest _) (hdigest _) hframe).2⟩

theorem record_ne_challenge (hop : op.Fits) :
    op.record S t ++ rest ≠ stringBytes "challenge" ++ rest' := by
  cases op with
  | appendMessage label msg => exact msg_ne (by decide +kernel)
  | challengeScalar label => exact (challenge_ne_chal hop).symm

theorem records_inj (hops : ∀ op ∈ ops, op.Fits) (hops' : ∀ op ∈ ops', op.Fits)
    (hlabel : (stringBytes label).length < 2 ^ 16) (hlabel' : (stringBytes label').length < 2 ^ 16)
    (hbytes : records S t ops ++ (stringBytes "challenge" ++ lenBytes (stringBytes label)) =
      records S t' ops' ++ (stringBytes "challenge" ++ lenBytes (stringBytes label'))) :
    ops = ops' ∧ label = label' := by
  induction ops generalizing t t' ops' with
  | nil =>
    cases ops' with
    | nil =>
      have hlabels := List.append_cancel_left (List.append_cancel_left hbytes)
      exact ⟨rfl, (framed_label (by omega) (by omega) (congrArg (· ++ []) hlabels)).1⟩
    | cons op' ops' =>
      rw [records, records, List.nil_append, List.append_assoc] at hbytes
      exact absurd hbytes.symm (record_ne_challenge (hops' op' List.mem_cons_self))
  | cons op ops ih =>
    cases ops' with
    | nil =>
      rw [records, records, List.nil_append, List.append_assoc] at hbytes
      exact absurd hbytes (record_ne_challenge (hops op List.mem_cons_self))
    | cons op' ops' =>
      rw [records, records, List.append_assoc, List.append_assoc] at hbytes
      obtain ⟨rfl, hrest⟩ := record_inj (hops op List.mem_cons_self)
        (hops' op' List.mem_cons_self) hbytes
      obtain ⟨rfl, rfl⟩ := ih (fun x hx => hops x (List.mem_cons_of_mem op hx))
        (fun x hx => hops' x (List.mem_cons_of_mem op hx)) hrest
      exact ⟨rfl, rfl⟩

/-! ## Both programs -/

theorem Ts.challengeScalar_eq (hlabel : (stringBytes label).length < 2 ^ 16) :
    Ts.challengeScalar S t label = .ok (challengeInput t label,
      t ++ (TranscriptOp.challengeScalar label).record S t) := by
  rw [Ts.challengeScalar, updateLenBytes_eq (by omega), ok_bind, ← challengeInput]
  dsimp only
  rw [updateLenBytes_eq (by omega), ok_bind, updateLenBytes_eq (by simp [S.sha512_length]), ok_bind]
  simp only [TranscriptOp.record, List.append_assoc]
  rfl

theorem Ts.callTranscript_eq (hop : op.Fits) :
    Ts.callTranscript S t op = S.callTranscript t op := by
  rw [Crypto.callTranscript_eq]
  cases op with
  | appendMessage label msg =>
    obtain ⟨hlabel, hmsg⟩ := hop
    rw [Ts.callTranscript, Ts.appendMessage, updateLenBytes_eq (by omega), ok_bind,
      updateLenBytes_eq hmsg]
    simp only [TranscriptOp.record, List.append_assoc]
  | challengeScalar label =>
    rw [Ts.callTranscript, Ts.challengeScalar_eq hop]
    rfl

theorem Ts.fedBytes_eq (hdomain : (stringBytes domainSep).length < 2 ^ 32)
    (hops : ∀ op ∈ ops, op.Fits) (hlabel : (stringBytes label).length < 2 ^ 16) :
    Ts.fedBytes S domainSep ops label = S.fedBytes domainSep ops label := by
  have hfold (t : Transcript) :
      ops.foldlM (Ts.callTranscript S) t = ops.foldlM S.callTranscript t := by
    induction ops generalizing t with
    | nil => rfl
    | cons op ops ih =>
      rw [List.foldlM_cons, List.foldlM_cons, Ts.callTranscript_eq (hops op List.mem_cons_self)]
      exact bind_congr_ok fun t' _ => ih (fun x hx => hops x (List.mem_cons_of_mem op hx)) t'
  rw [Ts.fedBytes, Ts.newTranscript, updateLenBytes_eq hdomain, ok_bind, hfold,
    ← Crypto.newTranscript, Suite.fedBytes]
  exact bind_congr_ok fun t _ => by rw [Ts.challengeScalar_eq hlabel]; rfl

theorem fedBytes_ne_hashToScalarInput (msgs : List Bytes) :
    S.fedBytes domainSep ops label ≠ .ok (hashToScalarInput domainSep' msgs) := by
  rw [fedBytes_eq]
  intro hbytes
  have htags : stringBytes "OCPv1|transcript|" =
      stringBytes "OCPv1|" ++ 0x74 :: stringBytes "ranscript|" := by decide +kernel
  have htags' : stringBytes "OCPv1|hash_to_scalar|" =
      stringBytes "OCPv1|" ++ 0x68 :: stringBytes "ash_to_scalar|" := by decide +kernel
  rw [Except.ok.injEq, newTranscript, hashToScalarInput, htags, htags'] at hbytes
  cases hbytes

end Framing

structure CallsFit (domainSep : String) (ops : List TranscriptOp) (label : String) :
    Prop where
  domainSep : (stringBytes domainSep).length < 2 ^ 32
  ops : ∀ op ∈ ops, op.Fits
  label : (stringBytes label).length < 2 ^ 16

/-- The bytes hashed for a challenge tell the domain, the calls so far and the label; they
are never the bytes that `HashToScalar` hashes; and both programs hash the same bytes. -/
theorem transcript_framing (S : Suite) :
    (∀ domainSep domainSep' ops ops' label label', CallsFit domainSep ops label →
      CallsFit domainSep' ops' label' →
      S.fedBytes domainSep ops label = S.fedBytes domainSep' ops' label' →
      domainSep = domainSep' ∧ ops = ops' ∧ label = label') ∧
    (∀ domainSep ops label domainSep' msgs,
      S.fedBytes domainSep ops label ≠ .ok (hashToScalarInput domainSep' msgs)) ∧
    (∀ domainSep ops label, CallsFit domainSep ops label →
      Ts.fedBytes S domainSep ops label = S.fedBytes domainSep ops label) ∧
    (∀ t label, ∃ t', S.challengeScalar t label =
      .ok (S.fromUniformBytes (S.sha512 (challengeInput t label)), t')) ∧
    ∀ domainSep msgs, S.hashToScalar domainSep msgs =
      S.scalarFromUniformBytes (S.sha512 (hashToScalarInput domainSep msgs)) := by
  refine ⟨?_, fun _ _ _ _ msgs => fedBytes_ne_hashToScalarInput msgs,
    fun _ _ _ hfit => Ts.fedBytes_eq hfit.domainSep hfit.ops hfit.label,
    fun t label => ⟨_, challengeScalar_eq t label⟩, fun _ _ => rfl⟩
  intro domainSep domainSep' ops ops' label label' hfit hfit' hbytes
  rw [fedBytes_eq, fedBytes_eq, Except.ok.injEq, newTranscript, newTranscript,
    List.append_assoc, List.append_assoc] at hbytes
  obtain ⟨hdomain, hrecords⟩ := framed_label hfit.domainSep hfit'.domainSep
    (List.append_cancel_left hbytes)
  obtain ⟨hops, hlabel⟩ := records_inj hfit.ops hfit'.ops hfit.label hfit'.label hrecords
  exact ⟨hdomain, hops, hlabel⟩

def messageFirst : List TranscriptOp := [.appendMessage "m" [1], .challengeScalar "e"]

theorem messageFirst_told_apart :
    residueSuite.fedBytes "d" messageFirst "c" ≠
        residueSuite.fedBytes "d" messageFirst.reverse "c" ∧
      Ts.fedBytes residueSuite "d" messageFirst "c" =
        residueSuite.fedBytes "d" messageFirst "c" := by
  have hfits : ∀ ops, ops.Perm messageFirst → CallsFit "d" ops "c" := by
    refine fun ops hperm => ⟨by decide +kernel, fun op hop => ?_, by decide +kernel⟩
    rcases List.mem_pair.mp (hperm.mem_iff.mp hop) with rfl | rfl
    · exact ⟨by decide +kernel, by decide⟩
    · change (stringBytes "e").length < 2 ^ 16
      decide +kernel
  obtain ⟨htold, -, hsame, -⟩ := transcript_framing residueSuite
  refine ⟨fun hbytes => ?_, hsame _ _ _ (hfits _ (.refl _))⟩
  have hops := (htold _ _ _ _ _ _ (hfits _ (.refl _)) (hfits _ (List.reverse_perm _)) hbytes).2.1
  simp [messageFirst] at hops

/-! ## A domain of four gigabytes -/

def repeatText (s : String) : Nat → String
  | 0 => ""
  | n + 1 => repeatText s n ++ s

def fillerOp : TranscriptOp := .appendMessage "" (List.replicate 117 0x61)

def filler : String :=
  "msg\x00\x00\x00\x00u\x00\x00\x00" ++ String.ofList (List.replicate 117 'a')

theorem record_filler (S : Suite) (t : Transcript) : fillerOp.record S t = stringBytes filler := by
  have hfiller : stringBytes filler =
      stringBytes "msg" ++ (lenBytes (stringBytes "") ++ lenBytes (List.replicate 117 0x61)) := by
    decide +kernel
  rw [hfiller]
  rfl

theorem stringBytes_repeatText (s : String) (n : Nat) :
    stringBytes (repeatText s n) = (List.replicate n (stringBytes s)).flatten := by
  induction n with
  | zero => rfl
  | succ n ih =>
    rw [List.replicate_succ', List.flatten_append, ← ih, List.flatten_singleton, repeatText]
    simp [stringBytes]

theorem records_filler (S : Suite) (t : Transcript) (n : Nat) :
    records S t (List.replicate n fillerOp) = (List.replicate n (stringBytes filler)).flatten := by
  induction n generalizing t with
  | zero => rfl
  | succ n ih =>
    rw [List.replicate_succ, records, ih, record_filler, List.replicate_succ, List.flatten_cons]

/-- The length field of a domain of `2 ^ 32` bytes is zero, so that the domain can stand
for messages to the transcript of the empty domain. -/
theorem wide_domain_collides :
    (∀ op ∈ List.replicate (2 ^ 25) fillerOp, op.Fits) ∧
    repeatText filler (2 ^ 25) ≠ "" ∧
    ∀ label, residueSuite.fedBytes (repeatText filler (2 ^ 25)) [] label =
      residueSuite.fedBytes "" (List.replicate (2 ^ 25) fillerOp) label := by
  have hfiller : (stringBytes filler).length = 128 := by decide +kernel
  have hlength : (stringBytes (repeatText filler (2 ^ 25))).length = 2 ^ 32 := by
    rw [stringBytes_repeatText, List.length_flatten, List.map_replicate, List.sum_replicate,
      hfiller]
    norm_num
  have hzero : u32le (2 ^ 32) = u32le 0 := by decide +kernel
  refine ⟨?_, ?_, fun label => ?_⟩
  · intro op hop
    rw [List.eq_of_mem_replicate hop]
    exact ⟨by decide +kernel, by simp⟩
  · intro hempty
    rw [hempty] at hlength
    norm_num [stringBytes] at hlength
  · rw [fedBytes_eq, fedBytes_eq, records_filler, newTranscript, newTranscript, lenBytes,
      hlength, hzero, stringBytes_repeatText]
    simp only [List.append_assoc, records, List.nil_append]
    rfl

end OnChainPoker.Crypto
