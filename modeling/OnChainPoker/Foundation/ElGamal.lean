import Mathlib.Algebra.Module.Defs
import Mathlib.Data.Fintype.Card
import Mathlib.Data.Fintype.EquivFin
import Mathlib.Data.List.FinRange
import Mathlib.Data.List.Perm.Basic

/-!
# ElGamal encryption and verifiable shuffles

Ciphertexts over a module.  A re-encryption adds an encryption of zero, so it
keeps the plaintext; a shuffle permutes a list and re-encrypts each entry.
Shuffles compose, and the list they produce still encrypts a permutation of the
original plaintexts.
-/

namespace OnChainPoker.Foundation

structure Ciphertext (M : Type*) where
  c1 : M
  c2 : M
  deriving DecidableEq

variable {F M : Type*} [CommRing F] [AddCommGroup M] [Module F M] {c : Ciphertext M}
  {deck deck' : List (Ciphertext M)}

section Relations

variable (F) (base pk : M)

def Encrypts (m : M) (c : Ciphertext M) : Prop :=
  ∃ r : F, c.c1 = r • base ∧ c.c2 = m + r • pk

def Reencrypts (c c' : Ciphertext M) : Prop :=
  ∃ rho : F, c'.c1 = c.c1 + rho • base ∧ c'.c2 = c.c2 + rho • pk

/-- The two outputs of a switch re-encrypt the two inputs in one of two orders. -/
def Switches (in0 in1 out0 out1 : Ciphertext M) : Prop :=
  (Reencrypts F base pk in0 out0 ∧ Reencrypts F base pk in1 out1) ∨
    (Reencrypts F base pk in1 out0 ∧ Reencrypts F base pk in0 out1)

def Shuffles (deck deck' : List (Ciphertext M)) : Prop :=
  ∃ middle, deck.Perm middle ∧ List.Forall₂ (Reencrypts F base pk) middle deck'

def EncryptsDeck (plain : List M) (deck : List (Ciphertext M)) : Prop :=
  ∃ order, plain.Perm order ∧ List.Forall₂ (Encrypts F base pk) order deck

instance [Fintype F] [DecidableEq M] (c c' : Ciphertext M) :
    Decidable (Reencrypts F base pk c c') :=
  inferInstanceAs (Decidable (∃ _ : F, _ ∧ _))

instance [Fintype F] [DecidableEq M] (in0 in1 out0 out1 : Ciphertext M) :
    Decidable (Switches F base pk in0 in1 out0 out1) :=
  inferInstanceAs (Decidable (_ ∨ _))

end Relations

variable {base pk : M}

variable {m : M} {c' : Ciphertext M} {sk : F} {plain : List M}

theorem Encrypts.reencrypt (henc : Encrypts F base pk m c) (hre : Reencrypts F base pk c c') :
    Encrypts F base pk m c' := by
  obtain ⟨r, h1, h2⟩ := henc
  obtain ⟨rho, h1', h2'⟩ := hre
  refine ⟨r + rho, ?_, ?_⟩
  · rw [h1', h1, add_smul]
  · rw [h2', h2, add_smul, add_assoc]

theorem Encrypts.decrypt (henc : Encrypts F base (sk • base) m c) : c.c2 - sk • c.c1 = m := by
  obtain ⟨r, h1, h2⟩ := henc
  rw [h1, h2, smul_smul, smul_smul, mul_comm, add_sub_cancel_right]

theorem Reencrypts.refl (c : Ciphertext M) : Reencrypts F base pk c c :=
  ⟨0, by rw [zero_smul, add_zero], by rw [zero_smul, add_zero]⟩

theorem Reencrypts.trans {c'' : Ciphertext M} (hfirst : Reencrypts F base pk c c')
    (hsecond : Reencrypts F base pk c' c'') : Reencrypts F base pk c c'' := by
  obtain ⟨rho, h1, h2⟩ := hfirst
  obtain ⟨rho', h1', h2'⟩ := hsecond
  refine ⟨rho + rho', ?_, ?_⟩
  · rw [h1', h1, add_smul, add_assoc]
  · rw [h2', h2, add_smul, add_assoc]

private theorem forall₂_comp {α β γ : Type*} {R : α → β → Prop} {R' : β → γ → Prop}
    {R'' : α → γ → Prop} {as : List α} {bs : List β} {cs : List γ}
    (hfirst : List.Forall₂ R as bs) (hsecond : List.Forall₂ R' bs cs)
    (hcomp : ∀ a b c, R a b → R' b c → R'' a c) : List.Forall₂ R'' as cs := by
  induction hfirst generalizing cs with
  | nil =>
    cases hsecond
    exact .nil
  | cons hhead _ ih =>
    cases hsecond with
    | cons hhead' hrest' => exact .cons (hcomp _ _ _ hhead hhead') (ih hrest')

/-! ## Shuffles -/

namespace Shuffles

theorem nil : Shuffles F base pk [] [] := ⟨[], List.Perm.nil, List.Forall₂.nil⟩

theorem cons {c c' : Ciphertext M} (hre : Reencrypts F base pk c c')
    (hrest : Shuffles F base pk deck deck') :
    Shuffles F base pk (c :: deck) (c' :: deck') := by
  obtain ⟨middle, hperm, hall⟩ := hrest
  exact ⟨c :: middle, hperm.cons c, hall.cons hre⟩

theorem switch {in0 in1 out0 out1 : Ciphertext M} (hswitch : Switches F base pk in0 in1 out0 out1)
    (hrest : Shuffles F base pk deck deck') :
    Shuffles F base pk (in0 :: in1 :: deck) (out0 :: out1 :: deck') := by
  rcases hswitch with ⟨h0, h1⟩ | ⟨h0, h1⟩
  · exact cons h0 (cons h1 hrest)
  · obtain ⟨middle, hperm, hall⟩ := cons h0 (cons h1 hrest)
    exact ⟨middle, (List.Perm.swap in1 in0 deck).trans hperm, hall⟩

theorem length_eq (hshuffle : Shuffles F base pk deck deck') : deck'.length = deck.length := by
  obtain ⟨middle, hperm, hall⟩ := hshuffle
  rw [← hall.length_eq, hperm.length_eq]

theorem refl (deck : List (Ciphertext M)) : Shuffles F base pk deck deck :=
  ⟨deck, List.Perm.refl deck, List.forall₂_same.mpr fun c _ => .refl c⟩

theorem trans {deck deck' deck'' : List (Ciphertext M)}
    (hfirst : Shuffles F base pk deck deck') (hsecond : Shuffles F base pk deck' deck'') :
    Shuffles F base pk deck deck'' := by
  obtain ⟨middle, hperm, hall⟩ := hfirst
  obtain ⟨middle', hperm', hall'⟩ := hsecond
  have hmove : Relation.Comp List.Perm (List.Forall₂ (Reencrypts F base pk)) middle middle' := by
    rw [← List.forall₂_comp_perm_eq_perm_comp_forall₂]
    exact ⟨deck', hall, hperm'⟩
  obtain ⟨order, horder, hmoved⟩ := hmove
  exact ⟨order, hperm.trans horder, forall₂_comp hmoved hall' fun _ _ _ => Reencrypts.trans⟩

theorem exists_perm (hshuffle : Shuffles F base pk deck deck') :
    ∃ order : Equiv.Perm (Fin deck.length), ∀ j,
      Reencrypts F base pk (deck.get (order j)) (deck'.get (j.cast hshuffle.length_eq.symm)) := by
  have hlength := hshuffle.length_eq
  obtain ⟨middle, hperm, hall⟩ := hshuffle
  have hindexed : Relation.Comp List.Perm
      (List.Forall₂ fun i c => deck.get i = c) (List.finRange deck.length) middle := by
    rw [← List.forall₂_comp_perm_eq_perm_comp_forall₂]
    refine ⟨deck, ?_, hperm⟩
    rw [List.forall₂_iff_get]
    exact ⟨by simp, fun i _ _ => by simp⟩
  obtain ⟨indices, hindices, hget⟩ := hindexed
  have hcount : indices.length = deck.length := by simp [← hindices.length_eq]
  have hnodup : indices.Nodup := hindices.nodup_iff.mp (List.nodup_finRange _)
  have hinj : Function.Injective fun j : Fin deck.length =>
      indices.get (j.cast hcount.symm) := by
    intro j j' heq
    exact Fin.cast_injective _ (List.nodup_iff_injective_get.mp hnodup heq)
  refine ⟨Equiv.ofBijective _ (Finite.injective_iff_bijective.mp hinj), fun j => ?_⟩
  rw [List.forall₂_iff_get] at hget hall
  have hj := j.isLt
  have hsame := hget.2 j.val (by omega) (by rw [← hget.1]; omega)
  have hre := hall.2 j.val (by rw [← hget.1]; omega) (by omega)
  rw [← hsame] at hre
  exact hre

end Shuffles

theorem EncryptsDeck.decrypt (hdeck : EncryptsDeck F base (sk • base) plain deck) :
    plain.Perm (deck.map fun c => c.c2 - sk • c.c1) := by
  obtain ⟨order, hperm, henc⟩ := hdeck
  have horder : order = deck.map fun c => c.c2 - sk • c.c1 := by
    induction henc generalizing plain with
    | nil => rfl
    | cons hhead _ ih => rw [List.map_cons, hhead.decrypt, ← ih (List.Perm.refl _)]
  rwa [← horder]

theorem EncryptsDeck.shuffle (hdeck : EncryptsDeck F base pk plain deck)
    (hshuffle : Shuffles F base pk deck deck') :
    EncryptsDeck F base pk plain deck' := by
  obtain ⟨order, horder, henc⟩ := hdeck
  obtain ⟨middle, hperm, hre⟩ := hshuffle
  have hmove : Relation.Comp List.Perm (List.Forall₂ (Encrypts F base pk)) order middle := by
    rw [← List.forall₂_comp_perm_eq_perm_comp_forall₂]
    exact ⟨deck, henc, hperm⟩
  obtain ⟨order', horder', henc'⟩ := hmove
  exact ⟨order', horder.trans horder', forall₂_comp henc' hre fun _ _ _ => Encrypts.reencrypt⟩

end OnChainPoker.Foundation
