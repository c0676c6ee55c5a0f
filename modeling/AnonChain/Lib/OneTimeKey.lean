import Mathlib

/-! Two signatures under one nonce give the signing key. -/

namespace AnonChain.Lib

variable {F V : Type} [Field F] [AddCommGroup V] [Module F V]

theorem extracted_key {g p : V} {s₁ s₂ e₁ e₂ : F} (he : e₁ ≠ e₂)
    (h : s₁ • g-e₁ • p = s₂ • g-e₂ • p) : ((s₁-s₂)*(e₁-e₂)⁻¹) • g = p := by
  have hn : e₁-e₂ ≠ 0 := sub_ne_zero.mpr he
  have hs : (s₁-s₂) • g = (e₁-e₂) • p := by
    rw [sub_smul,sub_smul,sub_eq_sub_iff_add_eq_add] at *
    rw [h,add_comm]
  calc ((s₁-s₂)*(e₁-e₂)⁻¹) • g
      = (e₁-e₂)⁻¹ • (s₁-s₂) • g := by rw [smul_smul,mul_comm]
    _ = (e₁-e₂)⁻¹ • (e₁-e₂) • p := by rw [hs]
    _ = p := by rw [smul_smul,inv_mul_cancel₀ hn,one_smul]

theorem responses_ne {g p : V} {s₁ s₂ e₁ e₂ : F} (hp : p ≠ 0) (he : e₁ ≠ e₂)
    (h : s₁ • g-e₁ • p = s₂ • g-e₂ • p) : s₁ ≠ s₂ := by
  intro hs
  have hx := extracted_key he h
  rw [hs,sub_self,zero_mul,zero_smul] at hx
  exact hp hx.symm

end AnonChain.Lib
