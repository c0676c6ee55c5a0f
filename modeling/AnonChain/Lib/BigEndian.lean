import Mathlib

/-! Big-endian natural numbers as lists of bytes. -/

namespace AnonChain.Lib

open List

def readBE (b : List (Fin 256)) : Nat := b.foldl (fun a d => a*256+d.val) 0

def writeBE : Nat → Nat → List (Fin 256)
  | 0, _ => []
  | w+1, v => writeBE w (v/256) ++ [⟨v%256,Nat.mod_lt _ (by decide)⟩]

@[simp] theorem length_writeBE (w n : Nat) : (writeBE w n).length = w := by
  induction w generalizing n with
  | zero => rfl
  | succ w ih => simp [writeBE,ih]

theorem readBE_append (b : List (Fin 256)) (d : Fin 256) :
    readBE (b ++ [d]) = readBE b*256+d.val := by simp [readBE]

theorem writeBE_readBE {b : List (Fin 256)} {w : Nat} (h : b.length = w) :
    writeBE w (readBE b) = b := by
  induction w generalizing b with
  | zero =>
    have hb : b = [] := length_eq_zero_iff.mp h
    rw [hb]
    rfl
  | succ w ih =>
    have hn : b ≠ [] := by
      intro hb
      simp [hb] at h
    have hl := dropLast_append_getLast hn
    have hln : b.dropLast.length = w := by
      rw [length_dropLast]
      omega
    have hv : readBE b = readBE b.dropLast*256+(b.getLast hn).val := by
      rw [← readBE_append,hl]
    have hd : readBE b/256 = readBE b.dropLast := by omega
    have hm : readBE b%256 = (b.getLast hn).val := by omega
    rw [writeBE,hd,ih hln]
    conv_rhs => rw [← hl]
    congr 2
    exact Fin.ext hm

theorem readBE_lt {b : List (Fin 256)} {w : Nat} (h : b.length = w) : readBE b < 256^w := by
  induction w generalizing b with
  | zero =>
    have hb : b = [] := length_eq_zero_iff.mp h
    simp [hb,readBE]
  | succ w ih =>
    have hn : b ≠ [] := by
      intro hb
      simp [hb] at h
    have hl : b.dropLast.length = w := by
      rw [length_dropLast]
      omega
    have hlt := ih hl
    rw [← dropLast_append_getLast hn,readBE_append,Nat.pow_succ]
    omega

theorem readBE_writeBE {w n : Nat} (h : n < 256^w) : readBE (writeBE w n) = n := by
  induction w generalizing n with
  | zero =>
    rw [Nat.pow_zero,Nat.lt_one_iff] at h
    simp [h,writeBE,readBE]
  | succ w ih =>
    have hd : n/256 < 256^w := by
      omega
    rw [writeBE,readBE_append,ih hd]
    exact Nat.div_add_mod' n 256

end AnonChain.Lib
