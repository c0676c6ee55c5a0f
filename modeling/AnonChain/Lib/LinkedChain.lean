import AnonChain.Lib.Consecutive

/-! Chains whose elements name their predecessor, and chains that change only near their end. -/

namespace AnonChain.Lib

open List

section

variable {H K : Type}

def Linked (hash prev : H → K) (ch : List H) : Prop :=
  ∀ i h h', ch[i]? = some h → ch[i+1]? = some h' → prev h' = hash h

theorem linked_iff_isChain {hash prev : H → K} {ch : List H} :
    Linked hash prev ch ↔ ch.IsChain (fun h h' => prev h' = hash h) := by
  rw [isChain_iff_getElem]
  refine ⟨fun hc i hi => ?_,fun hc i h h' hg hg' => ?_⟩
  · exact hc i _ _ (getElem?_eq_getElem _) (getElem?_eq_getElem hi)
  · obtain ⟨hl,rfl⟩ := List.getElem?_eq_some_iff.mp hg'
    obtain ⟨-,rfl⟩ := List.getElem?_eq_some_iff.mp hg
    exact hc i hl

instance {hash prev : H → K} {ch : List H} [DecidableEq K] : Decidable (Linked hash prev ch) :=
  decidable_of_iff _ linked_iff_isChain.symm

theorem Linked.agree_below {hash prev : H → K} (hin : Function.Injective hash) {ch c' : List H}
    (hc : Linked hash prev ch) (hc' : Linked hash prev c') {i j : Nat} {h : H}
    (hi : ch[i]? = some h) (hi' : c'[i]? = some h) (hj : j ≤ i) : ch[j]? = c'[j]? := by
  induction i generalizing h with
  | zero =>
    obtain rfl : j = 0 := by omega
    rw [hi,hi']
  | succ i ih =>
    by_cases hji : j = i+1
    · rw [hji,hi,hi']
    · obtain ⟨hl, -⟩ := List.getElem?_eq_some_iff.mp hi
      obtain ⟨hl', -⟩ := List.getElem?_eq_some_iff.mp hi'
      have hp : ch[i]? = some ch[i] := getElem?_eq_getElem (by omega)
      have hp' : c'[i]? = some c'[i] := getElem?_eq_getElem (by omega)
      have he : ch[i] = c'[i] := by
        refine hin ?_
        rw [← hc i _ _ hp hi,← hc' i _ _ hp' hi']
      rw [← he] at hp'
      exact ih hp hp' (by omega)

end

variable {H α : Type} {num : α → Nat} {val : α → H} {ch c' : List H} {a : Nat} {l l' : List α}

/-- The elements are those of the chain from place `a` on, each with its place. -/
def Along (num : α → Nat) (val : α → H) (ch : List H) : Nat → List α → Prop
  | _, [] => True
  | a, x :: l => num x = a ∧ ch[a]? = some (val x) ∧ Along num val ch (a+1) l

theorem along_append :
    Along num val ch a (l ++ l') ↔ Along num val ch a l ∧ Along num val ch (a+l.length) l' := by
  induction l generalizing a with
  | nil => simp [Along]
  | cons x l ih =>
    have hl : a+(x :: l).length = a+1+l.length := by
      rw [length_cons]
      omega
    rw [cons_append,Along,Along,ih,hl,and_assoc,and_assoc]

theorem Along.congr (h : Along num val ch a l)
    (hc : ∀ i, a ≤ i → i < a+l.length → c'[i]? = ch[i]?) : Along num val c' a l := by
  induction l generalizing a with
  | nil => trivial
  | cons x l ih =>
    obtain ⟨hx,hv,hr⟩ := h
    rw [length_cons] at hc
    refine ⟨hx,?_,ih hr fun i hi hl => hc i (by omega) (by omega)⟩
    rw [hc a (by omega) (by omega)]
    exact hv

theorem Along.consecutive (h : Along num val ch a l) : ConsecutiveFrom num a l := by
  induction l generalizing a with
  | nil => trivial
  | cons x l ih => exact ⟨h.1,ih h.2.2⟩

theorem Along.mem (h : Along num val ch a l) {x : α} (hx : x ∈ l) :
    a ≤ num x ∧ num x < a+l.length ∧ ch[num x]? = some (val x) := by
  induction l generalizing a with
  | nil => cases hx
  | cons y l ih =>
    obtain ⟨hn,hv,hr⟩ := h
    rw [length_cons]
    rcases mem_cons.mp hx with rfl | hx
    · rw [hn]
      exact ⟨Nat.le_refl a,by omega,hv⟩
    · obtain ⟨hl,hh,hg⟩ := ih hr hx
      exact ⟨by omega,by omega,hg⟩

theorem Along.getLast (h : Along num val ch a l) {x : α} (hx : l.getLast? = some x) :
    num x+1 = a+l.length ∧ ch[num x]? = some (val x) := by
  obtain ⟨l,rfl⟩ := getLast?_eq_some_iff.mp hx
  obtain ⟨-,hn,hv, -⟩ := along_append.mp h
  rw [length_append,length_singleton,hn]
  exact ⟨by omega,hv⟩

theorem Along.linked {K : Type} {hash prev : H → K} (h : Along num val ch a l)
    (hc : Linked hash prev ch) : l.IsChain (fun x y => prev (val y) = hash (val x)) := by
  induction l generalizing a with
  | nil => exact .nil
  | cons x l ih =>
    obtain ⟨-,hv,hr⟩ := h
    cases l with
    | nil => exact .singleton x
    | cons y l => exact .cons_cons (hc a _ _ hv hr.2.1) (ih hr)

end AnonChain.Lib
