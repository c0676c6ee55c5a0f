import Mathlib

/-! Merkle trees whose levels duplicate an odd last node, and the paths that climb to the root. -/

namespace AnonChain.Lib

open List

variable {α : Type}

def levelPairs : List α → List (α × α)
  | [] => []
  | [x] => [(x,x)]
  | x :: y :: l => (x,y) :: levelPairs l

section

variable (node : α → α → α)

def nextLevel (l : List α) : List α := (levelPairs l).map (fun p => node p.1 p.2)

def merkleRootWithin : Nat → List α → Option α
  | _, [x] => some x
  | 0, _ => none
  | n+1, l => merkleRootWithin n (nextLevel node l)

def merkleRoot (leaves : List α) : Option α := merkleRootWithin node leaves.length leaves

def treePairsWithin : Nat → List α → List (α × α)
  | _, [_] => []
  | 0, _ => []
  | n+1, l => levelPairs l ++ treePairsWithin n (nextLevel node l)

def treePairs (leaves : List α) : List (α × α) := treePairsWithin node leaves.length leaves

/-- The lowest bit of the index says on which side the sibling goes. -/
def siblings (idx : Nat) (x sibling : α) : α × α := if idx%2 = 1 then (sibling,x) else (x,sibling)

def parent (p : α × α) : α := node p.1 p.2

def climb : α → Nat → List α → α
  | x, _, [] => x
  | x, idx, n :: path => climb (parent node (siblings idx x n)) (idx/2) path

def climbPairs : α → Nat → List α → List (α × α)
  | _, _, [] => []
  | x, idx, n :: path =>
    siblings idx x n :: climbPairs (parent node (siblings idx x n)) (idx/2) path

/-- No sibling that goes to the left equals the node it goes next to, as it does when the node is an
odd last one that was duplicated. -/
def LeftSiblingsDiffer : α → Nat → List α → Prop
  | _, _, [] => True
  | x, idx, n :: path =>
    (idx%2 = 1 → n ≠ x) ∧ LeftSiblingsDiffer (parent node (siblings idx x n)) (idx/2) path

instance decidableLeftSiblingsDiffer [DecidableEq α] :
    (x : α) → (idx : Nat) → (path : List α) → Decidable (LeftSiblingsDiffer node x idx path)
  | _, _, [] => .isTrue trivial
  | x, idx, n :: path =>
    have := decidableLeftSiblingsDiffer (parent node (siblings idx x n)) (idx/2) path
    inferInstanceAs (Decidable ((idx%2 = 1 → n ≠ x) ∧ _))

end

section

variable {node : α → α → α} {leaves l : List α} {r : α}

theorem getElem?_levelPairs {j : Nat} {p : α × α} (h : (levelPairs l)[j]? = some p) :
    l[2*j]? = some p.1 ∧ (l[2*j+1]? = some p.2 ∨ (l.length = 2*j+1 ∧ p.2 = p.1)) := by
  induction l using levelPairs.induct generalizing j with
  | case1 => simp [levelPairs] at h
  | case2 x =>
    cases j with
    | zero =>
      rw [levelPairs,getElem?_cons_zero,Option.some.injEq] at h
      subst h
      simp
    | succ j => simp [levelPairs] at h
  | case3 x y l ih =>
    cases j with
    | zero =>
      rw [levelPairs,getElem?_cons_zero,Option.some.injEq] at h
      subst h
      simp
    | succ j =>
      rw [levelPairs,getElem?_cons_succ] at h
      obtain ⟨h1,h2⟩ := ih h
      rw [show 2*(j+1) = 2*j+1+1 by omega]
      simp only [getElem?_cons_succ,length_cons]
      exact ⟨h1,h2.imp id (fun h => ⟨by omega,h.2⟩)⟩

theorem levels_of_merkleRootWithin {n : Nat} (h : merkleRootWithin node n l = some r) :
    ∃ d, (nextLevel node)^[d] l = [r] ∧ ∀ i, i < d → 1 < ((nextLevel node)^[i] l).length ∧
      ∀ p ∈ levelPairs ((nextLevel node)^[i] l), p ∈ treePairsWithin node n l := by
  induction n generalizing l with
  | zero =>
    cases l with
    | nil => simp [merkleRootWithin] at h
    | cons x l =>
      cases l with
      | nil => exact ⟨0,by simpa [merkleRootWithin] using h,by omega⟩
      | cons y l => simp [merkleRootWithin] at h
  | succ n ih =>
    cases l with
    | nil =>
      obtain ⟨d,hd, -⟩ := ih (l := nextLevel node []) (by simpa [merkleRootWithin] using h)
      have hn : ∀ i, (nextLevel node)^[i] [] = [] := by
        intro i
        induction i with
        | zero => rfl
        | succ i ih => rw [Function.iterate_succ_apply',ih]; rfl
      rw [show nextLevel node [] = [] from rfl,hn] at hd
      simp at hd
    | cons x l =>
      cases l with
      | nil => exact ⟨0,by simpa [merkleRootWithin] using h,by omega⟩
      | cons y l =>
        obtain ⟨d,hd,hl⟩ := ih (l := nextLevel node (x :: y :: l)) h
        refine ⟨d+1,hd,?_⟩
        intro i hi
        cases i with
        | zero => exact ⟨by simp,fun p hp => mem_append_left _ hp⟩
        | succ i =>
          obtain ⟨hln,hpr⟩ := hl i (by omega)
          exact ⟨hln,fun p hp => mem_append_right _ (hpr p hp)⟩

end

section

variable {node : α → α → α}

theorem climb_snoc (x : α) (idx : Nat) (path : List α) (n : α) :
    climb node x idx (path ++ [n]) =
      parent node (siblings (idx/2^path.length) (climb node x idx path) n) := by
  induction path generalizing x idx with
  | nil => simp [climb]
  | cons m _ ih =>
    rw [cons_append,climb,ih,climb,Nat.div_div_eq_div_mul,length_cons,Nat.pow_succ']

theorem climbPairs_snoc (x : α) (idx : Nat) (path : List α) (n : α) :
    climbPairs node x idx (path ++ [n]) =
      climbPairs node x idx path ++ [siblings (idx/2^path.length) (climb node x idx path) n] := by
  induction path generalizing x idx with
  | nil => simp [climbPairs,climb]
  | cons m _ ih =>
    rw [cons_append,climbPairs,ih,climbPairs,climb,Nat.div_div_eq_div_mul,length_cons,
      Nat.pow_succ',cons_append]

theorem leftSiblingsDiffer_snoc {x : α} {idx : Nat} {path : List α} {n : α} :
    LeftSiblingsDiffer node x idx (path ++ [n]) ↔ LeftSiblingsDiffer node x idx path ∧
      (idx/2^path.length%2 = 1 → n ≠ climb node x idx path) := by
  induction path generalizing x idx with
  | nil => simp [LeftSiblingsDiffer,climb]
  | cons m _ ih =>
    rw [cons_append,LeftSiblingsDiffer,ih,LeftSiblingsDiffer,climb,Nat.div_div_eq_div_mul,
      length_cons,Nat.pow_succ',and_assoc]

theorem leftSiblingsDiffer_of_mod_eq_zero {x : α} {idx : Nat} {path : List α}
    (h : idx%2^path.length = 0) : LeftSiblingsDiffer node x idx path := by
  induction path generalizing x idx with
  | nil => trivial
  | cons n path ih =>
    obtain ⟨k,hk⟩ := Nat.dvd_of_mod_eq_zero h
    rw [length_cons,Nat.pow_succ',Nat.mul_assoc] at hk
    refine ⟨by omega,ih ?_⟩
    rw [hk,Nat.mul_div_cancel_left _ (by omega),Nat.mul_mod_right]

/-- What a path must not hash: a pair of its own that collides with a pair of the tree, the pair of
a leaf, or a start that is a node of the tree. -/
structure NoCollision (node : α → α → α) (leaves : List α) (x : α) (idx : Nat)
    (path : List α) : Prop where
  pairs : ∀ p ∈ treePairs node leaves, ∀ q ∈ climbPairs node x idx path,
    parent node p = parent node q → p = q
  leaf : ∀ a ∈ leaves, ∀ q ∈ climbPairs node x idx path, a ≠ parent node q
  start : ∀ p ∈ treePairs node leaves, x ≠ parent node p

theorem position_below {l : List α} {j i : Nat} {c n : α}
    (h : (levelPairs l)[j]? = some (siblings i c n)) :
    ∃ j', l[j']? = some c ∧ (j' = 2*j+i%2 ∨ (i%2 = 1 ∧ j' = 2*j ∧ l.length = 2*j+1 ∧ n = c)) := by
  obtain ⟨hl,hr⟩ := getElem?_levelPairs h
  by_cases hi : i%2 = 1
  · rw [siblings,if_pos hi] at hl hr
    rcases hr with hr | ⟨hln,he⟩
    · exact ⟨2*j+1,hr,.inl (by omega)⟩
    · simp only at he
      exact ⟨2*j,he ▸ hl,.inr ⟨hi,rfl,hln,he.symm⟩⟩
  · rw [siblings,if_neg hi] at hl
    exact ⟨2*j,hl,.inl (by omega)⟩

/-- A path to a node of level `d` starts at a leaf, the first one only if all bits are zero; without
duplicated nodes the bits are the position. -/
theorem climb_position {leaves path : List α} {x : α} {idx d j : Nat}
    (hsz : ∀ i, i < d → 1 < ((nextLevel node)^[i] leaves).length)
    (hpr : ∀ i, i < d → ∀ p ∈ levelPairs ((nextLevel node)^[i] leaves),
      (∀ q ∈ climbPairs node x idx path, parent node p = parent node q → p = q) ∧ x ≠ parent node p)
    (hlf : ∀ a ∈ leaves, ∀ q ∈ climbPairs node x idx path, a ≠ parent node q)
    (h : ((nextLevel node)^[d] leaves)[j]? = some (climb node x idx path)) :
    path.length = d ∧ ∃ j₀, leaves[j₀]? = some x ∧ (j₀ = 0 → j = 0 ∧ idx%2^d = 0) ∧
      (LeftSiblingsDiffer node x idx path → j₀ = j*2^d+idx%2^d) := by
  induction path using reverseRecOn generalizing d j with
  | nil =>
    cases d with
    | zero => exact ⟨rfl,j,h,by simp [Nat.mod_one],by simp [Nat.mod_one]⟩
    | succ d =>
      -- The start would be a node of the tree.
      rw [Function.iterate_succ_apply',nextLevel,getElem?_map,Option.map_eq_some_iff] at h
      obtain ⟨p,hp,hx⟩ := h
      exact absurd hx.symm (hpr d (Nat.lt_succ_self d) p (mem_of_getElem? hp)).2
  | append_singleton path n ih =>
    have hq : siblings (idx/2^path.length) (climb node x idx path) n ∈
        climbPairs node x idx (path ++ [n]) := by
      rw [climbPairs_snoc]
      exact mem_append_right _ (mem_singleton_self _)
    have hs : ∀ q ∈ climbPairs node x idx path, q ∈ climbPairs node x idx (path ++ [n]) := by
      intro q hq
      rw [climbPairs_snoc]
      exact mem_append_left _ hq
    rw [climb_snoc] at h
    cases d with
    | zero =>
      -- A leaf would be the hash of a pair.
      exact absurd rfl (hlf _ (mem_of_getElem? h) _ hq)
    | succ d =>
      rw [Function.iterate_succ_apply',nextLevel,getElem?_map,Option.map_eq_some_iff] at h
      obtain ⟨p,hp,hh⟩ := h
      have hpa := (hpr d (Nat.lt_succ_self d) p (mem_of_getElem? hp)).1 _ hq hh
      rw [hpa] at hp
      obtain ⟨j',hj',hps⟩ := position_below hp
      obtain ⟨hln,j₀,hj₀,hz,he⟩ := ih (fun i hi => hsz i (Nat.lt_succ_of_lt hi))
        (fun i hi p hp => ⟨fun q hq => (hpr i (Nat.lt_succ_of_lt hi) p hp).1 q (hs q hq),
          (hpr i (Nat.lt_succ_of_lt hi) p hp).2⟩)
        (fun a ha q hq => hlf a ha q (hs q hq)) hj'
      subst hln
      have hm := Nat.mod_pow_succ (x := idx) (b := 2) (k := path.length)
      refine ⟨by simp,j₀,hj₀,?_,?_⟩
      · intro h0
        obtain ⟨hj'0,hid⟩ := hz h0
        have hlv := hsz path.length (Nat.lt_succ_self _)
        have hb : j = 0 ∧ idx/2^path.length%2 = 0 := by
          rcases hps with hps | ⟨_,hps,hon,_⟩ <;> omega
        exact ⟨hb.1,by rw [hm,hid,hb.2]; simp⟩
      · intro hd
        obtain ⟨hr,hl⟩ := leftSiblingsDiffer_snoc.mp hd
        have hj'eq : j' = 2*j+idx/2^path.length%2 := by
          rcases hps with hps | ⟨ho,_,_,hsm⟩
          · exact hps
          · exact absurd hsm (hl ho)
        grind

theorem climb_root_position {leaves path : List α} {x r : α} {idx : Nat}
    (hr : merkleRoot node leaves = some r) (ha : NoCollision node leaves x idx path)
    (h : climb node x idx path = r) :
    ∃ j, leaves[j]? = some x ∧ (j = 0 ↔ idx%2^path.length = 0) ∧
      (LeftSiblingsDiffer node x idx path → j = idx%2^path.length) := by
  obtain ⟨d,hd,hl⟩ := levels_of_merkleRootWithin hr
  have ht : ((nextLevel node)^[d] leaves)[0]? = some (climb node x idx path) := by
    rw [hd,h,getElem?_cons_zero]
  obtain ⟨hln,j,hj,hz,he⟩ := climb_position (fun i hi => (hl i hi).1)
    (fun i hi p hp => ⟨ha.pairs p ((hl i hi).2 p hp),ha.start p ((hl i hi).2 p hp)⟩) ha.leaf ht
  subst hln
  have hp : LeftSiblingsDiffer node x idx path → j = idx%2^path.length := by
    intro hdf
    rw [he hdf]
    omega
  refine ⟨j,hj,⟨fun h0 => (hz h0).2,?_⟩,hp⟩
  intro h0
  rw [hp (leftSiblingsDiffer_of_mod_eq_zero h0),h0]

end

theorem merkleRootWithin_of_forall {node : α → α → α} {P : α → Prop} {n : Nat} {l : List α} {r : α}
    (hn : ∀ a b, P (node a b)) (hl : ∀ a ∈ l, P a) (h : merkleRootWithin node n l = some r) :
    P r := by
  fun_induction merkleRootWithin node n l with
  | case1 _ x => exact hl r (by simp_all)
  | case2 => simp at h
  | case3 n l _ ih =>
    refine ih ?_ h
    intro a ha
    rw [nextLevel,mem_map] at ha
    obtain ⟨p,_,rfl⟩ := ha
    exact hn p.1 p.2

end AnonChain.Lib
