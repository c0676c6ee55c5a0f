import Mathlib

/-! A stack machine for scripts that check signatures. An invalid signature aborts. -/

namespace AnonChain.Lib.Tapscript

open List

/-- Keys are pushed as data; `K` is their serialised form. -/
inductive Op (K : Type) where
  | data (key : K)
  | int (n : Nat)
  | checkSig
  | checkSigVerify
  | checkSigAdd
  | numEqual
  | numEqualVerify
  | checkSequenceVerify
  deriving DecidableEq

inductive Elem (K S : Type) where
  | key (k : K)
  | num (n : Nat)
  /-- Absent for the empty byte string. -/
  | sig (s : Option S)

variable {K S : Type} (valid : K → S → Bool) (age : Nat)

def check (k : K) : Option S → Option Nat
  | none => some 0
  | some s => if valid k s then some 1 else none

/-- The head of the list is the top of the stack; `age` is the relative lock time the spending
input has reached. -/
def step : Op K → List (Elem K S) → Option (List (Elem K S))
  | .data k, st => some (.key k :: st)
  | .int n, st => some (.num n :: st)
  | .checkSig, .key k :: .sig s :: st => (check valid k s).map (fun b => .num b :: st)
  | .checkSigVerify, .key k :: .sig s :: st =>
    (check valid k s).bind (fun b => if b = 0 then none else some st)
  | .checkSigAdd, .key k :: .num n :: .sig s :: st =>
    (check valid k s).map (fun b => .num (n+b) :: st)
  | .numEqual, .num a :: .num b :: st => some (.num (if a = b then 1 else 0) :: st)
  | .numEqualVerify, .num a :: .num b :: st => if a = b then some st else none
  | .checkSequenceVerify, .num n :: st => if n ≤ age then some (.num n :: st) else none
  | _, _ => none

def run : List (Op K) → List (Elem K S) → Option (List (Elem K S))
  | [], st => some st
  | op :: ops, st => (step valid age op st).bind (run ops)

def succeeds (script : List (Op K)) (st : List (Elem K S)) : Bool :=
  match run valid age script st with
  | some [.num n] => n ≠ 0
  | _ => false

def present (sigs : List (Option S)) : Nat := sigs.countP Option.isSome

theorem present_cons (s : Option S) (sigs : List (Option S)) :
    present (s :: sigs) = (if s.isSome then 1 else 0)+present sigs := by
  rw [present,countP_cons,Nat.add_comm,present]

/-- The signature at each place is absent or valid for the key there. -/
def Signs (k : K) (s : Option S) : Prop := ∀ x ∈ s, valid k x = true

section

variable {valid} {age} {s : Option S}

theorem check_signs {k : K} (h : Signs valid k s) :
    check valid k s = some (if s.isSome then 1 else 0) := by
  cases s with
  | none => rfl
  | some x => simp [check,h x rfl]

theorem run_checkSigVerify {k : K} {s : S} (h : valid k s = true) (ops : List (Op K))
    (st : List (Elem K S)) :
    run valid age (.data k :: .checkSigVerify :: ops) (.sig (some s) :: st) =
      run valid age ops st := by simp [run,step,check,h]

theorem run_checkSig {k : K} (h : Signs valid k s) (ops : List (Op K)) (st : List (Elem K S)) :
    run valid age (.data k :: .checkSig :: ops) (.sig s :: st) =
      run valid age ops (.num (if s.isSome then 1 else 0) :: st) := by simp [run,step,check_signs h]

/-- Keys after the first one of a multisignature add to the count on the stack. -/
def addOps (keys : List K) : List (Op K) := keys.flatMap (fun k => [.data k,.checkSigAdd])

theorem run_addOps {keys : List K} {sigs : List (Option S)}
    (h : List.Forall₂ (Signs valid) keys sigs)
    (n : Nat) (ops : List (Op K)) (st : List (Elem K S)) :
    run valid age (addOps keys ++ ops) (.num n :: (sigs.map .sig ++ st)) =
      run valid age ops (.num (n+present sigs) :: st) := by
  induction h generalizing n with
  | nil => rfl
  | @cons k s keys sigs hs _ ih =>
    have hst : run valid age (addOps (k :: keys) ++ ops) (.num n :: ((s :: sigs).map .sig ++ st)) =
        run valid age (addOps keys ++ ops)
          (.num (n+(if s.isSome then 1 else 0)) :: (sigs.map .sig ++ st)) := by
      simp [addOps,run,step,check_signs hs]
    rw [hst,ih,present_cons,Nat.add_assoc]

theorem run_multisig {k : K} {keys : List K} {sigs : List (Option S)}
    (h : List.Forall₂ (Signs valid) (k :: keys) (s :: sigs)) (ops : List (Op K))
    (st : List (Elem K S)) :
    run valid age (.data k :: .checkSig :: (addOps keys ++ ops)) ((s :: sigs).map .sig ++ st) =
      run valid age ops (.num (present (s :: sigs)) :: st) := by
  obtain ⟨hs,hr⟩ := forall₂_cons.mp h
  rw [map_cons,cons_append,run_checkSig hs,run_addOps hr,present_cons]

end

/-- Whoever has a valid signature on the stack has signed. -/
def Witnesses (signed : K → Prop) (st : List (Elem K S)) : Prop :=
  ∀ s, .sig (some s) ∈ st → ∀ k, valid k s = true → signed k

/-- So many of the keys have signed. -/
def Signers (signed : K → Prop) (keys : List K) (n : Nat) : Prop :=
  ∃ l, l <+ keys ∧ n ≤ l.length ∧ ∀ k ∈ l, signed k

variable {valid} {age} {signed : K → Prop} {st r : List (Elem K S)} {ops : List (Op K)}
  {k : K} {n : Nat}

theorem run_checkSigVerify_inv (hw : Witnesses valid signed st)
    (h : run valid age (.data k :: .checkSigVerify :: ops) st = some r) :
    signed k ∧ ∃ st', Witnesses valid signed st' ∧ run valid age ops st' = some r := by
  rcases st with _ | ⟨_ | _ | _ | s,st⟩ <;> simp [run,step,check] at h
  cases hv : valid k s <;> simp [hv] at h
  exact ⟨hw s mem_cons_self k hv,st,fun s hs => hw s (mem_cons_of_mem _ hs),h⟩

theorem check_mono {valid' : K → S → Bool} (hv : ∀ k s, valid k s = true → valid' k s = true)
    {s : Option S} (h : check valid k s = some n) : check valid' k s = some n := by
  cases s with
  | none => exact h
  | some s => cases hs : valid k s <;> simp_all [check]

/-- A run that succeeds does so with more valid signatures too. -/
theorem run_mono {valid' : K → S → Bool} (hv : ∀ k s, valid k s = true → valid' k s = true)
    (h : run valid age ops st = some r) : run valid' age ops st = some r := by
  induction ops generalizing st with
  | nil => exact h
  | cons op ops ih =>
    obtain ⟨st',hs,hr⟩ := Option.bind_eq_some_iff.mp h
    refine Option.bind_eq_some_iff.mpr ⟨st',?_,ih hr⟩
    have hc := fun k s n => check_mono hv (k := k) (s := s) (n := n)
    fun_cases step valid age op st <;>
      simp_all [step,Option.map_eq_some_iff,Option.bind_eq_some_iff] <;> grind

theorem run_checkSig_add (st : List (Elem K S)) : run valid age (.data k :: .checkSig :: ops) st =
    run valid age (.data k :: .checkSigAdd :: ops) (.num 0 :: st) := by
  rcases st with _ | ⟨_ | _ | s,st⟩ <;> simp [run,step]

theorem run_addOps_inv (keys : List K) (hw : Witnesses valid signed st)
    (h : run valid age (addOps keys ++ ops) (.num n :: st) = some r) :
    ∃ l st', l <+ keys ∧ (∀ k ∈ l, signed k) ∧ Witnesses valid signed st' ∧
      run valid age ops (.num (n+l.length) :: st') = some r := by
  induction keys generalizing n st with
  | nil => exact ⟨[],st,.slnil,by simp,hw,h⟩
  | cons k keys ih =>
    rcases st with _ | ⟨_ | _ | _ | s,st⟩ <;> simp [addOps,run,step,check] at h
    all_goals have ht : Witnesses valid signed st := fun s hs => hw s (mem_cons_of_mem _ hs)
    · obtain ⟨l,st',hl,hr⟩ := ih ht h
      exact ⟨l,st',hl.cons k,hr⟩
    · cases hv : valid k s <;> simp [hv] at h
      obtain ⟨l,st',hl,hk,hs,hr⟩ := ih ht h
      refine ⟨k :: l,st',hl.cons_cons k,forall_mem_cons.mpr ⟨hw s mem_cons_self k hv,hk⟩,hs,?_⟩
      rwa [length_cons,Nat.add_comm l.length,← Nat.add_assoc]

end AnonChain.Lib.Tapscript
