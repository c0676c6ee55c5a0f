import Mathlib

/-! Procedures that keep their writes when they fail, with one backward rule for each construct. -/

namespace AnonChain.Lib

variable {ε σ α β : Type}

/-- The run of `m` from `s` ends with a result and state of `Q`, or fails with an error and state
of `R`. -/
def Ends (m : EStateM ε σ α) (s : σ) (Q : α → σ → Prop) (R : ε → σ → Prop) : Prop :=
  match m s with
  | .ok a s' => Q a s'
  | .error e s' => R e s'

def lift (x : Except ε α) : EStateM ε σ α := fun s =>
  match x with
  | .ok a => .ok a s
  | .error e => .error e s

/-- Goes on with the default after a failure that is not fatal; the writes stay. -/
def tolerate (fatal : ε → Bool) (default : α) (m : EStateM ε σ α) : EStateM ε σ α := fun s =>
  match m s with
  | .ok a s' => .ok a s'
  | .error e s' => if fatal e then .error e s' else .ok default s'

/-- Runs the procedure and then the clean-up, also after a failure. -/
def deferred (cleanup : σ → σ) (m : EStateM ε σ α) : EStateM ε σ α := fun s =>
  match m s with
  | .ok a s' => .ok a (cleanup s')
  | .error e s' => .error e (cleanup s')

section

variable {s : σ} {Q : α → σ → Prop} {R : ε → σ → Prop} {m : EStateM ε σ α}

theorem ends_pure {a : α} : Ends (pure a) s Q R ↔ Q a s := Iff.rfl

theorem ends_bind {m : EStateM ε σ β} {k : β → EStateM ε σ α} :
    Ends (m >>= k) s Q R ↔ Ends m s (fun b t => Ends (k b) t Q R) R := by
  simp only [Ends,bind,EStateM.bind]
  cases m s <;> rfl

theorem ends_get {Q : σ → σ → Prop} : Ends (get : EStateM ε σ σ) s Q R ↔ Q s s := Iff.rfl

theorem ends_lift {x : Except ε α} :
    Ends (lift x) s Q R ↔ (∀ a, x = .ok a → Q a s) ∧ ∀ e, x = .error e → R e s := by
  cases x <;> simp [Ends,lift]

theorem ends_lift_ok {x : Except ε α} {a : α} (h : x = .ok a) : Ends (lift x) s Q R ↔ Q a s := by
  rw [h]
  rfl

theorem ends_tolerate {fatal : ε → Bool} {default : α} :
    Ends (tolerate fatal default m) s Q R ↔
      Ends m s Q (fun e t => if fatal e then R e t else Q default t) := by
  simp only [Ends,tolerate]
  cases m s with
  | ok a t => rfl
  | error e t => by_cases hf : fatal e = true <;> simp [hf]

theorem ends_deferred {cleanup : σ → σ} :
    Ends (deferred cleanup m) s Q R ↔
      Ends m s (fun a t => Q a (cleanup t)) (fun e t => R e (cleanup t)) := by
  simp only [Ends,deferred]
  cases m s <;> rfl

theorem Ends.mono {Q' : α → σ → Prop} {R' : ε → σ → Prop} (h : Ends m s Q R)
    (hQ : ∀ a t, Q a t → Q' a t) (hR : ∀ e t, R e t → R' e t) : Ends m s Q' R' := by
  unfold Ends at h ⊢
  cases hm : m s with
  | ok a t => rw [hm] at h; exact hQ a t h
  | error e t => rw [hm] at h; exact hR e t h

theorem Ends.of_ok {a : α} {t : σ} (h : Ends m s Q R) (hm : m s = .ok a t) :
    Q a t := by
  unfold Ends at h
  rw [hm] at h
  exact h

/-- The rule for a loop with an accumulator: the invariant speaks about what is left to do. -/
theorem ends_foldlM {l : List β} {f : α → β → EStateM ε σ α} {J : List β → α → σ → Prop} {a : α}
    (hf : ∀ b l a t, J (b :: l) a t → Ends (f a b) t (fun a' t' => J l a' t') R) (h : J l a s) :
    Ends (l.foldlM f a) s (fun a' t' => J [] a' t') R := by
  induction l generalizing a s with
  | nil => exact h
  | cons b l ih =>
    rw [List.foldlM_cons,ends_bind]
    exact (hf b l a s h).mono (fun _ _ ht => ih ht) (fun _ _ he => he)

end

/-- From a state of `P` the procedure ends in a state of `P`, also when it fails, unless the failure
is fatal. -/
def Keeps (fatal : ε → Bool) (P : σ → Prop) (m : EStateM ε σ α) : Prop :=
  ∀ s, P s → Ends m s (fun _ => P) (fun e t => fatal e = true ∨ P t)

variable {fatal : ε → Bool} {P : σ → Prop}

theorem keeps_pure (a : α) : Keeps fatal P (pure a : EStateM ε σ α) := fun _ h => h

theorem keeps_lift (x : Except ε α) : Keeps fatal P (lift x : EStateM ε σ α) := by
  intro s h
  rw [ends_lift]
  exact ⟨fun _ _ => h,fun _ _ => .inr h⟩

theorem Keeps.bind {m : EStateM ε σ β} {k : β → EStateM ε σ α} (hm : Keeps fatal P m)
    (hk : ∀ b, Keeps fatal P (k b)) : Keeps fatal P (m >>= k) := by
  intro s h
  rw [ends_bind]
  exact (hm s h).mono (fun b t ht => hk b t ht) (fun _ _ he => he)

theorem keeps_get_bind {k : σ → EStateM ε σ α} (hk : ∀ b, Keeps fatal P (k b)) :
    Keeps fatal P (get >>= k) := by
  intro s h
  exact hk s s h

theorem Keeps.ite {c : Prop} [Decidable c] {m m' : EStateM ε σ α} (hm : Keeps fatal P m)
    (hm' : Keeps fatal P m') : Keeps fatal P (if c then m else m') := by
  split
  · exact hm
  · exact hm'

theorem keeps_forM {l : List β} {f : β → EStateM ε σ PUnit} (hf : ∀ b ∈ l, Keeps fatal P (f b)) :
    Keeps fatal P (forM l f) := by
  induction l with
  | nil => exact keeps_pure _
  | cons b l ih =>
    have hr := ih (fun b' hb' => hf b' (List.mem_cons_of_mem b hb'))
    exact (hf b List.mem_cons_self).bind (fun _ => hr)

theorem Keeps.tolerate {default : α} {m : EStateM ε σ α} (hm : Keeps fatal P m) :
    Keeps fatal P (tolerate fatal default m) := by
  intro s h
  rw [ends_tolerate]
  refine (hm s h).mono (fun _ _ ht => ht) ?_
  intro e t he
  split
  · exact he
  · exact he.resolve_left ‹_›

theorem Keeps.deferred {cleanup : σ → σ} {m : EStateM ε σ α} (hm : Keeps fatal P m)
    (hc : ∀ s, P s → P (cleanup s)) : Keeps fatal P (deferred cleanup m) := by
  intro s h
  rw [ends_deferred]
  exact (hm s h).mono (fun _ t ht => hc t ht) (fun _ t he => he.imp_right (hc t))

end AnonChain.Lib
