import AnonChain.Lib.Run

/-! Concurrent calls over a durable store. A call is the sequence of its atomic transactions, and a
server may crash between two of them. -/

namespace AnonChain.Lib

open List Option

inductive Call (σ α : Type) where
  | ret (a : α)
  /-- A transaction; what follows depends on the store it finds. -/
  | tx (update : σ → σ) (next : σ → Call σ α)
  /-- A computation that never ends. -/
  | stuck

namespace Call

variable {σ α β ε : Type} {p : ExceptT ε (Call σ) α} {k : α → ExceptT ε (Call σ) β}

def bind : Call σ α → (α → Call σ β) → Call σ β
  | ret a, k => k a
  | tx update next, k => tx update (fun s => (next s).bind k)
  | stuck, _ => stuck

instance : Monad (Call σ) where
  pure := ret
  bind := bind

/-- The call alone on the store, absent when it never ends. -/
def run : Call σ α → σ → Option (α × σ)
  | ret a, s => some (a,s)
  | tx update next, s => (next s).run (update s)
  | stuck, _ => none

theorem run_bind (p : Call σ α) (k : α → Call σ β) (s : σ) :
    (p.bind k).run s = (p.run s).bind (fun r => (k r.1).run r.2) := by
  induction p generalizing s with
  | ret a => rfl
  | tx update _ ih => exact ih s (update s)
  | stuck => rfl

def commit (f : σ → Except ε (α × σ)) (s : σ) : σ :=
  match f s with
  | .ok (_,s') => s'
  | .error _ => s

def transact (f : σ → Except ε (α × σ)) : ExceptT ε (Call σ) α :=
  .tx (commit f) (fun s => .ret ((f s).map Prod.fst))

theorem run_bind_eq_ok {s t : σ} {b : β}
    (h : run (p >>= k : ExceptT ε (Call σ) β) s = some (.ok b,t)) :
    ∃ a s', run p s = some (.ok a,s') ∧ run (k a) s' = some (.ok b,t) := by
  have hb : run (p >>= k : ExceptT ε (Call σ) β) s =
      (run p s).bind (fun r => run (ExceptT.bindCont k r.1) r.2) := run_bind _ _ s
  rw [hb,bind_eq_some_iff] at h
  obtain ⟨⟨r,s'⟩,hp,hk⟩ := h
  cases r with
  | ok a => exact ⟨a,s',hp,hk⟩
  | error e =>
    obtain ⟨he, -⟩ := Prod.mk.inj (some.inj hk)
    cases he

def view (f : σ → Except ε α) : ExceptT ε (Call σ) α := transact (fun s => (f s).map (·,s))

def compute (x : Except ε α) : ExceptT ε (Call σ) α := .ret x

end Call

/-- What every transaction keeps, and how it may change the store. -/
structure Discipline (σ : Type) where
  inv : σ → Prop
  le : σ → σ → Prop
  refl : ∀ s, le s s
  trans : ∀ {s t u}, le s t → le t u → le s u

namespace Discipline

variable {σ α β ε : Type} (D : Discipline σ)

/-- From a store that contains `s`, the transactions of the call keep the discipline and the result
satisfies `Q`, whatever others do between them. -/
def Guarantees (Q : σ → α → Prop) : Call σ α → σ → Prop
  | .ret a, s => Q s a
  | .tx update next, s => ∀ t, D.inv t → D.le s t →
      D.inv (update t) ∧ D.le t (update t) ∧ Guarantees Q (next t) (update t)
  | .stuck, _ => True

/-- The same for a call that may fail: nothing is said about the errors. -/
def Succeeds (Q : σ → α → Prop) (p : ExceptT ε (Call σ) α) (s : σ) : Prop :=
  D.Guarantees (fun t r => ∀ a, r = .ok a → Q t a) p s

variable {D} {s : σ} {Q : σ → α → Prop} {p : ExceptT ε (Call σ) α}

theorem Guarantees.mono {p : Call σ α} {R : σ → α → Prop} (h : D.Guarantees Q p s)
    (hQ : ∀ t a, Q t a → R t a) : D.Guarantees R p s := by
  induction p generalizing s with
  | ret a => exact hQ s a h
  | tx _ _ ih =>
    intro t ht hl
    obtain ⟨hi,he,hn⟩ := h t ht hl
    exact ⟨hi,he,ih t hn⟩
  | stuck => trivial

theorem Guarantees.of_le {p : Call σ α} {t : σ} (h : D.Guarantees Q p s)
    (ht : D.inv t) (hl : D.le s t)
    (hQ : ∀ u v a, D.inv v → D.le u v → Q u a → Q v a) : D.Guarantees Q p t := by
  cases p with
  | ret a => exact hQ s t a ht hl h
  | tx _ _ => exact fun u hu htu => h u hu (D.trans hl htu)
  | stuck => trivial

theorem Guarantees.bind {p : Call σ α} {k : α → Call σ β} {R : σ → β → Prop}
    (h : D.Guarantees Q p s)
    (hk : ∀ t a, Q t a → D.Guarantees R (k a) t) : D.Guarantees R (p.bind k) s := by
  induction p generalizing s with
  | ret a => exact hk s a h
  | tx _ _ ih =>
    intro t ht hl
    obtain ⟨hi,he,hn⟩ := h t ht hl
    exact ⟨hi,he,ih t hn⟩
  | stuck => trivial

theorem Succeeds.guarantees (h : D.Succeeds Q p s) :
    D.Guarantees (fun t r => ∀ a, r = .ok a → Q t a) p s := h

theorem succeeds_pure {a : α} (h : Q s a) : D.Succeeds Q (pure a : ExceptT ε (Call σ) α) s := by
  intro b hb
  rw [← Except.ok.inj hb]
  exact h

theorem succeeds_throw {e : ε} : D.Succeeds Q (throw e : ExceptT ε (Call σ) α) s := by
  intro b hb
  cases hb

theorem succeeds_compute {x : Except ε α} (h : ∀ a, x = .ok a → Q s a) :
    D.Succeeds Q (Call.compute x) s := h

theorem succeeds_stuck : D.Succeeds Q (Call.stuck : ExceptT ε (Call σ) α) s := trivial

theorem Succeeds.bind {k : α → ExceptT ε (Call σ) β} {R : σ → β → Prop} (h : D.Succeeds Q p s)
    (hk : ∀ t a, Q t a → D.Succeeds R (k a) t) : D.Succeeds R (p >>= k) s := by
  refine Guarantees.bind h fun t r hr => ?_
  cases r with
  | ok a => exact hk t a (hr a rfl)
  | error e =>
    intro b hb
    cases hb

theorem succeeds_transact {f : σ → Except ε (α × σ)}
    (h : ∀ t, D.inv t → D.le s t → ∀ a t', f t = .ok (a,t') → D.inv t' ∧ D.le t t' ∧ Q t' a) :
    D.Succeeds Q (Call.transact f) s := by
  intro t ht hl
  cases hf : f t with
  | ok r =>
    obtain ⟨a,t'⟩ := r
    have hc : Call.commit f t = t' := by simp [Call.commit,hf]
    obtain ⟨hi,he,hQ⟩ := h t ht hl a t' hf
    rw [hc]
    refine ⟨hi,he,fun b hb => ?_⟩
    rw [hf] at hb
    rw [← Except.ok.inj hb]
    exact hQ
  | error e =>
    have hc : Call.commit f t = t := by simp [Call.commit,hf]
    rw [hc]
    refine ⟨ht,D.refl t,fun b hb => ?_⟩
    rw [hf] at hb
    cases hb

theorem succeeds_view {f : σ → Except ε α}
    (h : ∀ t, D.inv t → D.le s t → ∀ a, f t = .ok a → Q t a) : D.Succeeds Q (Call.view f) s := by
  refine succeeds_transact fun t ht hl a t' hf => ?_
  cases hx : f t with
  | ok b =>
    rw [hx] at hf
    obtain ⟨rfl,rfl⟩ := Prod.mk.inj (Except.ok.inj hf)
    exact ⟨ht,D.refl _,h _ ht hl _ hx⟩
  | error e =>
    rw [hx] at hf
    cases hf

theorem succeeds_foldlM {J : σ → β → Prop} {f : β → α → ExceptT ε (Call σ) β} {l : List α} {b : β}
    (hJ : J s b) (hf : ∀ a ∈ l, ∀ t b, J t b → D.Succeeds J (f b a) t) :
    D.Succeeds J (l.foldlM f b) s := by
  induction l generalizing s b with
  | nil => exact succeeds_pure hJ
  | cons a l ih =>
    refine (hf a mem_cons_self s b hJ).bind fun t c hc => ?_
    exact ih hc fun a' ha' => hf a' (mem_cons_of_mem a ha')

-- unfolding it on a concrete call would evaluate the call
attribute [irreducible] Succeeds

end Discipline

inductive Thread (κ σ α : Type) where
  | waiting (request : κ)
  /-- Holds the mutex; `rest` is what is left of the call. -/
  | holding (request : κ) (rest : Call σ α)

structure Server (ι κ σ α : Type) where
  store : σ
  mu : Option ι
  threads : ι → Option (Thread κ σ α)
  /-- What has been returned so far, with the request it answers. -/
  returned : List (κ × α)

namespace Server

variable {ι κ σ α : Type}

inductive Action (ι κ : Type) where
  | call (i : ι) (request : κ)
  | lock (i : ι)
  | transact (i : ι)
  | reply (i : ι)
  /-- The process dies; the store survives and no call returns any more. -/
  | crash
  /-- Something other than a call writes to the store. -/
  | environment

section

variable [DecidableEq ι] {program : κ → Call σ α} {environment : σ → σ → Prop}

def setThread (s : Server ι κ σ α) (i : ι) (t : Option (Thread κ σ α)) :
    ι → Option (Thread κ σ α) :=
  fun j => if j = i then t else s.threads j

def step (program : κ → Call σ α) (valid : κ → Prop) (environment : σ → σ → Prop)
    (s : Server ι κ σ α) : Action ι κ → Server ι κ σ α → Prop
  | .call i r, s' => s.threads i = none ∧ valid r ∧
      s' = { s with threads := s.setThread i (some (.waiting r)) }
  | .lock i, s' => ∃ r, s.threads i = some (.waiting r) ∧ s.mu = none ∧
      s' = { s with mu := some i, threads := s.setThread i (some (.holding r (program r))) }
  | .transact i, s' => ∃ r update next, s.threads i = some (.holding r (.tx update next)) ∧
      s' = { s with
        store := update s.store
        threads := s.setThread i (some (.holding r (next s.store))) }
  | .reply i, s' => ∃ r a, s.threads i = some (.holding r (.ret a)) ∧
      s' = { s with
        mu := none
        threads := s.setThread i none
        returned := s.returned ++ [(r,a)] }
  | .crash, s' => s' = { s with mu := none, threads := fun _ => none }
  | .environment, s' => ∃ t, environment s.store t ∧ s' = { s with store := t }

def system (program : κ → Call σ α) (valid : κ → Prop) (environment : σ → σ → Prop)
    (start : σ → Prop) : System (Server ι κ σ α) (Action ι κ) where
  init s := start s.store ∧ s.mu = none ∧ (∀ i, s.threads i = none) ∧ s.returned = []
  step s a s' := s.step program valid environment a s'

def next (program : κ → Call σ α) (valid : κ → Prop) [DecidablePred valid]
    (s : Server ι κ σ α) : Action ι κ → Option (Server ι κ σ α)
  | .call i r =>
    match s.threads i with
    | none => if valid r then some { s with threads := s.setThread i (some (.waiting r)) } else none
    | some _ => none
  | .lock i =>
    match s.threads i, s.mu with
    | some (.waiting r), none =>
      some { s with mu := some i, threads := s.setThread i (some (.holding r (program r))) }
    | _, _ => none
  | .transact i =>
    match s.threads i with
    | some (.holding r (.tx update next)) =>
      some { s with
        store := update s.store
        threads := s.setThread i (some (.holding r (next s.store))) }
    | _ => none
  | .reply i =>
    match s.threads i with
    | some (.holding r (.ret a)) =>
      some { s with
        mu := none
        threads := s.setThread i none
        returned := s.returned ++ [(r,a)] }
    | _ => none
  | .crash => some { s with mu := none, threads := fun _ => none }
  | .environment => none

theorem step_of_next {valid : κ → Prop} [DecidablePred valid] {s s' : Server ι κ σ α}
    {a : Action ι κ}
    (h : s.next program valid a = some s') : s.step program valid environment a s' := by
  cases a with
  | call i r =>
    simp only [next] at h
    split at h
    case h_1 hi =>
      split at h
      case isTrue hr => exact ⟨hi,hr,(some.inj h).symm⟩
      case isFalse => cases h
    case h_2 => cases h
  | lock i =>
    simp only [next] at h
    split at h
    case h_1 r hi hm => exact ⟨r,hi,hm,(some.inj h).symm⟩
    case h_2 => cases h
  | transact i =>
    simp only [next] at h
    split at h
    case h_1 r update next hi => exact ⟨r,update,next,hi,(some.inj h).symm⟩
    case h_2 => cases h
  | reply i =>
    simp only [next] at h
    split at h
    case h_1 r a hi => exact ⟨r,a,hi,(some.inj h).symm⟩
    case h_2 => cases h
  | crash => exact (some.inj h).symm
  | environment => cases h

theorem reachable_of_next {valid : κ → Prop} [DecidablePred valid]
    {start : σ → Prop} {l : List (Action ι κ)}
    {s s' : Server ι κ σ α} (hs : (system program valid environment start).Reachable s)
    (h : l.foldlM (next program valid) s = some s') :
    (system program valid environment start).Reachable s' := by
  induction l generalizing s with
  | nil =>
    obtain rfl := some.inj h
    exact hs
  | cons a l ih =>
    rw [foldlM_cons] at h
    cases ht : s.next program valid a with
    | none =>
      rw [ht] at h
      cases h
    | some t =>
      rw [ht] at h
      exact ih (hs.step (step_of_next ht)) h

end

variable {program : κ → Call σ α} {valid : κ → Prop} {environment : σ → σ → Prop}
  {start : σ → Prop} {D : Discipline σ} {Q : σ → κ → α → Prop}

/-- The store is sound, running calls still guarantee their result, and every answer given so
far holds of the store. -/
structure Sound (D : Discipline σ) (valid : κ → Prop) (Q : σ → κ → α → Prop)
    (s : Server ι κ σ α) : Prop where
  inv : D.inv s.store
  waiting : ∀ i r, s.threads i = some (.waiting r) → valid r
  holding : ∀ i r rest, s.threads i = some (.holding r rest) →
    D.Guarantees (fun t a => Q t r a) rest s.store
  returned : ∀ p ∈ s.returned, Q s.store p.1 p.2

variable (hstart : ∀ s, start s → D.inv s)
  (henv : ∀ s t, environment s t → D.inv s → D.inv t ∧ D.le s t)
  (hprogram : ∀ r s, valid r → D.inv s → D.Guarantees (fun t a => Q t r a) (program r) s)
  (hstable : ∀ r s t a, D.inv t → D.le s t → Q s r a → Q t r a)

include hstable in
theorem Sound.write {s : Server ι κ σ α} {t : σ} (h : Sound D valid Q s) (ht : D.inv t)
    (hl : D.le s.store t) : Sound D valid Q { s with store := t } where
  inv := ht
  waiting := h.waiting
  holding i r rest hi := (h.holding i r rest hi).of_le ht hl fun _ _ _ => hstable r _ _ _
  returned p hp := hstable p.1 _ _ _ ht hl (h.returned p hp)

variable [DecidableEq ι]

theorem Sound.setThread {s : Server ι κ σ α} {i : ι} {o : Option (Thread κ σ α)}
    (h : Sound D valid Q s) (hw : ∀ r, o = some (.waiting r) → valid r)
    (hh : ∀ r rest, o = some (.holding r rest) → D.Guarantees (fun t a => Q t r a) rest s.store)
    (mu : Option ι) :
    Sound D valid Q { s with mu := mu, threads := s.setThread i o } where
  inv := h.inv
  waiting j r hj := by
    by_cases hji : j = i
    · simp only [Server.setThread,hji,if_true] at hj
      exact hw r hj
    · simp only [Server.setThread,hji,if_false] at hj
      exact h.waiting j r hj
  holding j r rest hj := by
    by_cases hji : j = i
    · simp only [Server.setThread,hji,if_true] at hj
      exact hh r rest hj
    · simp only [Server.setThread,hji,if_false] at hj
      exact h.holding j r rest hj
  returned := h.returned

include henv hprogram hstable in
theorem Sound.step {s s' : Server ι κ σ α} {a : Action ι κ} (h : Sound D valid Q s)
    (hs : s.step program valid environment a s') : Sound D valid Q s' := by
  cases a with
  | call i r =>
    obtain ⟨-,hv,rfl⟩ := hs
    refine h.setThread ?_ ?_ s.mu
    · rintro r' hr
      cases hr
      exact hv
    · rintro r' rest hr
      cases hr
  | lock i =>
    obtain ⟨r,hi, -,rfl⟩ := hs
    refine h.setThread ?_ ?_ (some i)
    · rintro r' hr
      cases hr
    · rintro r' rest hr
      cases hr
      exact hprogram r s.store (h.waiting i r hi) h.inv
  | transact i =>
    obtain ⟨r,update,next,hi,rfl⟩ := hs
    obtain ⟨hin,hl,hn⟩ := h.holding i r _ hi s.store h.inv (D.refl _)
    have hw := h.write hstable hin hl
    refine hw.setThread ?_ ?_ s.mu
    · rintro r' hr
      cases hr
    · rintro r' rest hr
      cases hr
      exact hn
  | reply i =>
    obtain ⟨r,a,hi,rfl⟩ := hs
    have hQ : Q s.store r a := h.holding i r _ hi
    have hf := h.setThread (i := i) (o := none) (fun _ hr => by cases hr)
      (fun _ _ hr => by cases hr) none
    refine { hf with returned := fun p hp => ?_ }
    rw [mem_append,mem_singleton] at hp
    obtain hp | rfl := hp
    · exact h.returned p hp
    · exact hQ
  | crash =>
    obtain rfl := hs
    refine ⟨h.inv,?_,?_,h.returned⟩
    · rintro i r hi
      cases hi
    · rintro i r rest hi
      cases hi
  | environment =>
    obtain ⟨t,ht,rfl⟩ := hs
    obtain ⟨hin,hl⟩ := henv s.store t ht h.inv
    exact h.write hstable hin hl

include hstart henv hprogram hstable in
/-- In every interleaving, with crashes, what each call guarantees on its own holds of all that
has been returned. -/
theorem sound_of_reachable {s : Server ι κ σ α}
    (h : (system program valid environment start).Reachable s) : Sound D valid Q s := by
  induction h with
  | init h0 =>
    obtain ⟨hs, -,ht,hr⟩ := h0
    refine ⟨hstart _ hs,?_,?_,?_⟩
    · intro i r hi
      rw [ht i] at hi
      cases hi
    · intro i r rest hi
      rw [ht i] at hi
      cases hi
    · intro p hp
      rw [hr] at hp
      cases hp
  | step _ hst ih => exact ih.step henv hprogram hstable hst

end Server

end AnonChain.Lib
