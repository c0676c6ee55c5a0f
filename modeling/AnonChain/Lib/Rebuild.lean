import AnonChain.Lib.Indexed

/-! Loops that write every element of a list under a key of its own. -/

namespace AnonChain.Lib

open List

section

variable {σ α κ β : Type} {f : σ → α → σ} {key : α → κ} {view : σ → κ → β} {put : β → α → β}

/-- `f` writes under the key of its argument and nowhere else. -/
structure WritesAt (f : σ → α → σ) (key : α → κ) (view : σ → κ → β) (put : β → α → β) : Prop where
  here : ∀ s a, view (f s a) (key a) = put (view s (key a)) a
  elsewhere : ∀ s a k, k ≠ key a → view (f s a) k = view s k

theorem WritesAt.foldl_elsewhere (h : WritesAt f key view put) {l : List α} {s : σ} {k : κ}
    (hk : k ∉ l.map key) : view (l.foldl f s) k = view s k := by
  induction l generalizing s with
  | nil => rfl
  | cons a l ih =>
    simp only [map_cons,mem_cons,not_or] at hk
    rw [foldl_cons,ih hk.2,h.elsewhere s a k hk.1]

/-- With distinct keys every element is written once, on what was there before. -/
theorem WritesAt.foldl_here (h : WritesAt f key view put) {l : List α} {s : σ}
    (hn : (l.map key).Nodup) {a : α}
    (ha : a ∈ l) : view (l.foldl f s) (key a) = put (view s (key a)) a := by
  induction l generalizing s with
  | nil => cases ha
  | cons b l ih =>
    rw [map_cons,nodup_cons] at hn
    rw [foldl_cons]
    rcases mem_cons.mp ha with rfl | ha
    · rw [h.foldl_elsewhere hn.1,h.here]
    · have hne : key a ≠ key b := fun he => hn.1 (he ▸ mem_map_of_mem ha)
      rw [ih hn.2 ha,h.elsewhere s b (key a) hne]

end

theorem foldl_part {σ τ α : Type} (read : σ → τ) (write : σ → τ → σ)
    (hr : ∀ s t, read (write s t) = t)
    (hw : ∀ s t t', write (write s t) t' = write s t')
    (hs : ∀ s, write s (read s) = s) (g : τ → α → τ)
    (l : List α) (s : σ) : l.foldl (fun s a => write s (g (read s) a)) s = write s
      (l.foldl g (read s)) := by
  induction l generalizing s with
  | nil => exact (hs s).symm
  | cons a l ih => rw [foldl_cons,ih,hr,hw,foldl_cons]

theorem foldlM_values {ε σ K V : Type} {f : σ → V → Except ε σ} (put : σ → K × V → σ)
    {l : List (K × V)} (h : ∀ e ∈ l, ∀ s, f s e.2 = .ok (put s e)) (s : σ) :
    (l.map Prod.snd).foldlM f s = .ok (l.foldl put s) := by
  induction l generalizing s with
  | nil => rfl
  | cons e l ih =>
    rw [map_cons,foldlM_cons,h e mem_cons_self s]
    exact ih (fun d hd => h d (mem_cons_of_mem e hd)) (put s e)

namespace KVStore

variable {K L V α : Type} [LinearOrder K] [LinearOrder L] {t : KVStore K V}

theorem writesAt_set (key : α → K) (val : α → V) :
    WritesAt (fun (s : KVStore K V) a => s.set (key a) (val a)) key get
      (fun _ a => some (val a)) where
  here s a := get_set_self s (key a) (val a)
  elsewhere s a _ hk := get_set_ne s (val a) hk

/-- A list that holds what a store holds, each under its key, rebuilds the store. -/
theorem foldl_set_eq (key : α → K) (val : α → V) {l : List α} (hn : (l.map key).Nodup)
    (hm : ∀ k v, t.get k = some v ↔ ∃ a ∈ l, key a = k ∧ val a = v) :
    l.foldl (fun (s : KVStore K V) a => s.set (key a) (val a)) empty = t := by
  have hw := writesAt_set key val
  refine ext_get fun k => ?_
  by_cases hk : k ∈ l.map key
  · obtain ⟨a,ha,rfl⟩ := mem_map.mp hk
    rw [hw.foldl_here hn ha]
    exact ((hm (key a) (val a)).mpr ⟨a,ha,rfl,rfl⟩).symm
  · rw [hw.foldl_elsewhere hk]
    cases hg : t.get k with
    | none => rfl
    | some v =>
      obtain ⟨a,ha,rfl, -⟩ := (hm k v).mp hg
      exact absurd (mem_map_of_mem ha) hk

theorem map_values_eq {key : V → α} {g : K → α} (h : ∀ k v, t.get k = some v → key v = g k) :
    (t.entries.map Prod.snd).map key = t.keys.map g := by
  rw [map_map,keys,map_map]
  exact map_congr_left fun e he => h e.1 e.2 (mem_entries.mp he)

theorem foldl_set_records (key : α → K) (val : α → V) (pack : K × V → α)
    (hky : ∀ e ∈ t.entries, key (pack e) = e.1) (hv : ∀ e ∈ t.entries, val (pack e) = e.2) :
    (t.entries.map pack).foldl (fun (s : KVStore K V) a => s.set (key a) (val a)) empty = t := by
  refine foldl_set_eq key val ?_ ?_
  · have hk : (t.entries.map pack).map key = t.keys := by
      rw [map_map,keys]
      exact map_congr_left hky
    rw [hk]
    exact t.keys_nodup
  · intro k v
    constructor
    · intro hg
      have he := mem_entries.mpr hg
      exact ⟨pack (k,v),mem_map_of_mem he,hky _ he,hv _ he⟩
    · rintro ⟨a,ha,rfl,rfl⟩
      obtain ⟨e,he,rfl⟩ := mem_map.mp ha
      rw [hky e he,hv e he]
      exact mem_entries.mp he

theorem foldl_set_values (key : V → K) (hk : ∀ k v, t.get k = some v → key v = k) :
    (t.entries.map Prod.snd).foldl (fun (s : KVStore K V) v => s.set (key v) v) empty = t :=
  foldl_set_records key id Prod.snd (fun e he => hk e.1 e.2 (mem_entries.mp he)) (fun _ _ => rfl)

theorem foldl_set_entries (t : KVStore K V) :
    t.entries.foldl (fun (s : KVStore K V) e => s.set e.1 e.2) empty = t := by
  have hr := foldl_set_records (t := t) Prod.fst Prod.snd id (fun _ _ => rfl) (fun _ _ => rfl)
  rw [map_id] at hr
  exact hr

theorem sub_foldl_set₂ (m : K) (key : α → L) (val : α → V) (l : List α)
    (s : KVStore K (KVStore L V)) (m' : K) :
    (l.foldl (fun sets a => sets.set₂ m (key a) (val a)) s).sub m' =
      if m' = m then l.foldl (fun (t : KVStore L V) a => t.set (key a) (val a))
        (s.sub m) else s.sub m' := by
  induction l generalizing s with
  | nil =>
    split
    · rename_i hm
      rw [hm]
      rfl
    · rfl
  | cons a l ih =>
    rw [foldl_cons,ih,foldl_cons,sub_set₂,if_pos rfl]
    split
    · rfl
    · rename_i hm
      rw [sub_set₂,if_neg hm]

theorem indexed_foldl (l : List V) (s : KVStore Nat V) (l₀ : List V) (h : s.Indexed l₀) :
    (l.foldl (fun (q : KVStore Nat V × Nat) v => (q.1.set q.2 v,q.2+1)) (s,l₀.length)).1.Indexed
      (l₀ ++ l) ∧
      (l.foldl (fun (q : KVStore Nat V × Nat) v => (q.1.set q.2 v,q.2+1)) (s,l₀.length)).2 =
        (l₀ ++ l).length := by
  induction l generalizing s l₀ with
  | nil => simpa using h
  | cons v l ih =>
    have hs := ih (s.set l₀.length v) (l₀ ++ [v]) (h.snoc v)
    simpa [append_assoc] using hs

theorem sub_foldl_counted (m : K) (l : List V) (s : KVStore K (KVStore Nat V)) (i : Nat) :
    (l.foldl (fun (q : KVStore K (KVStore Nat V) × Nat) v => (q.1.set₂ m q.2 v,q.2+1))
      (s,i)).1.sub m =
        (l.foldl (fun (q : KVStore Nat V × Nat) v => (q.1.set q.2 v,q.2+1)) (s.sub m,i)).1 ∧
      (l.foldl (fun (q : KVStore K (KVStore Nat V) × Nat) v => (q.1.set₂ m q.2 v,q.2+1)) (s,i)).2 =
        (l.foldl (fun (q : KVStore Nat V × Nat) v => (q.1.set q.2 v,q.2+1)) (s.sub m,i)).2 ∧
      ∀ m', m' ≠ m →
        (l.foldl (fun (q : KVStore K (KVStore Nat V) × Nat) v => (q.1.set₂ m q.2 v,q.2+1))
          (s,i)).1.sub m' =
          s.sub m' := by
  induction l generalizing s i with
  | nil => exact ⟨rfl,rfl,fun _ _ => rfl⟩
  | cons v l ih =>
    obtain ⟨hh,hc,he⟩ := ih (s.set₂ m i v) (i+1)
    rw [sub_set₂,if_pos rfl] at hh hc
    refine ⟨hh,hc,fun m' hm' => ?_⟩
    rw [foldl_cons,he m' hm',sub_set₂,if_neg hm']

end KVStore

end AnonChain.Lib
