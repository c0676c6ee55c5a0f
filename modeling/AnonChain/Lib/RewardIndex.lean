import AnonChain.Lib.KVStore

/-! Rewards by a cumulative index: a holder is owed its weight times the growth since its pay. -/

namespace AnonChain.Lib

open List KVStore

namespace KVStore

variable {K V M : Type} [LinearOrder K]

theorem sumBy_set [AddCommMonoid M] (f : K → V → M) (s : KVStore K V) (k : K) (v : V) :
    sumBy f (s.set k v)+(s.get k).elim 0 (f k) = sumBy f s+f k v := by
  cases h : s.get k with
  | none =>
    rw [sumBy_set_new f v h,Option.elim_none,add_zero,add_comm]
  | some v₀ =>
    rw [Option.elim_some,sumBy_set_old f v h,add_comm]

theorem sum_filter_ne [AddCommMonoid M] {f : K → V → M} {k : K} {l : List (K × V)}
    (hs : l.Pairwise (fun a b => a.1 < b.1)) :
    ((l.filter (fun e => decide (e.1 ≠ k))).map (fun e => f e.1 e.2)).sum+(readEntry k l).elim 0
      (f k) = (l.map (fun e => f e.1 e.2)).sum := by
  induction l with
  | nil => simp
  | cons e l ih =>
    obtain ⟨he,hl⟩ := pairwise_cons.mp hs
    by_cases hk : e.1 = k
    · subst hk
      have hn : readEntry e.1 l = none := readEntry_eq_none_of_lt he
      have hr := ih hl
      rw [hn,Option.elim_none,add_zero] at hr
      simp only [ne_eq,decide_not] at hr
      simp [readEntry,hr,add_comm]
    · rw [readEntry,if_neg (Ne.symm hk),filter_cons_of_pos (by simpa using hk),map_cons,
        sum_cons,map_cons,sum_cons,add_assoc,ih hl]

theorem sumBy_delete [AddCommMonoid M] (f : K → V → M) (s : KVStore K V) (k : K) :
    sumBy f (s.delete k)+(s.get k).elim 0 (f k) = sumBy f s :=
  sum_filter_ne s.sorted

variable {f g : K → V → Int} {s : KVStore K V}

theorem sumBy_nonneg (h : ∀ k v, s.get k = some v → 0 ≤ f k v) : 0 ≤ sumBy f s := by
  refine sum_nonneg ?_
  intro x hx
  obtain ⟨e,he,rfl⟩ := mem_map.mp hx
  exact h e.1 e.2 (mem_entries.mp he)

theorem le_sumBy (h : ∀ k v, s.get k = some v → 0 ≤ f k v) {k : K} {v : V} (hk : s.get k = some v) :
    f k v ≤ sumBy f s := by
  refine single_le_sum ?_ _ (mem_map_of_mem (mem_entries.mpr hk))
  intro x hx
  obtain ⟨e,he,rfl⟩ := mem_map.mp hx
  exact h e.1 e.2 (mem_entries.mp he)

theorem sumBy_le_sumBy (h : ∀ k v, s.get k = some v → f k v ≤ g k v) : sumBy f s ≤ sumBy g s := by
  refine sum_le_sum ?_
  intro e he
  exact h e.1 e.2 (mem_entries.mp he)

theorem sumBy_mul_left (c : Int) (f : K → V → Int) (s : KVStore K V) :
    sumBy (fun k v => c*f k v) s = c*sumBy f s := by simp [sumBy,sum_map_mul_left]

end KVStore

namespace RewardIndex

variable {K V G : Type} [LinearOrder K] [DecidableEq G] (group : K → G) (weight : V → Int)

def weightIn (holders : KVStore K V) (g : G) : Int :=
  holders.sumBy (fun k v => if group k = g then weight v else 0)

/-- What all holders are owed, in units of the index, when `start` is the index at which each of
them was last paid. -/
def owed (index : G → Int) (start : K → V → Int) (holders : KVStore K V) : Int :=
  holders.sumBy (fun k v => weight v*(index (group k)-start k v))

variable {group weight} {index index' : G → Int} {start : K → V → Int} {holders : KVStore K V}

/-- When the index of one group grows, its holders are owed the growth for each unit of weight. -/
theorem owed_grow {g : G} {q : Int} (hg : index' g = index g+q)
    (hn : ∀ g', g' ≠ g → index' g' = index g') : owed group weight index' start holders =
      owed group weight index start holders+weightIn group weight holders g*q := by
  rw [owed,owed,weightIn,mul_comm,← sumBy_mul_left,← sumBy_add]
  refine sumBy_congr ?_
  intro k v _
  by_cases hk : group k = g
  · rw [hk,hg,if_pos rfl]
    ring
  · rw [hn _ hk,if_neg hk]
    ring

/-- Shared out by truncating division, the rewards add no more than themselves to what the holders
are owed. -/
theorem owed_share_le {g : G} {rewards : Int} (hr : 0 ≤ rewards)
    (hw : 0 ≤ weightIn group weight holders g)
    (hg : index' g = index g+rewards/weightIn group weight holders g)
    (hn : ∀ g', g' ≠ g → index' g' = index g') :
    owed group weight index' start holders ≤ owed group weight index start holders+rewards := by
  rw [owed_grow hg hn]
  rcases hw.eq_or_lt with hz | hp
  · simpa [← hz] using hr
  · have hd := Int.mul_ediv_self_le (x := rewards) (k := weightIn group weight holders g) hp.ne'
    linarith

variable (group) in
theorem weightIn_set {k : K} {v : V} (g : G) :
    weightIn group weight (holders.set k v) g +
        (if group k = g then (holders.get k).elim 0 weight else 0) =
      weightIn group weight holders g+if group k = g then weight v else 0 := by
  have hs := sumBy_set (fun k v => if group k = g then weight v else 0) holders k v
  by_cases hk : group k = g
  · simpa [weightIn,hk] using hs
  · cases hg : holders.get k <;> simpa [weightIn,hk,hg] using hs

end RewardIndex

end AnonChain.Lib
