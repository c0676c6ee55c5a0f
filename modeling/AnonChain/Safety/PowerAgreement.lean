import AnonChain.Finality.Caches
import AnonChain.Finality.PowerDist
import AnonChain.Regtest
import AnonChain.Steps

/-! The voting power table and the distribution cache of a height are two views of one ranking. -/

namespace AnonChain

open Lib List Finality
open BtcStaking (Ctx)
open Finality (Stores PkHex inHexMap FinalityProviderDistInfo VotingPowerDistCache Env State)
open VotingPowerDistCache
  (applyActive_ranked sort_perm countActive_spec take_before_drop countActive_maximal new)

namespace Finality

variable {l : List PkHex} {dc : VotingPowerDistCache} {fp : FinalityProviderDistInfo}

theorem jailedEntry_of_unlisted (h : inHexMap l fp.btcPk = false) :
    jailedEntry l fp = fp := by simp [jailedEntry,h]

theorem unlisted_of_eligible (h : (jailedEntry l fp).Eligible) :
    inHexMap l fp.btcPk = false := by
  unfold jailedEntry at h
  cases hl : inHexMap l fp.btcPk with
  | false => rfl
  | true =>
    cases hs : fp.isSlashed with
    | true =>
      simp only [hl,hs,Bool.not_true,Bool.and_false,Bool.false_eq_true,if_false] at h
      have := h.2.2.2
      rw [hs] at this
      exact this
    | false =>
      simp only [hl,hs,Bool.not_false,Bool.and_true,if_true] at h
      have := h.2.2.1
      simp at this

theorem jailInCache_ranked (l : List PkHex) (hr : dc.Ranked) : (jailInCache l dc).Ranked := by
  rw [jailInCache_eq]
  refine applyActive_ranked _ ?_ ?_
  · have hm : (dc.finalityProviders.map (jailedEntry l)).map (·.btcPk) =
        dc.finalityProviders.map (·.btcPk) := by
      rw [map_map]
      exact map_congr_left (fun fp _ => (jailedEntry_keeps l fp).1)
    simp only [hm]
    exact hr.nodup
  · intro fp hf
    obtain ⟨fp₀,hf₀,rfl⟩ := mem_map.mp hf
    rw [(jailedEntry_keeps l fp₀).2.1]
    exact hr.bonded fp₀ hf₀

theorem mem_jailInCache :
    fp ∈ (jailInCache l dc).finalityProviders ↔
      ∃ fp₀ ∈ dc.finalityProviders, jailedEntry l fp₀ = fp := by
  rw [jailInCache_eq]
  simp only [VotingPowerDistCache.applyActiveFinalityProviders]
  rw [(sort_perm _).mem_iff,mem_map]

theorem eligible_jailInCache (h : fp ∈ (jailInCache l dc).finalityProviders) (he : fp.Eligible) :
    fp ∈ dc.finalityProviders ∧ inHexMap l fp.btcPk = false := by
  obtain ⟨fp₀,hf₀,rfl⟩ := mem_jailInCache.mp h
  have hu := unlisted_of_eligible he
  rw [jailedEntry_of_unlisted hu]
  exact ⟨hf₀,hu⟩

/-- No provider that moves up: no listed provider is active, or none that is not listed waits for
its place. -/
def NoPromotion (l : List PkHex) (dc : VotingPowerDistCache) : Prop :=
  (∀ fp ∈ dc.getActiveFinalityProviderSet, inHexMap l fp.btcPk = false) ∨
  (∀ fp ∈ dc.getInactiveFinalityProviderSet, fp.Eligible → inHexMap l fp.btcPk = true)

instance (l : List PkHex) (dc : VotingPowerDistCache) : Decidable (NoPromotion l dc) :=
  inferInstanceAs (Decidable (_ ∨ _))

theorem length_active (hr : dc.Ranked) :
    dc.getActiveFinalityProviderSet.length = dc.numActiveFps := by
  simp only [VotingPowerDistCache.getActiveFinalityProviderSet,length_take]
  have := hr.count
  omega

theorem nodup_active (hr : dc.Ranked) : dc.getActiveFinalityProviderSet.Nodup :=
  hr.nodup.of_map.sublist (take_sublist _ _)

theorem active_before_inactive (hr : dc.Ranked) {a fp : FinalityProviderDistInfo}
    (ha : a ∈ dc.getActiveFinalityProviderSet) (hf : fp ∈ dc.getInactiveFinalityProviderSet) :
    a.rank < fp.rank :=
  take_before_drop hr.sorted hr.nodup ha hf

theorem active_of_jailInCache (hr : dc.Ranked) (hn : NoPromotion l dc)
    (h : fp ∈ (jailInCache l dc).getActiveFinalityProviderSet) :
    fp ∈ dc.getActiveFinalityProviderSet ∧ inHexMap l fp.btcPk = false := by
  have hr' := jailInCache_ranked l hr
  obtain ⟨hm,hu⟩ := eligible_jailInCache (mem_of_mem_take h) (hr'.eligible fp h)
  refine ⟨?_,hu⟩
  have hsp : fp ∈ dc.getActiveFinalityProviderSet ∨ fp ∈ dc.getInactiveFinalityProviderSet := by
    rw [← take_append_drop dc.numActiveFps dc.finalityProviders] at hm
    exact mem_append.mp hm
  refine hsp.resolve_right ?_
  intro hi
  rcases hn with hac | hw
  · have hs : dc.getActiveFinalityProviderSet ⊆
        (jailInCache l dc).getActiveFinalityProviderSet := by
      intro a ha
      refine mem_take_of_rank_lt hr'.sorted h ?_ (active_before_inactive hr ha hi)
      exact mem_jailInCache.mpr ⟨a,mem_of_mem_take ha,jailedEntry_of_unlisted (hac a ha)⟩
    have hnt : fp ∉ dc.getActiveFinalityProviderSet :=
      fun ha => lt_irrefl _ (active_before_inactive hr ha hi)
    have hl : (fp :: dc.getActiveFinalityProviderSet).length ≤
        (jailInCache l dc).getActiveFinalityProviderSet.length :=
      (subperm_of_subset (nodup_cons.mpr ⟨hnt,nodup_active hr⟩)
        (cons_subset.mpr ⟨h,hs⟩)).length_le
    rw [length_cons,length_active hr,length_active hr'] at hl
    have : (jailInCache l dc).numActiveFps ≤ dc.numActiveFps := (countActive_spec _ _).1
    omega
  · rw [hw fp hi (hr'.eligible fp h)] at hu
    simp at hu

theorem jailInCache_active (hr : dc.Ranked) (hn : NoPromotion l dc) :
    fp ∈ (jailInCache l dc).getActiveFinalityProviderSet ↔
      fp ∈ dc.getActiveFinalityProviderSet ∧ inHexMap l fp.btcPk = false := by
  have hr' := jailInCache_ranked l hr
  refine ⟨active_of_jailInCache hr hn,?_⟩
  rintro ⟨ha,hu⟩
  have hm : fp ∈ (jailInCache l dc).finalityProviders :=
    mem_jailInCache.mpr ⟨fp,mem_of_mem_take ha,jailedEntry_of_unlisted hu⟩
  rcases countActive_maximal (m := dc.numActiveFps) hr'.sorted with hf | hrs
  · have hnm : (jailInCache l dc).numActiveFps = dc.numActiveFps := hf
    have hs : (jailInCache l dc).getActiveFinalityProviderSet ⊆ dc.getActiveFinalityProviderSet :=
      fun a ha' => (active_of_jailInCache hr hn ha').1
    have hp := (subperm_of_subset (nodup_active hr') hs).perm_of_length_le
      (by rw [length_active hr,length_active hr',hnm])
    exact hp.mem_iff.mpr ha
  · rw [← take_append_drop (jailInCache l dc).numActiveFps (jailInCache l dc).finalityProviders,
      mem_append] at hm
    exact hm.resolve_right (fun hd => hrs fp hd (hr.eligible fp ha))

theorem resumeHeight_agrees {ctx : Ctx} {s s' : State} {height : Nat}
    (h : resumeHeight ctx l s height = .ok s') : ∃ dc, s.votingPowerDistCache.get height = some dc ∧
      s'.votingPowerDistCache = s.votingPowerDistCache.set height (jailInCache l dc) ∧
      (∀ k, k ≠ height → s'.votingPower.get k = s.votingPower.get k) ∧
      (CacheAgrees s height dc → NoPromotion l dc → CacheAgrees s' height (jailInCache l dc)) := by
  simp only [resumeHeight,ok_iff] at h
  obtain ⟨dc,hd,h⟩ := h
  obtain ⟨i,y,rfl⟩ := handleFPStateUpdates_eq h
  have hg := getVotingPowerDistCache_eq_some hd
  obtain ⟨vp,hv,hne⟩ := setVotingPower_foldl (fun _ => 0) height
    (dc.finalityProviders.filter (fun fp => inHexMap l fp.btcPk)) s
  refine ⟨dc,hg,?_,?_,?_⟩
  · rw [hv]
    rfl
  · rw [hv]
    exact hne
  · intro hag hn
    have hls : ((dc.finalityProviders.filter (fun fp => inHexMap l fp.btcPk)).map
        (·.btcPk)).Nodup :=
      hag.ranked.nodup.sublist (filter_sublist.map _)
    obtain ⟨hi,ho⟩ := setVotingPower_foldl_power (fun _ => 0) height hls s
    refine ⟨jailInCache_ranked l hag.ranked,?_,?_⟩
    · intro fp hf
      obtain ⟨ha,hu⟩ := (jailInCache_active hag.ranked hn).mp hf
      refine (ho fp.btcPk ?_).trans (hag.powers fp ha)
      intro hm
      obtain ⟨fp',hf',he⟩ := mem_map.mp hm
      have hl := (mem_filter.mp hf').2
      rw [he,hu] at hl
      simp at hl
    · intro pk hp
      by_cases hm : pk ∈ (dc.finalityProviders.filter (fun fp => inHexMap l fp.btcPk)).map (·.btcPk)
      · obtain ⟨fp,hf,rfl⟩ := mem_map.mp hm
        exact hi fp hf
      · refine (ho pk hm).trans (hag.others pk ?_)
        intro fp ha he
        cases hu : inHexMap l fp.btcPk with
        | false => exact hp fp ((jailInCache_active hag.ranked hn).mpr ⟨ha,hu⟩) he
        | true =>
          exact hm (mem_map.mpr
            ⟨fp,mem_filter.mpr ⟨mem_of_mem_take ha,hu⟩,he⟩)

/-- The heights of a resume proposal, one after the other: those ahead still have the caches the
proposal found. -/
theorem resumeHeights_agree {ctx : Ctx} {n start : Nat} {s s' : State}
    (hn : ∀ k dc, start ≤ k → s.votingPowerDistCache.get k = some dc → NoPromotion l dc)
    (ha : ∀ k dc, s.votingPowerDistCache.get k = some dc → CacheAgrees s k dc)
    (h : (List.range' start n).foldlM (resumeHeight ctx l) s = .ok s') :
    (∀ k dc, s'.votingPowerDistCache.get k = some dc → CacheAgrees s' k dc) ∧
      ∀ k, start+n ≤ k → s'.votingPower.get k = s.votingPower.get k := by
  induction n generalizing start s with
  | zero =>
    rw [range'_zero,foldlM_nil,pure_eq_ok] at h
    subst h
    exact ⟨ha,fun _ _ => rfl⟩
  | succ n ih =>
    rw [range'_succ,foldlM_cons,bind_eq_ok] at h
    obtain ⟨s₁,hs₁,h⟩ := h
    obtain ⟨dc,hd,hc,hp,hst⟩ := resumeHeight_agrees hs₁
    have hg : ∀ k, s₁.votingPowerDistCache.get k =
        if k = start then some (jailInCache l dc) else s.votingPowerDistCache.get k := by
      intro k
      rw [hc]
      exact KVStore.get_set _ _ _ _
    have hn₁ : ∀ k dc, start+1 ≤ k → s₁.votingPowerDistCache.get k = some dc →
        NoPromotion l dc := by
      intro k dc' hk hd'
      rw [hg,if_neg (by omega)] at hd'
      exact hn k dc' (by omega) hd'
    have ha₁ : ∀ k dc, s₁.votingPowerDistCache.get k = some dc → CacheAgrees s₁ k dc := by
      intro k dc' hd'
      rw [hg] at hd'
      split at hd'
      case isTrue hk =>
        rw [hk,← Option.some.inj hd']
        exact hst (ha start dc hd) (hn start dc le_rfl hd)
      case isFalse hk => exact (ha k dc' hd').congr (hp k hk)
    obtain ⟨hal,hab⟩ := ih hn₁ ha₁ h
    refine ⟨hal,?_⟩
    intro k hk
    rw [hab k (by omega),hp k (by omega)]

end Finality

/-- No accepted proposal makes an inactive provider active at a height it rewrites. -/
def ResumePromotesNobody (E : Env) (c : Chain) (a : Action) (c' : Chain) : Prop :=
  ∀ m, a = .fin (.resumeFinalityProposal m) → deliver E c a = .ok c' →
    ∀ k dc, m.haltingHeight ≤ k → c.stores.fin.votingPowerDistCache.get k = some dc →
      Finality.NoPromotion m.fpPksHex dc

structure AgreeInv (c : Chain) : Prop where
  caches : ∀ k dc, c.stores.fin.votingPowerDistCache.get k = some dc →
    Finality.CacheAgrees c.stores.fin k dc
  tables : ∀ k t, c.stores.fin.votingPower.get k = some t → k ≤ c.ctx.header.height

section

variable {E : Env} {c : Chain}

theorem AgreeInv.of_frame {c' : Chain} (hi : AgreeInv c) (hh : c'.ctx.header = c.ctx.header)
    (hc : ∀ k dc, c'.stores.fin.votingPowerDistCache.get k = some dc →
      c.stores.fin.votingPowerDistCache.get k = some dc)
    (hp : c'.stores.fin.votingPower = c.stores.fin.votingPower) : AgreeInv c' := by
  refine ⟨?_,?_⟩
  · intro k dc hd
    exact (hi.caches k dc (hc k dc hd)).congr (by rw [hp])
  · rw [hp,hh]
    exact hi.tables

theorem lastVotingPowerDistCache_nodup (hi : AgreeInv c) (k : Nat) :
    ((c.stores.fin.lastVotingPowerDistCache k).finalityProviders.map (·.btcPk)).Nodup := by
  unfold State.lastVotingPowerDistCache State.getVotingPowerDistCache
  cases hd : c.stores.fin.votingPowerDistCache.get k with
  | none => simp [new]
  | some dc =>
    simp only
    split
    · simp [new]
    · exact (hi.caches k dc hd).ranked.nodup

theorem AgreeInv.beginBlock {ctx : Ctx} {stores : Stores} {time : Nat} {appHash : Bytes}
    (hi : AgreeInv c) (hb : BaseInv c) (ctx_eq : ctx = c.nextCtx time appHash)
    (run : c.beginBlocker ctx = .ok stores) :
    AgreeInv ⟨ctx,true,stores⟩ := by
  obtain ⟨cur,last,dc,ps,_,_,hal,_,hp,he⟩ := updatePowerDist_effect run
  have hh : ctx.header.height = c.ctx.header.height+1 := by rw [ctx_eq]
  have hky : (c.stores.stk.indexBTCHeight ctx).FpKeyed := by
    intro pk fp hf
    rw [indexBTCHeight_providers] at hf
    exact hb.providers pk fp hf
  have hn := lastVotingPowerDistCache_nodup hi (ctx.header.height-1)
  obtain ⟨_,_,_,hdc⟩ := (processAll_eq_ok hky hn).mp hal
  have hd : (dc.finalityProviders.map (·.btcPk)).Nodup := by
    rw [← hdc]
    exact newDist_nodup hky hn
  have hbn : ∀ fp ∈ dc.finalityProviders, 0 < fp.totalBondedSat := by
    rw [← hdc]
    exact fun fp hf => newDist_bonded hky hf
  have hnn : c.stores.fin.votingPower.get ctx.header.height = none := by
    cases hg : c.stores.fin.votingPower.get ctx.header.height with
    | none => rfl
    | some t =>
      have := hi.tables _ t hg
      omega
  have ha : Finality.CacheAgrees (c.stores.fin.recordVotingPowerAndCache ctx dc).1 ctx.header.height
      (c.stores.fin.recordVotingPowerAndCache ctx dc).2 :=
    recordVotingPowerAndCache_agrees hd hbn hnn
  have hc : stores.fin.votingPowerDistCache = c.stores.fin.votingPowerDistCache.set
      ctx.header.height (c.stores.fin.recordVotingPowerAndCache ctx dc).2 := by rw [he.fin]
  refine ⟨?_,?_⟩
  · intro k dc' hdc'
    rw [hc] at hdc'
    rcases KVStore.get_set_cases hdc' with ⟨rfl,rfl⟩ | ⟨hk,hdc'⟩
    · exact ha.congr (by rw [hp])
    · exact (hi.caches k dc' hdc').congr (he.tables k hk)
  · intro k t ht
    by_cases hk : k = ctx.header.height
    · exact hk.le
    · have := hi.tables k t (by rw [← he.tables k hk]; exact ht)
      simp only [hh]
      omega

theorem AgreeInv.resume {stores : Stores} {m : Finality.MsgResumeFinalityProposal} (hi : AgreeInv c)
    (hn : ∀ k dc, m.haltingHeight ≤ k → c.stores.fin.votingPowerDistCache.get k = some dc →
      Finality.NoPromotion m.fpPksHex dc)
    (run : Finality.resumeFinalityProposal c.stores c.ctx m = .ok stores) :
    AgreeInv ⟨c.ctx,c.inBlock,stores⟩ := by
  simp only [resumeFinalityProposal,handleResumeFinalityProposal,ok_iff] at run
  obtain ⟨_,_,_,_,hle,t,ht,fin,hf,rfl⟩ := run
  obtain ⟨i,b,hl⟩ : ∃ i b, t.fin = { c.stores.fin with signingInfo := i, missedBlockBitmap := b } :=
    ⟨_,_,(jailListed_foldlM ht).2⟩
  have hc : t.fin.votingPowerDistCache = c.stores.fin.votingPowerDistCache := by rw [hl]
  have hp : t.fin.votingPower = c.stores.fin.votingPower := by rw [hl]
  obtain ⟨hag,ha⟩ := resumeHeights_agree
    (by rw [hc]; exact hn)
    (by rw [hc]; exact fun k dc hd => (hi.caches k dc hd).congr (by rw [hp])) hf
  refine ⟨hag,?_⟩
  intro k v hv
  rcases Nat.lt_or_ge c.ctx.header.height k with hlt | hg
  · rw [ha k (by omega),hp] at hv
    exact hi.tables k v hv
  · exact hg

theorem AgreeInv.step {a : Action} {c' : Chain} (hi : AgreeInv c) (hb : BaseInv c)
    (h : StepEffect E c a c')
    (ho : deliver E c a = .ok c') (hn : ResumePromotesNobody E c a c') : AgreeInv c' := by
  cases h with
  | beginBlock _ ctx_eq run => exact hi.beginBlock hb ctx_eq run
  | @endBlock _ _ _ run =>
    have he := endBlocker_effect hb.blocks run
    exact hi.of_frame rfl he.caches (by rw [he.fin])
  | @between _ _ _ header _ effect =>
    cases effect with
    | quiet fin _ => exact hi.of_frame header (by rw [fin]; exact fun _ _ h => h) (by rw [fin])
    | vote _ effect =>
      exact hi.of_frame header (by rw [effect.caches]; exact fun _ _ h => h) effect.frame.2.1
    | commit effect =>
      exact hi.of_frame header (by rw [effect.fin]; exact fun _ _ h => h) (by rw [effect.fin])
    | params _ fin => exact hi.of_frame header (by rw [fin]; exact fun _ _ h => h) (by rw [fin])
    | resume action run =>
      have hr := hi.resume (hn _ action ho) run
      exact ⟨hr.caches,by rw [header]; exact hr.tables⟩

end

/-- Where resume proposals promote nobody, the providers with power at a height are exactly the
active ones of its cache, each with its stake, and the cache has their sum. -/
theorem powerTable_agrees_of_noPromotion {E : Finality.Env} {c : Chain}
    (h : ((chain E).restrict (ResumePromotesNobody E)).Reachable c) (k : Nat)
    (dc : VotingPowerDistCache) (hdc : c.stores.fin.votingPowerDistCache.get k = some dc) :
    (∀ pk, 0 < c.stores.fin.getVotingPower pk k ↔
      ∃ fp ∈ dc.getActiveFinalityProviderSet, fp.btcPk = pk) ∧
    (∀ fp ∈ dc.getActiveFinalityProviderSet,
      c.stores.fin.getVotingPower fp.btcPk k = fp.totalBondedSat) ∧
    dc.totalVotingPower = (dc.getActiveFinalityProviderSet.map (·.totalBondedSat)).sum := by
  have hin : AgreeInv c := by
    refine h.invariant (P := AgreeInv) ?_ ?_
    · exact fun c hg => ⟨by simp [hg.noCache],by simp [hg.noPower]⟩
    · rintro c a c' hr hi ⟨ho | ⟨_,_,rfl⟩,hno⟩
      · exact hi.step (baseInv hr.of_restrict) (deliver_effect ho) ho hno
      · exact hi
  have ha := hin.caches k dc hdc
  refine ⟨?_,ha.powers,ha.ranked.total⟩
  intro pk
  constructor
  · intro hp
    by_contra hn
    have hz := ha.others pk (fun fp hf he => hn ⟨fp,hf,he⟩)
    omega
  · rintro ⟨fp,hf,rfl⟩
    rw [ha.powers fp hf]
    exact ha.ranked.bonded fp (mem_of_mem_take hf)

def Regtest.jailSecond : List Action :=
  [beginBlock 1] ++ join 1 30 ++ join 2 20 ++ join 3 10 ++
    [.endBlock,beginBlock 2,.fin (.resumeFinalityProposal ⟨some [7],[⟨bytes 2,0⟩],2⟩)]

open Regtest in
/-- With two active places, the third provider moves up in the cache and has no power in the
table. -/
theorem resume_promotes_without_power : ∃ c dc, (chain env).Reachable c ∧
    c.stores.fin.votingPowerDistCache.get 2 = some dc ∧
    (∃ fp ∈ dc.getActiveFinalityProviderSet, fp.btcPk = bytes 3 ∧ fp.totalBondedSat = 10) ∧
    c.stores.fin.getVotingPower (bytes 3) 2 = 0 := by
  have hr : holds (deliverAll env (genesis 2) jailSecond) (fun c =>
      (c.stores.fin.votingPowerDistCache.get 2).any (fun dc =>
        dc.getActiveFinalityProviderSet.any (fun fp => fp.btcPk == bytes 3 &&
          fp.totalBondedSat == 10)) &&
        c.stores.fin.getVotingPower (bytes 3) 2 == 0) = true := by decide +kernel
  obtain ⟨c,hc,ht⟩ := holds_iff.mp hr
  simp only [Bool.and_eq_true,Option.any_eq_true,any_eq_true,beq_iff_eq] at ht
  obtain ⟨⟨dc,hd,fp,hf,hp,hs⟩,hz⟩ := ht
  exact ⟨c,dc,reachable_deliverAll (.init genesis_init) hc,hd,⟨fp,hf,hp,hs⟩,hz⟩

def Regtest.promotesNobody (c : Chain) (a : Action) (_ : Chain) : Bool :=
  match a with
  | .fin (.resumeFinalityProposal m) => c.stores.fin.votingPowerDistCache.entries.all (fun e =>
    !decide (m.haltingHeight ≤ e.1) || decide (Finality.NoPromotion m.fpPksHex e.2))
  | _ => true

theorem Regtest.promotesNobody_spec (c : Chain) (a : Action) (c' : Chain)
    (h : promotesNobody c a c' = true) : ResumePromotesNobody env c a c' := by
  rintro m rfl _ k dc hl hd
  simp only [promotesNobody,all_eq_true] at h
  have hk := h (k,dc) (KVStore.mem_entries.mpr hd)
  simpa [hl] using hk

open Regtest in
/-- With three active places the same proposal leaves two active providers. -/
theorem powerTable_agrees_of_noPromotion_jailed : ∃ c dc,
    ((chain env).restrict (ResumePromotesNobody env)).Reachable c ∧
    c.stores.fin.votingPowerDistCache.get 2 = some dc ∧ dc.numActiveFps = 2 ∧
    dc.totalVotingPower = (dc.getActiveFinalityProviderSet.map (·.totalBondedSat)).sum := by
  have hrn : holds (jailSecond.foldlM (deliverChecked env promotesNobody) (genesis 3)) (fun c =>
      (c.stores.fin.votingPowerDistCache.get 2).any (fun dc => dc.numActiveFps == 2)) = true := by
    decide +kernel
  obtain ⟨c,hr,ht⟩ := reachable_deliverChecked promotesNobody_spec (.init genesis_init) hrn
  simp only [Option.any_eq_true,beq_iff_eq] at ht
  obtain ⟨dc,hd,hn⟩ := ht
  exact ⟨c,dc,hr,hd,hn,(powerTable_agrees_of_noPromotion hr 2 dc hd).2.2⟩

end AnonChain
