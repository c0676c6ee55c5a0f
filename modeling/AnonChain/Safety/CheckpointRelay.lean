import AnonChain.Relayer

/-! The pairs the relayer stores, and how often it sends the first transaction of an epoch. -/

namespace AnonChain.Relayer

open Lib BtcTxFormatter List
open BtcLightClient (MsgTx)

def Carries (C : Config) (tx : MsgTx) (data : Bytes) : Prop :=
  ∃ script, C.dataScript data = .ok script ∧ tx.txOut.head? = some ⟨0,script⟩

def IsFirst (C : Config) (epoch : Nat) (tx1 : MsgTx) : Prop :=
  ∃ data1 data2, C.encodeCheckpointData epoch = .ok (data1,data2) ∧ Carries C tx1 data1 ∧
    changePosition < tx1.txOut.length

def IsPair (C : Config) (epoch : Nat) (tx1 tx2 : MsgTx) : Prop :=
  ∃ data1 data2, C.encodeCheckpointData epoch = .ok (data1,data2) ∧ Carries C tx1 data1 ∧
    Carries C tx2 data2 ∧
    ∃ i ∈ tx2.txIn, i.previousOutPoint.hash = C.txHash tx1 ∧
    i.previousOutPoint.index < tx1.txOut.length

section

variable {C : Config} {n : Node} {tx tx' tx1 tx2 : MsgTx} {data data1 data2 : Bytes} {epoch : Nat}

theorem Extends.trans {tx'' : MsgTx} (h : Extends tx tx') (h' : Extends tx' tx'') :
    Extends tx tx'' where
  head := h'.head.trans h.head
  length := h.length.trans h'.length
  inputs i hi := by
    obtain ⟨i',hi',he⟩ := h.inputs i hi
    obtain ⟨i'',hi'',he'⟩ := h'.inputs i' hi'
    exact ⟨i'',hi'',he'.trans he⟩

theorem Extends.append {outs : List BtcLightClient.TxOut} (hn : tx.txOut ≠ []) :
    Extends tx { tx with txOut := tx.txOut ++ outs } where
  head := head?_append_of_ne_nil _ hn
  length := by simp
  inputs i hi := ⟨i,hi,rfl⟩

theorem finalizeTransaction_extends (h : finalizeTransaction n tx = .ok tx') : Extends tx tx' := by
  unfold finalizeTransaction at h
  split at h
  · exact n.sign_extends _ _ (Result.wrap_eq_ok.mp h)
  · obtain ⟨_,_,h⟩ := bind_eq_ok.mp h
    exact n.sign_extends _ _ (Result.wrap_eq_ok.mp h)

theorem buildAndSendTx_built {built : Result MsgTx} (h : buildAndSendTx n built = .ok tx) :
    built = .ok tx := by
  simp only [buildAndSendTx,ok_iff] at h
  obtain ⟨_,hb,_,_,rfl⟩ := h
  exact hb

theorem sendFirst_carries (h : sendFirst C n data1 = .ok tx1) :
    Carries C tx1 data1 ∧ changePosition < tx1.txOut.length := by
  have h := buildAndSendTx_built h
  simp only [buildDataTx,ok_iff] at h
  obtain ⟨script,hs,funded,hf,h⟩ := h
  have he := n.fund_extends _ _ hf
  split at h
  case isTrue hc =>
    have hfn := finalizeTransaction_extends h
    exact ⟨⟨script,hs,(he.trans hfn).head⟩,hc.trans_le hfn.length⟩
  case isFalse =>
    simp only [ok_iff] at h
    obtain ⟨change,_,refunded,hr,h⟩ := h
    have ho : 1 ≤ funded.txOut.length := he.length
    have hn : funded.txOut ≠ [] := ne_nil_of_length_pos ho
    have hfn := (n.fund_extends _ _ hr).trans (finalizeTransaction_extends h)
    refine ⟨⟨script,hs,((he.trans (.append hn)).trans hfn).head⟩,?_⟩
    have hl := hfn.length
    rw [length_append] at hl
    exact (Nat.add_le_add_right ho 1).trans hl

theorem IsFirst.pair (hfr : IsFirst C epoch tx1)
    (he : C.encodeCheckpointData epoch = .ok (data1,data2))
    (h : sendSecond C n data2 tx1 = .ok tx2) : IsPair C epoch tx1 tx2 := by
  obtain ⟨_,_,he',hc,hch⟩ := hfr
  rw [he] at he'
  cases he'
  have h := buildAndSendTx_built h
  simp only [buildChainedDataTx,ok_iff] at h
  obtain ⟨script,hs,funded,hf,h⟩ := h
  have het := (n.fund_extends _ _ hf).trans (finalizeTransaction_extends h)
  obtain ⟨i,hi,heq⟩ := het.inputs _ (mem_singleton_self _)
  exact ⟨data1,data2,he,hc,⟨script,hs,het.head⟩,i,hi,by rw [heq],by rw [heq]; exact hch⟩

end

section

variable {C : Config} {n : Node} {s s' : State} {epoch : Nat} {tx1 tx2 : MsgTx}

/-- A first transaction that was sent is known to later calls: the remembered checkpoint has reached
its epoch, or it is the stored one. -/
def Known (s : State) (p : Nat × MsgTx) : Prop :=
  (s.lastSubmittedCheckpoint.tx1 ≠ none ∧ p.1 ≤ s.lastSubmittedCheckpoint.epoch) ∨
    ∃ c, s.store = some c ∧ c.epoch = p.1 ∧ c.tx1 = p.2

/-- A checkpoint is remembered in part only at epoch zero, where a fresh memory starts, and then the
store has no pair for that epoch. -/
structure RelayInv (C : Config) (s : State) : Prop where
  first : ∀ tx1, s.lastSubmittedCheckpoint.tx1 = some tx1 →
    IsFirst C s.lastSubmittedCheckpoint.epoch tx1
  pair : ∀ tx1 tx2, s.lastSubmittedCheckpoint.tx1 = some tx1 →
    s.lastSubmittedCheckpoint.tx2 = some tx2 → IsPair C s.lastSubmittedCheckpoint.epoch tx1 tx2
  fresh : s.lastSubmittedCheckpoint.tx1 = none → s.lastSubmittedCheckpoint.tx2 = none
  partly : s.lastSubmittedCheckpoint.tx2 = none → s.lastSubmittedCheckpoint.epoch = 0 ∧
    (s.lastSubmittedCheckpoint.tx1 ≠ none → ∀ c, s.store = some c → c.epoch ≠ 0)
  stored : ∀ c, s.store = some c → IsPair C c.epoch c.tx1 c.tx2
  known : ∀ p ∈ s.sent, p.1 ≤ s.epoch ∧ Known s p
  once : ∀ p ∈ s.sent, ∀ q ∈ s.sent, p.1 = q.1 → p.2 = q.2

theorem once_append {l : List (Nat × MsgTx)} {p : Nat × MsgTx}
    (h : ∀ a ∈ l, ∀ b ∈ l, a.1 = b.1 → a.2 = b.2)
    (hp : ∀ a ∈ l, a.1 = p.1 → a.2 = p.2) :
    ∀ a ∈ l ++ [p], ∀ b ∈ l ++ [p], a.1 = b.1 → a.2 = b.2 := by
  simp only [mem_append,mem_singleton]
  rintro a (ha | rfl) b (hb | rfl) he
  · exact h a ha b hb he
  · exact hp a ha he
  · exact (hp b hb he.symm).symm
  · rfl

theorem storeCkpt_inv (hpr : IsPair C epoch tx1 tx2) (hf : IsFirst C epoch tx1)
    (hst : ∀ c, s.store = some c → IsPair C c.epoch c.tx1 c.tx2) (he : s.epoch = epoch)
    (hs : ∀ p ∈ s.sent, p.1 ≤ epoch) (ho : ∀ p ∈ s.sent, ∀ q ∈ s.sent, p.1 = q.1 → p.2 = q.2) :
    RelayInv C (storeCkpt n s epoch tx1 tx2).2 where
  first := by
    rintro _ ⟨⟩
    exact hf
  pair := by
    rintro _ _ ⟨⟩ ⟨⟩
    exact hpr
  fresh := nofun
  partly := nofun
  stored c hc := by
    simp only [storeCkpt] at hc
    split at hc
    · cases hc
      exact hpr
    · exact hst c hc
  known p hp := ⟨(hs p hp).trans_eq he.symm,.inl ⟨nofun,hs p hp⟩⟩
  once := ho

theorem shouldSendCompleteCkpt_iff {c : CheckpointInfo} :
    c.shouldSendCompleteCkpt epoch = true ↔ c.tx1 = none ∨ c.epoch < epoch := by
  simp [CheckpointInfo.shouldSendCompleteCkpt]

theorem RelayInv.sent_stored (hi : RelayInv C s) {p : Nat × MsgTx} (hp : p ∈ s.sent)
    (hc : s.lastSubmittedCheckpoint.tx1 = none ∨ s.lastSubmittedCheckpoint.epoch < p.1) :
    ∃ c, s.store = some c ∧ c.epoch = p.1 ∧ c.tx1 = p.2 := by
  rcases (hi.known p hp).2 with ⟨hn,hl⟩ | hs
  · exact absurd hc (by simp [hn,hl])
  · exact hs

theorem maybeResendFromStore_cases (n : Node) (s : State) (epoch : Nat) :
    (maybeResendFromStore n s epoch = (.ok false,s) ∧ ∀ c, s.store = some c → c.epoch ≠ epoch) ∨
    ((maybeResendFromStore n s epoch).1 ≠ .ok false ∧ ((maybeResendFromStore n s epoch).2 = s ∨
      ∃ c, s.store = some c ∧ c.epoch = epoch ∧
        (maybeResendFromStore n s epoch).2 = { s with sent := s.sent ++ [(epoch,c.tx1)] })) := by
  unfold maybeResendFromStore
  split
  case h_1 => exact .inr ⟨nofun,.inl rfl⟩
  case h_2 hnn => exact .inl ⟨rfl,by simp [hnn]⟩
  case h_3 c _ hc =>
    split
    case isTrue hn => exact .inl ⟨rfl,by simpa [hc] using hn⟩
    case isFalse he =>
      split
      · exact .inr ⟨nofun,.inl rfl⟩
      · rename_i again _
        refine .inr ⟨by cases maybeResendFunc n c.tx2 <;> simp [Except.map],?_⟩
        cases again with
        | false => exact .inl rfl
        | true => exact .inr ⟨c,hc,not_not.mp he,rfl⟩

theorem RelayInv.resend (hi : RelayInv C s) {c : StoredCheckpoint} (hc : s.store = some c)
    (he : s.epoch = c.epoch)
    (hcm : s.lastSubmittedCheckpoint.tx1 = none ∨ s.lastSubmittedCheckpoint.epoch < c.epoch) :
    RelayInv C { s with sent := s.sent ++ [(c.epoch,c.tx1)] } :=
  { hi with
    known := by
      intro p hp
      rcases mem_append.mp hp with hp | hp
      · exact hi.known p hp
      · cases mem_singleton.mp hp
        exact ⟨he.ge,.inr ⟨c,hc,rfl,rfl⟩⟩
    once := once_append hi.once fun p hp heq => by
      obtain ⟨c',hc',_,ht⟩ := hi.sent_stored hp (heq ▸ hcm)
      cases hc.symm.trans hc'
      exact ht.symm }

/-- The second transaction of the call goes out whenever the first one does, unless the epoch is not
past the remembered one. -/
def SecondFollows (C : Config) (s : State) : Action → Prop
  | .send epoch n => s.lastSubmittedCheckpoint.epoch < epoch → ∀ data1 data2 tx1,
      C.encodeCheckpointData epoch = .ok (data1,data2) → sendFirst C n data1 = .ok tx1 →
        ∃ tx2, sendSecond C n data2 tx1 = .ok tx2
  | .restart => True

theorem RelayInv.submit (hi : RelayInv C s) (he : s.epoch = epoch)
    (hcm : s.lastSubmittedCheckpoint.tx1 = none ∨ s.lastSubmittedCheckpoint.epoch < epoch)
    (hst : ∀ c, s.store = some c → c.epoch ≠ epoch) (hsc : SecondFollows C s (.send epoch n)) :
    RelayInv C (convertCkptToTwoTxAndSubmit C n s epoch).2 := by
  unfold convertCkptToTwoTxAndSubmit
  split
  · exact hi
  rename_i data1 data2 hen
  split
  · exact hi
  rename_i tx1 htx1
  have hf : IsFirst C epoch tx1 := ⟨data1,data2,hen,sendFirst_carries htx1⟩
  have hs : ∀ p ∈ s.sent ++ [(epoch,tx1)], p.1 ≤ epoch := by
    intro p hp
    rcases mem_append.mp hp with hp | hp
    · exact he ▸ (hi.known p hp).1
    · cases mem_singleton.mp hp
      exact le_rfl
  have ho := once_append (p := (epoch,tx1)) hi.once fun p hp heq => by
    obtain ⟨c,hc,hcq,_⟩ := hi.sent_stored hp (heq ▸ hcm)
    exact absurd (hcq.trans heq) (hst c hc)
  split
  case h_2 tx2 htx2 => exact storeCkpt_inv (hf.pair hen htx2) hf hi.stored he hs ho
  case h_1 err her =>
    -- the second transaction failed, so the memory is the one of a new process
    have hl : epoch ≤ s.lastSubmittedCheckpoint.epoch := by
      by_contra hlt
      obtain ⟨tx2,htx2⟩ := hsc (not_le.mp hlt) data1 data2 tx1 hen htx1
      exact nomatch her.symm.trans htx2
    have htx1 := hcm.resolve_right hl.not_gt
    have htx2 := hi.fresh htx1
    have hz := (hi.partly htx2).1
    have hepoch0 : epoch = 0 := Nat.le_zero.mp (hz ▸ hl)
    exact {
      first := by
        rintro _ ⟨⟩
        exact (hz.trans hepoch0.symm) ▸ hf
      pair := fun _ _ _ h => nomatch htx2.symm.trans h
      fresh := nofun
      partly := fun _ => ⟨hz,fun _ => hepoch0 ▸ hst⟩
      stored := hi.stored
      known := fun p hp => ⟨(hs p hp).trans_eq he.symm,.inl ⟨nofun,(hs p hp).trans hl⟩⟩
      once := ho }

theorem RelayInv.retry (hi : RelayInv C s) (he : s.epoch = epoch)
    (hl : epoch ≤ s.lastSubmittedCheckpoint.epoch) (hn : s.lastSubmittedCheckpoint.tx2 = none) :
    RelayInv C (retrySendTx2 C n s epoch).2 := by
  have hs : s.lastSubmittedCheckpoint.epoch = epoch := by
    have hz := (hi.partly hn).1
    omega
  unfold retrySendTx2
  split
  · exact hi
  · exact hi
  · rename_i data1 data2 tx1 hen htx1
    have hf : IsFirst C epoch tx1 := hs ▸ hi.first tx1 htx1
    split
    · exact hi
    · rename_i tx2 htx2
      exact storeCkpt_inv (hf.pair hen htx2) hf hi.stored he
        (fun p hp => he ▸ (hi.known p hp).1) hi.once

theorem RelayInv.resent (hi : RelayInv C s) (he : s.epoch = epoch)
    (ha : (s.lastSubmittedCheckpoint.shouldSendCompleteCkpt epoch ||
      s.lastSubmittedCheckpoint.shouldSendTx2 epoch) =
      true) : RelayInv C (maybeResendFromStore n s epoch).2 := by
  rcases maybeResendFromStore_cases n s epoch with ⟨heq,_⟩ | ⟨_,heq | ⟨c,hc,rfl,heq⟩⟩
  · rw [heq]
    exact hi
  · rw [heq]
    exact hi
  · rw [heq]
    refine hi.resend hc he ?_
    by_contra hn
    rw [Bool.or_eq_true,shouldSendCompleteCkpt_iff] at ha
    have htx2 : s.lastSubmittedCheckpoint.tx2 = none := by
      simpa using (Bool.and_eq_true_iff.mp (ha.resolve_left hn)).2
    rw [not_or,not_lt] at hn
    obtain ⟨hz,hs⟩ := hi.partly htx2
    exact hs hn.1 c hc (Nat.le_zero.mp (hz ▸ hn.2))

theorem RelayInv.call (hi : RelayInv C s) (he : s.epoch = epoch)
    (hs : SecondFollows C s (.send epoch n)) : RelayInv C (sendCheckpointToBTC C n s epoch).2 := by
  unfold sendCheckpointToBTC
  dsimp only
  by_cases ha : (s.lastSubmittedCheckpoint.shouldSendCompleteCkpt epoch ||
    s.lastSubmittedCheckpoint.shouldSendTx2 epoch) = true
  · rw [if_pos ha]
    have hr := hi.resent (n := n) he ha
    rcases maybeResendFromStore_cases n s epoch with ⟨heq,hst⟩ | ⟨hn,_⟩
    · rw [heq]
      dsimp only
      split
      case isTrue hc => exact hi.submit he (shouldSendCompleteCkpt_iff.mp hc) hst hs
      case isFalse hc =>
        have htx2 := (Bool.and_eq_true_iff.mp ((Bool.or_eq_true_iff.mp ha).resolve_left hc)).2
        rw [shouldSendCompleteCkpt_iff,not_or,not_lt] at hc
        rw [if_pos (by simpa [hc,CheckpointInfo.shouldSendTx2] using htx2)]
        exact hi.retry he hc.2 (by simpa using htx2)
    · generalize maybeResendFromStore n s epoch = r at hn hr ⊢
      rcases r with ⟨_ | _ | _,s'⟩
      · exact hr
      · exact absurd rfl hn
      · exact hr
  · rw [if_neg ha]
    rw [Bool.or_eq_true,not_or] at ha
    simpa only [if_neg ha.1,if_neg ha.2] using hi

theorem relayInv {s : State}
    (h : ((relayer C).restrict fun s a _ => SecondFollows C s a).Reachable s) : RelayInv C s := by
  refine h.invariant ?_ ?_
  · rintro _ rfl
    exact ⟨nofun,nofun,fun _ => rfl,fun _ => ⟨rfl,fun h => absurd rfl h⟩,nofun,nofun,nofun⟩
  · rintro s (⟨epoch,n⟩ | _) s' - hi ⟨hs,hsc⟩
    · obtain ⟨hl,rfl⟩ := hs
      have hi' : RelayInv C { s with epoch := epoch } :=
        { hi with known := fun p hp => ⟨(hi.known p hp).1.trans hl,(hi.known p hp).2⟩ }
      exact hi'.call rfl hsc
    · cases hs
      exact ⟨nofun,nofun,fun _ => rfl,fun _ => ⟨rfl,fun h => absurd rfl h⟩,hi.stored,nofun,nofun⟩

/-- Where no second transaction fails after its first one went out, a process sends one first
transaction for an epoch, and what is stored or remembered is a pair of its epoch. -/
theorem checkpoint_pairs_sound {C : Config} {s : State}
    (h : ((relayer C).restrict fun s a _ => SecondFollows C s a).Reachable s) :
    (∀ epoch tx tx', (epoch,tx) ∈ s.sent → (epoch,tx') ∈ s.sent → tx = tx') ∧
    (∀ c, s.store = some c → IsPair C c.epoch c.tx1 c.tx2) ∧
    ∀ tx1 tx2, s.lastSubmittedCheckpoint.tx1 = some tx1 → s.lastSubmittedCheckpoint.tx2 = some tx2 →
      IsPair C s.lastSubmittedCheckpoint.epoch tx1 tx2 :=
  have hi := relayInv h
  ⟨fun _ _ _ hp hq => hi.once _ hp _ hq rfl,hi.stored,hi.pair⟩

end

namespace RelayRun

def config : Config where
  sha256 _ := List.replicate 32 0
  tag := List.replicate 4 0
  version := 0
  txHash tx := [Fin.ofNat 256 tx.lockTime]
  dataScript data := .ok (106 :: data)
  rawCkpt epoch := .ok ⟨epoch,List.replicate 32 0,List.replicate 13 0,List.replicate 20 0,
    List.replicate 48 0⟩

/-- A node whose wallet adds a change output. It accepts first and second transactions as told. -/
def node (id : Nat) (first second : Bool) : Node where
  fundRawTransaction
    | ⟨_,[],_⟩ => .error (.errorf "TX must have at least one output")
    | ⟨txIn,out :: outs,_⟩ => .ok ⟨txIn,out :: outs ++ [⟨1000,[]⟩],id⟩
  changePkScript := .ok []
  changeAddress _ := .ok ()
  signTx := .ok
  getRawTransaction _ := .known
  sendRawTransaction tx := if (if tx.txIn = [] then first else second) then .accepted
    else .rejected (.errorf "insufficient fee")
  readStore := .ok ()
  putCheckpoint := .ok ()
  fund_extends := by
    rintro ⟨txIn,_ | ⟨out,outs⟩,_⟩ _ ⟨⟩
    exact ⟨rfl,by simp,fun i hi => ⟨i,hi,rfl⟩⟩
  sign_extends := by
    rintro tx _ ⟨⟩
    exact ⟨rfl,le_rfl,fun i hi => ⟨i,hi,rfl⟩⟩

/-- After a failed second transaction the epoch's next call starts from the first one again. -/
theorem first_transaction_sent_twice :
    ∃ s, (relayer config).Reachable s ∧ ∃ p ∈ s.sent, ∃ q ∈ s.sent, p.1 = 5 ∧ q.1 = 5 ∧ p.2 ≠ q.2 :=
  ⟨_,.step (a := .send 5 (node 2 true true)) (.step (a := .send 5 (node 1 true false)) (.init rfl)
    ⟨Nat.zero_le 5,rfl⟩) ⟨le_rfl,rfl⟩,by decide +kernel⟩

theorem reachable_send {s : State} {epoch : Nat} {n : Node}
    (h : ((relayer config).restrict fun s a _ => SecondFollows config s a).Reachable s)
    (he : s.epoch ≤ epoch) (hs : SecondFollows config s (.send epoch n)) :
    ((relayer config).restrict fun s a _ => SecondFollows config s a).Reachable
      (sendCheckpointToBTC config n { s with epoch := epoch } epoch).2 :=
  h.step (a := .send epoch n) ⟨⟨he,rfl⟩,hs⟩

/-- The pair of epoch 5 goes out, the first transaction of epoch 6 is refused, and then its pair
goes out. -/
theorem checkpoint_pairs_sound_second :
    ∃ s, ((relayer config).restrict fun s a _ => SecondFollows config s a).Reachable s ∧
      s.sent.map Prod.fst = [5,6] ∧ s.store.map (·.epoch) = some 6 ∧
      ∀ c, s.store = some c → IsPair config c.epoch c.tx1 c.tx2 := by
  have h5 := @reachable_send _ 5 (node 1 true true) (.init rfl) (Nat.zero_le 5)
    fun _ _ _ _ _ _ => ⟨_,rfl⟩
  have h6 := @reachable_send _ 6 (node 2 false true) h5 (by decide +kernel)
    fun _ _ _ _ _ h => nomatch h
  have hr := @reachable_send _ 6 (node 3 true true) h6 (by decide +kernel)
    fun _ _ _ _ _ _ => ⟨_,rfl⟩
  exact ⟨_,hr,by decide +kernel,by decide +kernel,(checkpoint_pairs_sound hr).2.1⟩

end RelayRun

end AnonChain.Relayer
