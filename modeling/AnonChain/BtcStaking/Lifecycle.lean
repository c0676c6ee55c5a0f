import AnonChain.BtcStaking.Types
import AnonChain.Lib.Agenda

/-! The life of a delegation: announcements by messages, and the power changes blocks make. -/

namespace AnonChain.BtcStaking

structure Stake where
  included : Bool
  signed : Bool
  unbonded : Bool
  start : Nat
  expiry : Nat

/-- What a message can do to one delegation at the Bitcoin height `tip`, with the announced
statuses and the filed expiries. -/
inductive Stake.Move (tip : Nat) :
    Option Stake → Option Stake → List BTCDelegationStatus → List Nat → Prop where
  | stay (o : Option Stake) : Move tip o o [] []
  | register {x : Stake} (unsigned : x.signed = false) (bonded : x.unbonded = false)
      (timely : x.included = true → x.start ≤ tip ∧ tip < x.expiry) :
      Move tip none (some x) [] (if x.included then [x.expiry] else [])
  | prove {x : Stake} {start expiry : Nat} (absent : x.included = false) (signed : x.signed = true)
      (bonded : x.unbonded = false) (begun : start ≤ tip) (unexpired : tip < expiry) :
      Move tip (some x) (some { x with included := true, start := start, expiry := expiry })
        [.ACTIVE] [expiry]
  | sign {x : Stake} {signed : Bool} (bonded : x.unbonded = false)
      (kept : x.signed = true → signed = true) :
      Move tip (some x) (some { x with signed := signed })
        (if x.included && !x.signed && signed then [.ACTIVE] else []) []
  | unbond {x : Stake} (bonded : x.unbonded = false)
      (unexpired : x.included = true → x.signed = true → tip < x.expiry) :
      Move tip (some x) (some { x with unbonded := true })
        (if x.included then [.UNBONDED] else []) []

inductive StakeChange where
  | add
  | remove
  deriving DecidableEq

namespace Stake

/-- What an announced status changes when it is processed. -/
def onStatus (x : Stake) : BTCDelegationStatus → Option StakeChange
  | .ACTIVE => some .add
  | .UNBONDED => if x.signed then some .remove else none
  | _ => none

/-- The expiry is processed by the block that moves the indexed tip from `last` to `cur`. -/
def due (x : Stake) (last cur : Nat) : Bool := x.included ∧ last < x.expiry ∧ x.expiry ≤ cur

/-- The changes of the block that moves the indexed tip, after the statuses `pending`. -/
def changes (x : Stake) (pending : List BTCDelegationStatus) (last cur : Nat) : List StakeChange :=
  pending.filterMap x.onStatus ++
    if x.due last cur && !x.unbonded && x.signed then [.remove] else []

end Stake

/-- The expiry that is still filed under a height, when the heights up to `indexed` are done. -/
def Stake.filedAt (indexed : Nat) (o : Option Stake) (height : Nat) : Nat :=
  match o with
  | none => 0
  | some x => if x.included = true ∧ x.expiry = height ∧ indexed < height then 1 else 0

theorem Stake.Move.filedAt {indexed tip : Nat} {o o' : Option Stake}
    {new : List BTCDelegationStatus}
    {filed : List Nat} (h : Stake.Move tip o o' new filed) (hl : indexed ≤ tip) (height : Nat) :
    Stake.filedAt indexed o' height = Stake.filedAt indexed o height+filed.count height := by
  cases h with
  | stay => simp
  | @register x _ _ timely =>
    cases hi : x.included with
    | false => simp [Stake.filedAt,hi]
    | true =>
      have hlt := (timely hi).2
      by_cases he : x.expiry = height
      · have : indexed < height := by omega
        simp [Stake.filedAt,hi,he,this]
      · simp [Stake.filedAt,hi,he]
  | @prove x _ expiry absent _ _ _ _ =>
    by_cases he : expiry = height
    · have : indexed < height := by omega
      simp [Stake.filedAt,absent,he,this]
    · simp [Stake.filedAt,absent,he]
  | sign => simp [Stake.filedAt]
  | unbond => simp [Stake.filedAt]

theorem Stake.sum_filedAt (x : Stake) (last cur : Nat) :
    ((List.range' last (cur+1-last)).map (Stake.filedAt last (some x))).sum =
      if x.due last cur then 1 else 0 := by
  by_cases ho : x.included = true ∧ last < x.expiry
  · have hf : Stake.filedAt last (some x) = fun h => if h = x.expiry then 1 else 0 := by
      funext h
      by_cases he : h = x.expiry
      · simp [Stake.filedAt,ho,he]
      · simp [Stake.filedAt,he,Ne.symm he]
    rw [hf,Lib.sum_range'_single]
    simp only [Stake.due,ho,decide_eq_true_eq,true_and]
    split <;> split <;> omega
  · have hf : Stake.filedAt last (some x) = fun _ => 0 := by
      funext h
      simp only [Stake.filedAt,ite_eq_right_iff]
      rintro ⟨hi,rfl,hl⟩
      exact absurd ⟨hi,hl⟩ ho
    have hd : x.due last cur = false := by
      simp only [Stake.due,decide_eq_false_iff_not]
      rintro ⟨hi,hl,_⟩
      exact ho ⟨hi,hl⟩
    simp [hf,hd]

/-- Where a delegation stands, by the statuses announced in the current block and the changes made
so far. -/
inductive Phase (indexed : Nat) :
    Option Stake → List BTCDelegationStatus → List StakeChange → Prop where
  | absent : Phase indexed none [] []
  | waiting {x : Stake} (incomplete : x.included = true → x.signed = false) :
      Phase indexed (some x) [] []
  | withdrawn {x : Stake} (unsigned : x.signed = false) (unbonded : x.unbonded = true) :
      Phase indexed (some x) [.UNBONDED] []
  | activating {x : Stake} (included : x.included = true) (signed : x.signed = true)
      (bonded : x.unbonded = false) : Phase indexed (some x) [.ACTIVE] []
  | passing {x : Stake} (included : x.included = true) (signed : x.signed = true)
      (unbonded : x.unbonded = true) : Phase indexed (some x) [.ACTIVE,.UNBONDED] []
  | active {x : Stake} (included : x.included = true) (signed : x.signed = true)
      (bonded : x.unbonded = false) : Phase indexed (some x) [] [.add]
  | leaving {x : Stake} (included : x.included = true) (signed : x.signed = true)
      (unbonded : x.unbonded = true) : Phase indexed (some x) [.UNBONDED] [.add]
  | left {x : Stake} (included : x.included = true) (signed : x.signed = true)
      (ended : x.unbonded = true ∨ x.expiry ≤ indexed) : Phase indexed (some x) [] [.add,.remove]

namespace Phase

variable {indexed : Nat} {o o' : Option Stake} {pending new : List BTCDelegationStatus}
  {changes : List StakeChange} {filed : List Nat}

theorem once (h : Phase indexed o pending changes) : changes <+: [.add,.remove] := by
  cases h <;> decide

theorem pending_of_none (h : Phase indexed none pending changes) : pending = [] ∧ changes = [] := by
  cases h
  exact ⟨rfl,rfl⟩

theorem stay_of_unbonded {tip : Nat} {x : Stake} (h : Stake.Move tip (some x) o' new filed)
    (unbonded : x.unbonded = true) : o' = some x ∧ new = [] := by
  cases h with
  | stay => exact ⟨rfl,rfl⟩
  | prove _ _ bonded => simp [unbonded] at bonded
  | sign bonded => simp [unbonded] at bonded
  | unbond bonded => simp [unbonded] at bonded

theorem unbond_of_full {tip : Nat} {x : Stake} (h : Stake.Move tip (some x) o' new filed)
    (included : x.included = true) (signed : x.signed = true) : (o' = some x ∧ new = []) ∨
      (o' = some { x with unbonded := true } ∧ new = [.UNBONDED] ∧ tip < x.expiry) := by
  cases h with
  | stay => exact .inl ⟨rfl,rfl⟩
  | prove absent => simp [included] at absent
  | @sign _ b _ kept =>
    refine .inl ⟨?_,by simp [signed]⟩
    rw [kept signed,← signed]
  | unbond _ unexpired => exact .inr ⟨rfl,by simp [included],unexpired included signed⟩

theorem move {tip : Nat} (h : Phase indexed o pending changes) (hm : Stake.Move tip o o' new filed)
    (ht : indexed ≤ tip) : Phase indexed o' (pending ++ new) changes := by
  cases h with
  | absent =>
    cases hm with
    | stay => exact .absent
    | register unsigned => exact .waiting (fun _ => unsigned)
  | @waiting x incomplete =>
    cases hm with
    | stay => exact .waiting incomplete
    | prove _ signed bonded => exact .activating rfl signed bonded
    | @sign _ b bonded _ =>
      cases hi : x.included with
      | false => simpa [hi] using Phase.waiting (x := { x with signed := b }) (by simp [hi])
      | true =>
        have hu : x.signed = false := incomplete hi
        cases b with
        | false => simpa [hi] using Phase.waiting (x := { x with signed := false }) (fun _ => rfl)
        | true => simpa [hi,hu] using
            Phase.activating (x := { x with signed := true }) hi rfl bonded
    | unbond _ =>
      cases hi : x.included with
      | false => simpa [hi] using Phase.waiting (x := { x with unbonded := true }) (by simp [hi])
      | true => simpa [hi] using
          Phase.withdrawn (x := { x with unbonded := true }) (incomplete hi) rfl
  | withdrawn unsigned unbonded =>
    obtain ⟨rfl,rfl⟩ := stay_of_unbonded hm unbonded
    exact .withdrawn unsigned unbonded
  | activating included signed bonded =>
    rcases unbond_of_full hm included signed with ⟨rfl,rfl⟩ | ⟨rfl,rfl,_⟩
    · exact .activating included signed bonded
    · exact .passing included signed rfl
  | passing included signed unbonded =>
    obtain ⟨rfl,rfl⟩ := stay_of_unbonded hm unbonded
    exact .passing included signed unbonded
  | active included signed bonded =>
    rcases unbond_of_full hm included signed with ⟨rfl,rfl⟩ | ⟨rfl,rfl,_⟩
    · exact .active included signed bonded
    · exact .leaving included signed rfl
  | leaving included signed unbonded =>
    obtain ⟨rfl,rfl⟩ := stay_of_unbonded hm unbonded
    exact .leaving included signed unbonded
  | left included signed ended =>
    rcases unbond_of_full hm included signed with ⟨rfl,rfl⟩ | ⟨rfl,rfl,hlt⟩
    · exact .left included signed ended
    · -- past its expiry it cannot be unbonded any more
      rcases ended with unbonded | hl
      · obtain ⟨_,hn⟩ := stay_of_unbonded hm unbonded
        simp at hn
      · omega

theorem beginBlock {x : Stake} {cur : Nat} (h : Phase indexed (some x) pending changes)
    (hl : indexed ≤ cur) : Phase cur (some x) [] (changes ++ x.changes pending indexed cur) := by
  cases h with
  | waiting incomplete =>
    have hn : x.changes [] indexed cur = [] := by
      cases hi : x.included with
      | false => simp [Stake.changes,Stake.due,hi]
      | true => simp [Stake.changes,incomplete hi]
    rw [hn]
    exact .waiting incomplete
  | withdrawn unsigned _ =>
    have hn : x.changes [.UNBONDED] indexed cur = [] := by
      simp [Stake.changes,Stake.onStatus,unsigned]
    rw [hn]
    exact .waiting (fun _ => unsigned)
  | activating included signed bonded =>
    cases hd : x.due indexed cur with
    | false => simpa [Stake.changes,Stake.onStatus,hd] using Phase.active included signed bonded
    | true =>
      have he : x.expiry ≤ cur := by
        simp only [Stake.due,decide_eq_true_eq] at hd
        exact hd.2.2
      simpa [Stake.changes,Stake.onStatus,hd,bonded,signed] using
        Phase.left included signed (.inr he)
  | passing included signed unbonded =>
    simpa [Stake.changes,Stake.onStatus,signed,unbonded] using
      Phase.left included signed (.inl unbonded)
  | active included signed bonded =>
    cases hd : x.due indexed cur with
    | false => simpa [Stake.changes,hd] using Phase.active included signed bonded
    | true =>
      have he : x.expiry ≤ cur := by
        simp only [Stake.due,decide_eq_true_eq] at hd
        exact hd.2.2
      simpa [Stake.changes,hd,bonded,signed] using Phase.left included signed (.inr he)
  | leaving included signed unbonded =>
    simpa [Stake.changes,Stake.onStatus,signed,unbonded] using
      Phase.left included signed (.inl unbonded)
  | left included signed ended =>
    have hn : x.changes [] indexed cur = [] := by
      rcases ended with unbonded | hp
      · simp [Stake.changes,unbonded]
      · have hd : x.due indexed cur = false := by
          simp only [Stake.due,decide_eq_false_iff_not]
          omega
        simp [Stake.changes,hd]
    rw [hn]
    refine .left included signed (ended.imp_right ?_)
    omega

end Phase

def Stake.activeAt (x : Stake) (height : Nat) : Bool :=
  x.included ∧ x.signed ∧ x.unbonded = false ∧ x.start ≤ height ∧ height < x.expiry

theorem Stake.lt_of_not_due (x : Stake) {last cur : Nat} (included : x.included = true)
    (hl : last < x.expiry) (hd : x.due last cur = false) : cur < x.expiry := by
  simp only [Stake.due,included,true_and,decide_eq_false_iff_not] at hd
  omega

/-- It began by the tip, and it was complete before its expiry was processed. -/
def Timely (indexed tip : Nat) (o : Option Stake) (changes : List StakeChange) : Prop :=
  ∀ x, o = some x → x.included = true →
    x.start ≤ tip ∧ (x.signed = true → changes ≠ [.add,.remove] → indexed < x.expiry)

/-- No move completes an included delegation whose expiry is over. -/
def Stake.SignedInTime (indexed : Nat) (o o' : Option Stake) : Prop :=
  ∀ x x', o = some x → o' = some x' → x.included = true → x.signed = false → x'.signed = true →
    indexed < x.expiry

namespace Timely

variable {indexed tip : Nat} {o o' : Option Stake} {pending new : List BTCDelegationStatus}
  {changes : List StakeChange} {filed : List Nat}

theorem rise {tip' : Nat} (h : Timely indexed tip o changes) (hl : tip ≤ tip') :
    Timely indexed tip' o changes := by
  intro x hx included
  have hx' := h x hx included
  exact ⟨by omega,hx'.2⟩

theorem move (h : Timely indexed tip o changes) (hm : Stake.Move tip o o' new filed)
    (ht : indexed ≤ tip)
    (hsg : Stake.SignedInTime indexed o o') : Timely indexed tip o' changes := by
  cases hm with
  | stay => exact h
  | @register x unsigned _ timely =>
    intro y hy included
    cases hy
    have hx := timely included
    exact ⟨hx.1,fun signed => by simp [unsigned] at signed⟩
  | @prove x _ _ _ _ _ begun _ =>
    intro y hy _
    cases hy
    exact ⟨begun,fun _ _ => by simp only; omega⟩
  | @sign x b _ _ =>
    intro y hy included
    cases hy
    have hx := h x rfl included
    refine ⟨hx.1,?_⟩
    intro signed hn
    cases hs : x.signed with
    | true => exact hx.2 hs hn
    | false => exact hsg x _ rfl rfl included hs signed
  | @unbond x _ _ =>
    intro y hy included
    cases hy
    exact h x rfl included

theorem beginBlock {x : Stake} {cur : Nat} (h : Timely indexed tip (some x) changes)
    (hp : Phase indexed (some x) pending changes) :
    Timely cur tip (some x) (changes ++ x.changes pending indexed cur) := by
  intro y hy included
  cases hy
  obtain ⟨begun,hl⟩ := h x rfl included
  refine ⟨begun,?_⟩
  intro signed hn
  cases hp with
  | waiting incomplete => simp [incomplete included] at signed
  | withdrawn unsigned => simp [unsigned] at signed
  | activating _ _ bonded =>
    have hlt := hl signed (by simp)
    cases hd : x.due indexed cur with
    | true => simp [Stake.changes,Stake.onStatus,hd,bonded,signed] at hn
    | false => exact x.lt_of_not_due included hlt hd
  | passing _ _ unbonded => simp [Stake.changes,Stake.onStatus,signed,unbonded] at hn
  | active _ _ bonded =>
    have hlt := hl signed (by simp)
    cases hd : x.due indexed cur with
    | true => simp [Stake.changes,hd,bonded,signed] at hn
    | false => exact x.lt_of_not_due included hlt hd
  | leaving _ _ unbonded => simp [Stake.changes,Stake.onStatus,signed,unbonded] at hn
  | left _ _ ended =>
    have hs : ([.add,.remove] : List StakeChange) ++ x.changes [] indexed cur = [.add,.remove] := by
      rcases ended with unbonded | hps
      · simp [Stake.changes,unbonded]
      · have hd : x.due indexed cur = false := by
          simp only [Stake.due,decide_eq_false_iff_not]
          omega
        simp [Stake.changes,hd]
    exact absurd hs hn

end Timely

/-- Between blocks, a delegation has added and not removed its stake just when it is active. -/
theorem Phase.active_iff {cur : Nat} {x : Stake} {changes : List StakeChange}
    (h : Phase cur (some x) [] changes) (ht : Timely cur cur (some x) changes) :
    changes = [.add] ↔ x.activeAt cur = true := by
  simp only [Stake.activeAt,decide_eq_true_eq]
  cases h with
  | waiting incomplete =>
    constructor
    · simp
    · rintro ⟨included,signed,_⟩
      simp [incomplete included] at signed
  | active included signed bonded =>
    obtain ⟨begun,hl⟩ := ht x rfl included
    have hlt := hl signed (by simp)
    simp [included,signed,bonded,begun,hlt]
  | left _ _ ended =>
    constructor
    · simp
    · rintro ⟨_,_,bonded,_,hlt⟩
      rcases ended with unbonded | hp
      · simp [bonded] at unbonded
      · omega

end AnonChain.BtcStaking
