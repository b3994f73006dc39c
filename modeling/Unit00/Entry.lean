import Unit00.Paging

/-!
The bits of a page table entry: what each accessor reads after each
constructor and each change. Everything is reduced to single bits and to the
number of the page that an entry names.
-/
namespace Unit00.Paging.PTEntry
open Unit00.Frame

/-! ### Accessors as bits -/

theorem and_bit {w : Nat} (e : BitVec w) (i : Nat) (inside : i < w) : (e &&& 1#w <<< i != 0) = e.getLsbD i := by
  have one : 1#w <<< i = BitVec.twoPow w i := (BitVec.twoPow_eq w i).symm
  rw [one,BitVec.and_twoPow]
  have nonzero : BitVec.twoPow w i ≠ 0#w := by
    intro zero
    have bit := congrArg (fun v => v.getLsbD i) zero
    simp [inside] at bit
  by_cases set : e.getLsbD i = true
  · simp [set,nonzero]
  · simp [set]

theorem is_valid_eq (e : PTEntry) : is_valid e = e.getLsbD 0 := and_bit e 0 (by omega)
theorem is_r_eq (e : PTEntry) : is_r e = e.getLsbD 1 := and_bit e 1 (by omega)
theorem is_w_eq (e : PTEntry) : is_w e = e.getLsbD 2 := and_bit e 2 (by omega)
theorem is_x_eq (e : PTEntry) : is_x e = e.getLsbD 3 := and_bit e 3 (by omega)
theorem is_u_eq (e : PTEntry) : is_u e = e.getLsbD 4 := and_bit e 4 (by omega)
theorem is_cow_eq (e : PTEntry) : is_cow e = e.getLsbD 62 := and_bit e 62 (by omega)

@[simp] theorem getLsbD_set_cow (e : PTEntry) (i : Nat) : (set_cow e).getLsbD i = (e.getLsbD i || i = 62) := by
  have bit : BIT_COW = BitVec.twoPow 64 62 := rfl
  rw [set_cow,bit,BitVec.getLsbD_or,BitVec.getLsbD_twoPow]
  by_cases here : i = 62
  · simp [here]
  · simp [here,Ne.symm here]

@[simp] theorem getLsbD_clear_cow (e : PTEntry) (i : Nat) : (clear_cow e).getLsbD i = (e.getLsbD i && i ≠ 62) := by
  have bit : BIT_COW = BitVec.twoPow 64 62 := rfl
  rw [clear_cow,bit,BitVec.getLsbD_and,BitVec.getLsbD_not,BitVec.getLsbD_twoPow]
  by_cases inside : i < 64
  · by_cases here : i = 62
    · simp [here]
    · simp [here,Ne.symm here,inside]
  · simp [BitVec.getLsbD_of_ge e i (by omega)]

@[simp] theorem getLsbD_clear_w (e : PTEntry) (i : Nat) : (clear_w e).getLsbD i = (e.getLsbD i && i ≠ 2) := by
  have bit : BIT_W = BitVec.twoPow 64 2 := rfl
  rw [clear_w,bit,BitVec.getLsbD_and,BitVec.getLsbD_not,BitVec.getLsbD_twoPow]
  by_cases inside : i < 64
  · by_cases here : i = 2
    · simp [here]
    · simp [here,Ne.symm here,inside]
  · simp [BitVec.getLsbD_of_ge e i (by omega)]

@[simp] theorem getLsbD_set_w (e : PTEntry) (i : Nat) : (set_w e true).getLsbD i = (e.getLsbD i || i = 2) := by
  have bit : BIT_W = BitVec.twoPow 64 2 := rfl
  rw [set_w,if_pos rfl,bit,BitVec.getLsbD_or,BitVec.getLsbD_twoPow]
  by_cases here : i = 2
  · simp [here]
  · simp [here,Ne.symm here]

/-! ### The page an entry names -/

theorem ppn_to_addr_eq (e : PTEntry) : ppn_to_addr e = e.toNat/2^10%2^48*4096 := by
  unfold ppn_to_addr
  rw [BitVec.toNat_and,BitVec.toNat_ushiftRight,Nat.shiftRight_eq_div_pow,Nat.shiftLeft_eq]
  have mask : (0xFFFFFFFFFFFF : BitVec 64).toNat = 2^48-1 := by decide
  rw [mask,Nat.and_two_pow_sub_one_eq_mod]

theorem ppn_to_addr_mod (e : PTEntry) : ppn_to_addr e%4096 = 0 := by
  rw [ppn_to_addr_eq]
  omega

/-- Entries with the same bits 10 to 57 name the same page. -/
theorem ppn_congr {e e' : PTEntry} (same : ∀ i, 10 ≤ i → i < 58 → e'.getLsbD i = e.getLsbD i) :
    ppn_to_addr e' = ppn_to_addr e := by
  have mask : (0xFFFFFFFFFFFF : BitVec 64) = BitVec.ofNat 64 (2^48-1) := by decide
  have equal : e' >>> 10 &&& BitVec.ofNat 64 (2^48-1) = e >>> 10 &&& BitVec.ofNat 64 (2^48-1) := by
    apply BitVec.eq_of_getLsbD_eq
    intro i _
    simp only [BitVec.getLsbD_and,BitVec.getLsbD_ushiftRight,BitVec.getLsbD_ofNat,Nat.testBit_two_pow_sub_one]
    by_cases low : i < 48
    · rw [same (10+i) (by omega) (by omega)]
    · simp [low]
  unfold ppn_to_addr
  rw [mask,equal]

@[simp] theorem ppn_set_cow (e : PTEntry) : ppn_to_addr (set_cow e) = ppn_to_addr e :=
  ppn_congr fun i low high => by rw [getLsbD_set_cow]; simp; omega

@[simp] theorem ppn_clear_cow (e : PTEntry) : ppn_to_addr (clear_cow e) = ppn_to_addr e :=
  ppn_congr fun i low high => by rw [getLsbD_clear_cow]; simp; omega

@[simp] theorem ppn_clear_w (e : PTEntry) : ppn_to_addr (clear_w e) = ppn_to_addr e :=
  ppn_congr fun i low high => by rw [getLsbD_clear_w]; simp; omega

@[simp] theorem ppn_set_w (e : PTEntry) : ppn_to_addr (set_w e true) = ppn_to_addr e :=
  ppn_congr fun i low high => by rw [getLsbD_set_w]; simp; omega

/-! ### New entries -/

/-- The page number part of a new entry. -/
theorem new_ppn {pa : Nat} (aligned : pa%4096 = 0) (bound : pa < 2^56) :
    (BitVec.ofNat 64 (pa >>> 12 <<< 10)).toNat = pa/4096*1024 := by
  rw [BitVec.toNat_ofNat,Nat.shiftRight_eq_div_pow,Nat.shiftLeft_eq]
  omega

theorem getLsbD_new_ppn_low {pa i : Nat} (low : i < 10) : (BitVec.ofNat 64 (pa >>> 12 <<< 10)).getLsbD i = false := by
  rw [BitVec.getLsbD_ofNat,Nat.testBit_shiftLeft]
  simp [low]

theorem getLsbD_new_ppn_high {pa i : Nat} (bound : pa < 2^56) (high : 54 ≤ i) :
    (BitVec.ofNat 64 (pa >>> 12 <<< 10)).getLsbD i = false := by
  rw [BitVec.getLsbD_ofNat]
  have small : pa >>> 12 <<< 10 < 2^i := by
    rw [Nat.shiftRight_eq_div_pow,Nat.shiftLeft_eq]
    have power : 2^54 ≤ 2^i := Nat.pow_le_pow_right (by omega) high
    omega
  rw [Nat.testBit_lt_two_pow small]
  simp

theorem getLsbD_new_leaf_low (pa : Nat) (flags : PTEFlags) {i : Nat} (low : i < 10) :
    (new_leaf pa flags).getLsbD i = flags.getLsbD i := by
  rw [new_leaf,BitVec.getLsbD_or,getLsbD_new_ppn_low low,BitVec.getLsbD_setWidth]
  have inside : i < 64 := by omega
  simp [inside]

theorem getLsbD_new_leaf_high {pa i : Nat} (flags : PTEFlags) (bound : pa < 2^56) (high : 54 ≤ i) :
    (new_leaf pa flags).getLsbD i = false := by
  rw [new_leaf,BitVec.getLsbD_or,getLsbD_new_ppn_high bound high,BitVec.getLsbD_setWidth,
    BitVec.getLsbD_of_ge flags i (by omega)]
  simp

/-- Flag bits do not reach the page number. -/
theorem ppn_or_low {pa : Nat} {v : BitVec 64} (aligned : pa%4096 = 0) (bound : pa < 2^56)
    (low : ∀ i, 10 ≤ i → v.getLsbD i = false) : ppn_to_addr (BitVec.ofNat 64 (pa >>> 12 <<< 10) ||| v) = pa := by
  rw [ppn_congr (e := BitVec.ofNat 64 (pa >>> 12 <<< 10)),ppn_to_addr_eq,new_ppn aligned bound]
  · omega
  · intro i ten _
    rw [BitVec.getLsbD_or,low i ten,Bool.or_false]

theorem ppn_new_leaf {pa : Nat} (flags : PTEFlags) (aligned : pa%4096 = 0) (bound : pa < 2^56) :
    ppn_to_addr (new_leaf pa flags) = pa := by
  refine ppn_or_low aligned bound fun i ten => ?_
  rw [BitVec.getLsbD_setWidth,BitVec.getLsbD_of_ge flags i (by omega),Bool.and_false]

/-- The page number bits of an entry made for the page that another one names. -/
theorem getLsbD_new_leaf_mid (e : PTEntry) (flags : PTEFlags) {i : Nat} (low : 10 ≤ i) (high : i < 58) :
    (new_leaf (ppn_to_addr e) flags).getLsbD i = e.getLsbD i := by
  have page : ppn_to_addr e >>> 12 = e.toNat/2^10%2^48 := by
    rw [ppn_to_addr_eq,Nat.shiftRight_eq_div_pow]
    omega
  have inside : i < 64 := by omega
  have flag : (flags.setWidth 64).getLsbD i = false := by
    rw [BitVec.getLsbD_setWidth,BitVec.getLsbD_of_ge flags i (by omega),Bool.and_false]
  rw [new_leaf,BitVec.getLsbD_or,flag,Bool.or_false,page,BitVec.getLsbD_ofNat,Nat.testBit_shiftLeft,
    Nat.testBit_mod_two_pow,Nat.testBit_div_two_pow]
  have sum' : i-10+10 = i := by omega
  have below : i-10 < 48 := by omega
  simp [low,inside,below,sum',BitVec.getLsbD]

theorem getLsbD_new_table_low (pa : Nat) {i : Nat} (low : i < 10) : (new_table pa).getLsbD i = decide (i = 0) := by
  have bit : BIT_V = BitVec.twoPow 64 0 := rfl
  rw [new_table,BitVec.getLsbD_or,getLsbD_new_ppn_low low,bit,BitVec.getLsbD_twoPow]
  by_cases zero : i = 0
  · simp [zero]
  · simp [zero,Ne.symm zero]

theorem ppn_new_table {pa : Nat} (aligned : pa%4096 = 0) (bound : pa < 2^56) : ppn_to_addr (new_table pa) = pa := by
  refine ppn_or_low aligned bound fun i ten => ?_
  have bit : BIT_V = BitVec.twoPow 64 0 := rfl
  rw [bit,BitVec.getLsbD_twoPow]
  simp
  omega

theorem getLsbD_new_table_high {pa i : Nat} (bound : pa < 2^56) (high : 54 ≤ i) : (new_table pa).getLsbD i = false := by
  have bit : BIT_V = BitVec.twoPow 64 0 := rfl
  rw [new_table,BitVec.getLsbD_or,getLsbD_new_ppn_high bound high,bit,BitVec.getLsbD_twoPow]
  simp
  omega

theorem getLsbD_flags (e : PTEntry) {i : Nat} : (flags e).getLsbD i = (e.getLsbD i && i < 5) := by
  have mask : (0x1F : BitVec 64) = BitVec.ofNat 64 (2^5-1) := by decide
  rw [flags,mask,BitVec.getLsbD_setWidth,BitVec.getLsbD_and,BitVec.getLsbD_ofNat,Nat.testBit_two_pow_sub_one]
  by_cases low : i < 5
  · have small : i < 8 := by omega
    have small' : i < 64 := by omega
    simp [low,small,small']
  · simp [low]

end Unit00.Paging.PTEntry

namespace Unit00.Paging.PTEFlags

theorem new_bits (r w x u : Bool) :
    (new r w x u).getLsbD 0 = true ∧ (new r w x u).getLsbD 1 = r ∧ (new r w x u).getLsbD 2 = w ∧
      (new r w x u).getLsbD 3 = x ∧ (new r w x u).getLsbD 4 = u := by
  cases r <;> cases w <;> cases x <;> cases u <;> decide

theorem new_high (r w x u : Bool) {i : Nat} (high : 5 ≤ i) : (new r w x u).getLsbD i = false := by
  have small : (new r w x u).toNat < 2^5 := by
    cases r <;> cases w <;> cases x <;> cases u <;> decide
  have power : 2^5 ≤ 2^i := Nat.pow_le_pow_right (by omega) high
  exact Nat.testBit_lt_two_pow (by omega)

theorem is_x_eq (f : PTEFlags) : is_x f = f.getLsbD 3 := PTEntry.and_bit f 3 (by omega)
theorem is_u_eq (f : PTEFlags) : is_u f = f.getLsbD 4 := PTEntry.and_bit f 4 (by omega)

end Unit00.Paging.PTEFlags

namespace Unit00.Paging.PTEntry

/-! ### Sequences of updates -/

/-- A change of an entry in place. -/
inductive Update
  | set_cow
  | clear_cow
  | set_w (w : Bool)
  | clear_w

def Update.apply (e : PTEntry) : Update → PTEntry
  | .set_cow => PTEntry.set_cow e
  | .clear_cow => PTEntry.clear_cow e
  | .set_w w => PTEntry.set_w e w
  | .clear_w => PTEntry.clear_w e

/-- An entry after a sequence of changes. -/
def updated (ops : List Update) (e : PTEntry) : PTEntry := ops.foldl Update.apply e

/-- What the last change of W in a sequence leaves. -/
def lastW (ops : List Update) (w : Bool) : Bool :=
  ops.foldl (fun w op =>
    match op with
    | .set_w b => b
    | .clear_w => false
    | _ => w) w

/-- What the last change of the COW mark in a sequence leaves. -/
def lastCow (ops : List Update) (cow : Bool) : Bool :=
  ops.foldl (fun cow op =>
    match op with
    | .set_cow => true
    | .clear_cow => false
    | _ => cow) cow

/-- Flags as the kernel makes them. -/
def Built (f : PTEFlags) : Prop := (∃ r w x u, f = PTEFlags.new r w x u) ∨ ∃ e : PTEntry, f = flags e

theorem Built.high {f : PTEFlags} (built : Built f) {i : Nat} (high : 5 ≤ i) : f.getLsbD i = false := by
  rcases built with ⟨r,w,x,u,rfl⟩ | ⟨e,rfl⟩
  · exact PTEFlags.new_high r w x u high
  · rw [getLsbD_flags]
    simp
    omega

theorem getLsbD_apply (e : PTEntry) (op : Update) (i : Nat) :
    (op.apply e).getLsbD i =
      if i = 2 then lastW [op] (e.getLsbD 2) else if i = 62 then lastCow [op] (e.getLsbD 62) else e.getLsbD i := by
  have w_bit : ∀ bit : Bool, (if i = 2 then bit else if i = 62 then e.getLsbD 62 else e.getLsbD i) =
      if i = 2 then bit else e.getLsbD i := by
    intro bit
    split_ifs with w cow
    · rfl
    · rw [cow]
    · rfl
  have cow_bit : ∀ bit : Bool, (if i = 2 then e.getLsbD 2 else if i = 62 then bit else e.getLsbD i) =
      if i = 62 then bit else e.getLsbD i := by
    intro bit
    split_ifs with w cow cow
    · omega
    · rw [w]
    · rfl
    · rfl
  cases op with
  | set_cow =>
    refine Eq.trans (getLsbD_set_cow e i) (Eq.trans ?_ (cow_bit true).symm)
    by_cases cow : i = 62 <;> simp [cow]
  | clear_cow =>
    refine Eq.trans (getLsbD_clear_cow e i) (Eq.trans ?_ (cow_bit false).symm)
    by_cases cow : i = 62 <;> simp [cow]
  | set_w b =>
    cases b with
    | true =>
      refine Eq.trans (getLsbD_set_w e i) (Eq.trans ?_ (w_bit true).symm)
      by_cases w : i = 2 <;> simp [w]
    | false =>
      refine Eq.trans (getLsbD_clear_w e i) (Eq.trans ?_ (w_bit false).symm)
      by_cases w : i = 2 <;> simp [w]
  | clear_w =>
    refine Eq.trans (getLsbD_clear_w e i) (Eq.trans ?_ (w_bit false).symm)
    by_cases w : i = 2 <;> simp [w]

/-- Every bit of an entry after a sequence of changes. -/
theorem getLsbD_updated (ops : List Update) (e : PTEntry) (i : Nat) :
    (updated ops e).getLsbD i =
      if i = 2 then lastW ops (e.getLsbD 2) else if i = 62 then lastCow ops (e.getLsbD 62) else e.getLsbD i := by
  induction ops generalizing e with
  | nil =>
    unfold updated lastW lastCow
    split_ifs with w cow
    · rw [w]
      rfl
    · rw [cow]
      rfl
    · rfl
  | cons op ops ih =>
    have w_bit : (op.apply e).getLsbD 2 = lastW [op] (e.getLsbD 2) := by
      rw [getLsbD_apply,if_pos rfl]
    have cow_bit : (op.apply e).getLsbD 62 = lastCow [op] (e.getLsbD 62) := by
      rw [getLsbD_apply,if_neg (by omega),if_pos rfl]
    refine Eq.trans (ih (op.apply e)) ?_
    rw [w_bit,cow_bit]
    by_cases w : i = 2
    · rw [if_pos w,if_pos w]
      rfl
    by_cases cow : i = 62
    · rw [if_neg w,if_neg w,if_pos cow,if_pos cow]
      rfl
    · rw [if_neg w,if_neg w,if_neg cow,if_neg cow,getLsbD_apply,if_neg w,if_neg cow]

section
variable {pa : Nat} {f : PTEFlags} (ops : List Update) (aligned : pa%4096 = 0) (bound : pa < 2^56) (built : Built f)

theorem ppn_updated (e : PTEntry) : ppn_to_addr (updated ops e) = ppn_to_addr e := by
  refine ppn_congr fun i low high => ?_
  rw [getLsbD_updated,if_neg (by omega),if_neg (by omega)]

include aligned bound built

/-- An entry can be made again from the page it names, its flags and its COW mark. -/
theorem rebuild_updated :
    (if is_cow (updated ops (new_leaf pa f)) then
        set_cow (new_leaf (ppn_to_addr (updated ops (new_leaf pa f))) (flags (updated ops (new_leaf pa f))))
      else new_leaf (ppn_to_addr (updated ops (new_leaf pa f))) (flags (updated ops (new_leaf pa f)))) =
      updated ops (new_leaf pa f) := by
  have low : ∀ {i}, i < 10 →
      (new_leaf (ppn_to_addr (updated ops (new_leaf pa f))) (flags (updated ops (new_leaf pa f)))).getLsbD i =
        (updated ops (new_leaf pa f)).getLsbD i := by
    intro i inside
    rw [getLsbD_new_leaf_low _ _ inside,getLsbD_flags]
    by_cases small : i < 5
    · simp [small]
    · rw [getLsbD_updated,if_neg (by omega),if_neg (by omega),getLsbD_new_leaf_low _ _ inside,built.high (by omega)]
      rfl
  have high : ∀ {i}, 54 ≤ i → i ≠ 62 →
      (new_leaf (ppn_to_addr (updated ops (new_leaf pa f))) (flags (updated ops (new_leaf pa f)))).getLsbD i =
        (updated ops (new_leaf pa f)).getLsbD i := by
    intro i inside other
    rw [ppn_updated,ppn_new_leaf f aligned bound,getLsbD_new_leaf_high _ bound inside,getLsbD_updated,if_neg (by omega),
      if_neg other,getLsbD_new_leaf_high _ bound inside]
  have cow : (new_leaf (ppn_to_addr (updated ops (new_leaf pa f))) (flags (updated ops (new_leaf pa f)))).getLsbD 62 = false := by
    rw [ppn_updated,ppn_new_leaf f aligned bound,getLsbD_new_leaf_high _ bound (by omega)]
  have rest : ∀ {i}, i ≠ 62 →
      (new_leaf (ppn_to_addr (updated ops (new_leaf pa f))) (flags (updated ops (new_leaf pa f)))).getLsbD i =
        (updated ops (new_leaf pa f)).getLsbD i := by
    intro i other
    by_cases ten : i < 10
    · exact low ten
    by_cases mid : i < 54
    · exact getLsbD_new_leaf_mid _ _ (by omega) (by omega)
    · exact high (by omega) other
  refine BitVec.eq_of_getLsbD_eq fun i _ => ?_
  by_cases marked : is_cow (updated ops (new_leaf pa f)) = true
  · rw [if_pos marked,getLsbD_set_cow]
    by_cases here : i = 62
    · rw [is_cow_eq] at marked
      rw [here,marked]
      simp
    · rw [rest here]
      simp [here]
  · rw [if_neg marked]
    by_cases here : i = 62
    · rw [is_cow_eq,Bool.not_eq_true] at marked
      rw [here,marked,cow]
    · exact rest here

/-- The fields of an entry are independent: whatever changes of W and of the COW mark are made to a new leaf, the page
    and the other flags stay, each of the two bits is as its last change left it, and the entry can be made again
    from its fields. -/
theorem fields_independent :
    ppn_to_addr (updated ops (new_leaf pa f)) = pa ∧
    is_valid (updated ops (new_leaf pa f)) = f.getLsbD PTEFlags.V_BIT ∧
    is_r (updated ops (new_leaf pa f)) = f.getLsbD PTEFlags.R_BIT ∧
    is_x (updated ops (new_leaf pa f)) = f.getLsbD PTEFlags.X_BIT ∧
    is_u (updated ops (new_leaf pa f)) = f.getLsbD PTEFlags.U_BIT ∧
    is_w (updated ops (new_leaf pa f)) = lastW ops (f.getLsbD PTEFlags.W_BIT) ∧
    is_cow (updated ops (new_leaf pa f)) = lastCow ops false ∧
    (if is_cow (updated ops (new_leaf pa f)) then
        set_cow (new_leaf (ppn_to_addr (updated ops (new_leaf pa f))) (flags (updated ops (new_leaf pa f))))
      else new_leaf (ppn_to_addr (updated ops (new_leaf pa f))) (flags (updated ops (new_leaf pa f)))) =
      updated ops (new_leaf pa f) := by
  have bit : ∀ {i}, i < 5 → i ≠ 2 → (updated ops (new_leaf pa f)).getLsbD i = f.getLsbD i := by
    intro i small other
    rw [getLsbD_updated,if_neg other,if_neg (by omega),getLsbD_new_leaf_low _ _ (by omega)]
  refine ⟨?_,?_,?_,?_,?_,?_,?_,rebuild_updated ops aligned bound built⟩
  · rw [ppn_updated,ppn_new_leaf f aligned bound]
  · exact (is_valid_eq _).trans (bit (by omega) (by omega))
  · exact (is_r_eq _).trans (bit (by omega) (by omega))
  · exact (is_x_eq _).trans (bit (by omega) (by omega))
  · exact (is_u_eq _).trans (bit (by omega) (by omega))
  · rw [is_w_eq,getLsbD_updated,if_pos rfl,getLsbD_new_leaf_low _ _ (by omega)]
    rfl
  · rw [is_cow_eq,getLsbD_updated,if_neg (by omega),if_pos rfl,getLsbD_new_leaf_high _ bound (by omega)]

end

/-- The changes of a fork and of the copy after it, on a writable page. -/
theorem fields_independent_fork :
    let e := updated [.clear_w,.set_cow,.set_w true,.clear_cow] (new_leaf 0x80001000 (PTEFlags.new true true false true))
    ppn_to_addr e = 0x80001000 ∧ is_w e = true ∧ is_cow e = false := by
  have all := @fields_independent 0x80001000 (PTEFlags.new true true false true)
    [.clear_w,.set_cow,.set_w true,.clear_cow] (by decide) (by decide) (.inl ⟨_,_,_,_,rfl⟩)
  exact ⟨all.1,all.2.2.2.2.2.1,all.2.2.2.2.2.2.1⟩

end Unit00.Paging.PTEntry
