import Unit00.Ranges
import Unit00.Mmu

/-!
What the hart finds in the page tables that the kernel keeps. A translation ends
at the leaf that the kernel's own lookup finds; it is refused when the leaf
does not permit the access, or when the hart is strict about the bits 63 to 54
and the page is copied on write. A store changes one byte of one process.
-/
namespace Unit00.Access
open Unit00.Memory Unit00.Execution Unit00.Frame Unit00.Paging Unit00.Paging.PTEntry Unit00.Trees Unit00.Ownership
open Unit00.Mirror Unit00.Space Unit00.Pages Unit00.Ranges Unit00.Mmu Unit00.Task
open Unit00.Eager (Page Pages writeByte)

/-! ### Entries as the hart reads them -/

theorem target_eq {e : PTEntry} (clean : ∀ i, 54 ≤ i → i < 58 → e.getLsbD i = false) : target e = ppn_to_addr e := by
  have wide : (0xFFFFFFFFFFFF : BitVec 64) = BitVec.ofNat 64 (2^48-1) := by decide
  have narrow : (0xFFFFFFFFFFF : BitVec 64) = BitVec.ofNat 64 (2^44-1) := by decide
  have same : e >>> 10 &&& BitVec.ofNat 64 (2^44-1) = e >>> 10 &&& BitVec.ofNat 64 (2^48-1) := by
    apply BitVec.eq_of_getLsbD_eq
    intro i _
    simp only [BitVec.getLsbD_and,BitVec.getLsbD_ushiftRight,BitVec.getLsbD_ofNat,Nat.testBit_two_pow_sub_one]
    by_cases low : i < 44
    · have : i < 48 := by omega
      simp [low,this]
    · by_cases mid : i < 48
      · simp [clean (10+i) (by omega) (by omega)]
      · simp [low,mid]
  unfold target ppn_to_addr
  rw [wide,narrow,same,Nat.shiftLeft_eq]

theorem reserved_eq (e : PTEntry) : reserved e = false ↔ ∀ i, 54 ≤ i → e.getLsbD i = false := by
  unfold reserved
  rw [bne_eq_false_iff_eq]
  constructor
  · intro zero i high
    have bit : (e >>> 54).getLsbD (i-54) = false := by rw [zero]; simp
    rw [BitVec.getLsbD_ushiftRight] at bit
    rwa [show 54+(i-54) = i by omega] at bit
  · intro clear
    apply BitVec.eq_of_getLsbD_eq
    intro i _
    rw [BitVec.getLsbD_ushiftRight,clear (54+i) (by omega)]
    simp

/-- The entry of a user page sets a reserved bit exactly when it is copied on write. -/
theorem reserved_user {e : PTEntry} (shape : Shape e) : reserved e = is_cow e := by
  by_cases cow : is_cow e = true
  · rw [cow]
    by_contra clear
    rw [Bool.not_eq_true,reserved_eq] at clear
    rw [is_cow_eq,clear 62 (by omega)] at cow
    cases cow
  · rw [Bool.not_eq_true] at cow
    rw [cow,reserved_eq]
    intro i high
    by_cases mark : i = 62
    · rw [mark,← is_cow_eq]
      exact cow
    · exact shape.high i high mark

theorem target_user {e : PTEntry} (shape : Shape e) : target e = ppn_to_addr e :=
  target_eq fun i low high => shape.high i low (by omega)

/-! ### Translation -/

/-- What the hart makes of a leaf. -/
def leafAccess (strict : Bool) (mode : Mode) (access : Access) (e : PTEntry) (va : Nat) : Option Nat :=
  if is_valid e && (is_r e || !is_w e) && !(strict && reserved e) && (is_r e || is_x e) && permits mode access e then
    some (target e+va%4096)
  else none

theorem target_mod (e : PTEntry) : target e%4096 = 0 := by
  unfold target
  omega

/-- The last level of the walk. -/
theorem walk_leaf (strict : Bool) (mem : Mem) (mode : Mode) (access : Access) (va table : Nat) :
    walk_from strict mem mode access va 0 table = leafAccess strict mode access (load64 mem (table+8*vpn va 0)) va := by
  rw [walk_from]
  generalize load64 mem (table+8*vpn va 0) = pte
  have whole := target_mod pte
  unfold leafAccess
  cases valid : is_valid pte <;> cases r : is_r pte <;> cases w : is_w pte <;> cases x : is_x pte <;> cases strict <;>
    cases reserved pte <;> simp [whole]

/-- A level with a table below it. -/
theorem walk_table {strict : Bool} {mem : Mem} {mode : Mode} {access : Access} {va table level a : Nat}
    (names : Names true (load64 mem (table+8*vpn va (level+1))) a) :
    walk_from strict mem mode access va (level+1) table = walk_from strict mem mode access va level a := by
  have clean : reserved (load64 mem (table+8*vpn va (level+1))) = false := (reserved_eq _).mpr (names.clean rfl)
  have next : target (load64 mem (table+8*vpn va (level+1))) = a := by
    rw [target_eq fun i low _ => names.clean rfl i low]
    exact names.address
  rw [walk_from]
  simp [names.valid,names.not_r,names.not_w,names.not_x,clean,next]

theorem walk_invalid {strict : Bool} {mem : Mem} {mode : Mode} {access : Access} {va table level : Nat}
    (invalid : is_valid (load64 mem (table+8*vpn va level)) = false) :
    walk_from strict mem mode access va level table = none := by
  rw [walk_from.eq_def]
  simp [invalid]

theorem walk_tree {strict : Bool} {mem : Mem} {r : Nat} {t : Tree} (tree : TreeAt true mem r t) (mode : Mode) (access : Access)
    (va : Nat) : walk_from strict mem mode access va 2 r = leafAccess strict mode access (t.leaf (pageOf va)) va := by
  have inside := pageOf_lt va
  have nothing_there : leafAccess strict mode access 0 va = none := by
    unfold leafAccess
    rw [is_valid_zero]
    simp
  have top := tree.top (vpn va 2) (by rw [vpn_two]; omega)
  cases second : t.l2 (vpn va 2) with
  | none =>
    rw [second] at top
    rw [walk_invalid top.1]
    rw [vpn_two] at second
    rw [tree.low_none _ inside (tree.mid_none _ (by omega) second),nothing_there]
  | some a =>
    rw [second] at top
    rw [walk_table top]
    rw [vpn_two] at second
    have mid := tree.mid (pageOf va/512) a (by omega) second
    rw [← vpn_one] at mid
    cases first : t.l1 (pageOf va/512) with
    | none =>
      rw [first] at mid
      rw [walk_invalid mid.1,tree.low_none _ inside first,nothing_there]
    | some b =>
      rw [first] at mid
      rw [walk_table mid,walk_leaf,vpn_zero]
      have low := tree.low _ b inside first
      unfold entry_at at low
      rw [low]

/-- The root of a `satp` value. -/
theorem root_of_satp {pt : PageTable} (aligned : pt.root%4096 = 0) (bound : pt.root < 2^56) : root_of pt.satp_val = pt.root := by
  have mask : (0xFFFFFFFFFFF : BitVec 64) = BitVec.ofNat 64 (2^44-1) := by decide
  have mode : (8 <<< 60 : BitVec 64) = BitVec.twoPow 64 63 := by decide
  have number : pt.satp_val &&& BitVec.ofNat 64 (2^44-1) = BitVec.ofNat 64 (pt.root >>> 12) := by
    apply BitVec.eq_of_getLsbD_eq
    intro i small
    unfold PageTable.satp_val
    rw [mode]
    simp only [BitVec.getLsbD_and,BitVec.getLsbD_or,BitVec.getLsbD_twoPow,BitVec.getLsbD_ofNat,Nat.testBit_two_pow_sub_one]
    by_cases low : i < 44
    · have other : 63 ≠ i := by omega
      simp [small,low,other]
    · have high : (pt.root >>> 12).testBit i = false := by
        refine Nat.testBit_lt_two_pow ?_
        have power : 2^44 ≤ 2^i := Nat.pow_le_pow_right (by omega) (by omega)
        rw [Nat.shiftRight_eq_div_pow]
        omega
      simp [low,high]
  unfold root_of
  rw [mask,number,BitVec.toNat_ofNat,Nat.shiftRight_eq_div_pow]
  omega

/-! ### Accesses of the running process -/

section
variable {exact : Bool} {base : Nat} {m : Mm} {g : Ledger} {r : Nat} {hart : Hart}

theorem translate_eq (good : Good exact base m g) (isRoot : g.own r = .root) (at_root : root_of hart.satp = r) (mode : Mode)
    (access : Access) (va : Nat) :
    translate hart m.mem mode access va =
      if canonical va then leafAccess hart.reserved_fault mode access ((g.tree r).leaf (pageOf va)) va else none := by
  unfold Mmu.translate
  rw [at_root,walk_tree (good.mirrors.tables.tree r isRoot)]

/-- A user page as the hart sees it. -/
theorem leafAccess_user {strict : Bool} {mode : Mode} {access : Access} {e : PTEntry} {va : Nat} (shape : Shape e)
    (valid : is_valid e = true) :
    leafAccess strict mode access e va =
      if !(strict && is_cow e) && permits mode access e then some (ppn_to_addr e+va%4096) else none := by
  unfold leafAccess
  rw [reserved_user shape,target_user shape,valid]
  have sane : (is_r e || !is_w e) = true := by
    cases w : is_w e
    · simp
    · simp [shape.writable w]
  have leaf : (is_r e || is_x e) = true := by
    rcases shape.access with h | h <;> simp [h]
  simp [sane,leaf]

/-- An access that a user program makes goes to a page of its own. -/
theorem translate_user (good : Good exact base m g) (isRoot : g.own r = .root) (at_root : root_of hart.satp = r) {access : Access}
    {va pa : Nat} (done : translate hart m.mem .user access va = some pa) :
    ∃ e, UserLeaf g r (pageOf va) e ∧ permits .user access e = true ∧ (hart.reserved_fault && is_cow e) = false ∧
      pa = ppn_to_addr e+va%4096 := by
  rw [translate_eq good isRoot at_root] at done
  split at done
  · have user : is_u ((g.tree r).leaf (pageOf va)) = true := by
      unfold leafAccess at done
      split at done
      · rename_i all
        simp only [permits,Bool.and_eq_true] at all
        exact all.2.2
      · cases done
    obtain ⟨_,leaf⟩ := user_leaf_of good isRoot (pageOf_lt va) user
    rw [leafAccess_user (good.sound.shape leaf) leaf.valid] at done
    split at done
    · rename_i all
      rw [Bool.and_eq_true,Bool.not_eq_true'] at all
      exact ⟨_,leaf,all.2,all.1,(Option.some.inj done).symm⟩
    · cases done
  · cases done

/-- The accesses to a user page that the hart makes. -/
theorem translate_leaf (good : Good exact base m g) (at_root : root_of hart.satp = r) {mode : Mode} {access : Access} {va : Nat}
    {e : PTEntry} (leaf : UserLeaf g r (pageOf va) e) :
    translate hart m.mem mode access va =
      if canonical va && !(hart.reserved_fault && is_cow e) && permits mode access e then some (ppn_to_addr e+va%4096)
      else none := by
  rw [translate_eq good leaf.root at_root,leaf.entry,leafAccess_user (good.sound.shape leaf) leaf.valid]
  by_cases fits : canonical va = true <;> simp [fits]

/-- A byte stored to a page that the process may write. -/
theorem store_page (good : Good exact base m g) {va : Nat} {e : PTEntry} (leaf : UserLeaf g r (pageOf va) e)
    (writable : is_w e = true) (value : BitVec 8) :
    Acts exact base r m { m with mem := store8 m.mem (ppn_to_addr e+va%4096) value } g g
      (writeByte va value (space m g r)) := by
  have isUser := good.sound.user leaf
  have low := good.sound.low leaf
  have aligned := ppn_to_addr_mod e
  have page : (ppn_to_addr e+va%4096)/4096*4096 = ppn_to_addr e := by omega
  have change := confined_store8 m.mem (ppn_to_addr e+va%4096) value
  rw [page] at change
  refine ⟨⟨good.mirrors.frame change ?_,good.sound,good.settled⟩,?_,?_⟩
  · rintro p rfl
    rw [isUser]
    exact ⟨by simp,rfl⟩
  · refine aside_of good.mirrors change ?_ (fun _ => .rfl) (fun _ _ => .rfl) (fun _ => .rfl) (fun _ _ _ => rfl)
      (fun _ _ _ _ => rfl) (le_refl _)
    rintro p rfl
    exact ⟨by rw [isUser]; simp,by rw [isUser]; simp,fun other same => good.sound.alone leaf other same.symm writable⟩
  · funext n
    unfold writeByte
    by_cases here : n = pageOf va
    · subst here
      rw [if_pos rfl,space_low low,space_low low,leaf.entry,pageAt_user leaf.valid leaf.user,pageAt_user leaf.valid leaf.user]
      simp only [Option.map_some,Option.some.injEq,Page.mk.injEq,true_and]
      funext o
      by_cases byte : o.val = va%4096
      · have : o = ⟨va%4096,Nat.mod_lt _ (by decide)⟩ := Fin.ext byte
        subst this
        simp
      · have other : o ≠ ⟨va%4096,Nat.mod_lt _ (by decide)⟩ := fun same => byte (congrArg Fin.val same)
        rw [Function.update_of_ne other,store8_off (by omega)]
    · rw [if_neg here]
      refine space_same leaf.root rfl change fun d other same => ?_
      exact here (good.sound.page other leaf same)

end

end Unit00.Access
