import Unit00.Traps
import Unit00.View
import Mathlib.Order.Interval.Finset.Nat

/-!
The boot. `init_kernel` builds the first page table with the identity mapping of
RAM, `rust_main` adds the console device, the program and its stack, and the
kernel stack of init. How many frames that takes is known beforehand: a boot
that is short of one panics, so that a machine in user mode has all of it.
-/
namespace Unit00.Boot
open Unit00.Memory Unit00.Execution Unit00.Frame Unit00.Paging Unit00.Paging.PTEntry Unit00.Trees Unit00.Ownership
open Unit00.Mirror Unit00.Space Unit00.Pages Unit00.Ranges Unit00.Clearing Unit00.Forking Unit00.Access Unit00.Mmu
open Unit00.Task Unit00.Scheduler Unit00.Syscall Unit00.Machine Unit00.Lifecycle Unit00.Steps Unit00.Invariant
open Unit00.Services Unit00.Traps Unit00.View
open Unit00.Eager (Page Pages)

/-! ### Mapping one page -/

theorem lacking_mono {bound : Nat} {wanted : Nat → Prop} {t t' : Nat → Option Nat} (more : ∀ v a, t v = some a → t' v = some a) :
    lacking bound wanted t' ≤ lacking bound wanted t := by
  classical
  unfold lacking
  refine Finset.card_le_card fun v => ?_
  simp only [Finset.mem_filter]
  rintro ⟨inside,want,absent⟩
  refine ⟨inside,want,?_⟩
  cases before : t v with
  | none => rfl
  | some a =>
    rw [more v a before] at absent
    cases absent

/-- Making tables takes frames. -/
theorem Grows.room_le {r n : Nat} {g g' : Ledger} (grows : Grows r n g g') : room g' ≤ room g := by
  have paid := grows.paid {n} rfl
  have fewer : missing g' r {n} ≤ missing g r {n} :=
    Nat.add_le_add (lacking_mono grows.l2) (lacking_mono grows.l1)
  omega

/-- `map` in a page table that memory and ledger agree on. -/
theorem Mirrors.map {base split r n vaddr paddr : Nat} {m : Mm} {g : Ledger} (mirrors : Mirrors base split m g) (pt : PageTable)
    (at_root : pt.root = r) (from_pool : pt.frame_alloc = alloc_frame) (isRoot : g.own r = .root)
    (page : pageOf vaddr = n) (mine : n < split*2^18) (flags : PTEFlags) :
    ∃ res m' m1 g1, (pt.map vaddr paddr flags).run m = .ok res m' ∧ Walked base split r n m m1 g g1 ∧
      match res with
      | true => Mirrors base split m' (setLeaf g1 r n (new_leaf paddr flags)) ∧
          ∃ b, g1.own b = .l1 r (n/512) ∧ Confined (· = b) m1.mem m'.mem
      | false => m' = m1 ∧ room g1 = 0 := by
  obtain ⟨res,m1,g1,run,walked,result⟩ := mirrors.walk pt at_root from_pool isRoot page mine
  unfold PageTable.map PageTable.map_leaf
  rw [run_seq run]
  cases res with
  | none => exact ⟨false,m1,m1,g1,rfl,walked,rfl,result.1⟩
  | some entry =>
    obtain ⟨b,table,rfl⟩ := result
    have isRoot1 : g1.own r = .root := (grows_keeps walked.grows (by simp) (by simp) (by simp)).mpr isRoot
    have slot : leafSlot (g1.tree r) n = some (entry_at b (n%512)) := by simp [leafSlot,table]
    have inside : n < 2^27 := by rw [← page]; exact pageOf_lt _
    obtain ⟨written,b',owner,change⟩ := write_leaf walked.mirrors isRoot1 inside mine slot (new_leaf paddr flags)
    refine ⟨true,_,m1,g1,?_,walked,written,b',owner,change⟩
    dsimp only
    rw [run_seq (run_write _ _ _)]
    rfl

/-- `map` writes nothing below the pool. -/
theorem Mirrors.map_floor {base split r n vaddr paddr : Nat} {m m' : Mm} {g : Ledger} (mirrors : Mirrors base split m g) (pt : PageTable)
    (at_root : pt.root = r) (from_pool : pt.frame_alloc = alloc_frame) (isRoot : g.own r = .root)
    (page : pageOf vaddr = n) (mine : n < split*2^18) {flags : PTEFlags} {res : Bool}
    (run : (pt.map vaddr paddr flags).run m = .ok res m') : ∀ a, a < base → m'.mem a = m.mem a := by
  intro a below
  obtain ⟨res',m2,m1,g1,ran,walked,result⟩ :=
    @Mirrors.map _ _ _ _ vaddr paddr _ _ mirrors pt at_root from_pool isRoot page mine flags
  obtain ⟨rfl,rfl⟩ := EStateM.Result.ok.inj (run.symm.trans ran)
  cases res with
  | false =>
    rw [result.1]
    exact walked.floor a below
  | true =>
    obtain ⟨_,b,owner,change⟩ := result
    have place := (walked.mirrors.pool.owned b).mp (by rw [owner]; simp)
    have other : a/4096*4096 ≠ b := by omega
    rw [change a other]
    exact walked.floor a below

/-! ### The identity mapping -/

/-- The first page table while it is made: there is nothing but its tables. -/
structure Building (base r : Nat) (m : Mm) (g : Ledger) (leaf : Nat → PTEntry) : Prop where
  mirrors : Mirrors base 512 m g
  root : g.own r = .root
  owners : ∀ x, g.own x ≠ .none → x = r ∨ (∃ v, g.own x = .l2 r v) ∨ ∃ i, g.own x = .l1 r i
  counts : ∀ x, g.own x ≠ .none → g.refs x = 1
  leaf : (g.tree r).leaf = leaf
  free : g.free = []

section
variable {base r : Nat} {m : Mm} {g : Ledger} {leaf : Nat → PTEntry}

theorem Building.grow (building : Building base r m g leaf) {n : Nat} {m' : Mm} {g' : Ledger}
    (walked : Walked base 512 r n m m' g g') : Building base r m' g' leaf := by
  have isRoot : g'.own r = .root := (grows_keeps walked.grows (by simp) (by simp) (by simp)).mpr building.root
  refine ⟨walked.mirrors,isRoot,?_,?_,by rw [walked.grows.leaf]; exact building.leaf,
    walked.grows.spends.empty building.free⟩
  · intro x held
    rcases walked.grows.own x with same | ⟨_,made,_⟩
    · rw [same] at held ⊢
      exact building.owners x held
    · exact .inr made
  · intro x held
    rcases walked.grows.own x with same | ⟨_,_,one⟩
    · rw [walked.grows.refs x same]
      exact building.counts x (by rw [← same]; exact held)
    · exact one

theorem Building.map (building : Building base r m g leaf) (pt : PageTable) (at_root : pt.root = r)
    (from_pool : pt.frame_alloc = alloc_frame) {n : Nat} (vaddr paddr : Nat) (page : pageOf vaddr = n) (flags : PTEFlags) :
    ∃ res m' g', (pt.map vaddr paddr flags).run m = .ok res m' ∧
      (∀ S : Set Nat, n ∈ S → room g'+missing g r S = room g+missing g' r S) ∧ room g' ≤ room g ∧
      match res with
      | true => Building base r m' g' (Function.update leaf n (new_leaf paddr flags))
      | false => Building base r m' g' leaf ∧ room g' = 0 := by
  have inside : n < 512*2^18 := by
    rw [← page]
    exact pageOf_lt vaddr
  obtain ⟨res,m',m1,g1,run,walked,result⟩ := Mirrors.map building.mirrors pt at_root from_pool building.root page inside flags
  have grown := building.grow walked
  cases res with
  | false =>
    obtain ⟨rfl,full⟩ := result
    exact ⟨false,m',g1,run,walked.grows.paid,Grows.room_le walked.grows,grown,full⟩
  | true =>
    obtain ⟨written,_⟩ := result
    have less := Grows.room_le walked.grows
    refine ⟨true,m',setLeaf g1 r n (new_leaf paddr flags),run,?_,less,written,grown.root,grown.owners,
      grown.counts,?_,grown.free⟩
    · intro S wanted
      rw [missing_congr (setLeaf_tables _ _ _ _).1 (setLeaf_tables _ _ _ _).2]
      exact walked.grows.paid S wanted
    · simp only [setLeaf,Function.update_self]
      rw [grown.leaf]

/-- A page of the kernel's identity mapping. -/
def identityLeaf (n : Nat) : PTEntry := new_leaf (n*4096) (PTEFlags.new true true true false)

/-- The identity mapping of the pages from `lo` up to `hi`. -/
def identity (lo hi n : Nat) : PTEntry := if lo ≤ n ∧ n < hi then identityLeaf n else 0

theorem identity_update {lo hi : Nat} (order : lo ≤ hi) :
    Function.update (identity lo hi) hi (identityLeaf hi) = identity lo (hi+1) := by
  funext n
  unfold identity
  by_cases same : n = hi
  · subst same
    rw [Function.update_self,if_pos (by omega)]
  · rw [Function.update_of_ne same]
    by_cases inside : lo ≤ n ∧ n < hi
    · rw [if_pos inside,if_pos (by omega)]
    · rw [if_neg inside,if_neg (by omega)]

/-- The pages of RAM. -/
def ramPages : Set Nat := { n | RAM_BASE/4096 ≤ n ∧ n < RAM_END/4096 }

theorem init_kernel_loop_spec (pt : PageTable) (at_root : pt.root = r) (from_pool : pt.frame_alloc = alloc_frame) {pa : Nat}
    (building : Building base r m g leaf) (aligned : pa%4096 = 0) (low : RAM_BASE ≤ pa) (high : pa ≤ RAM_END)
    (now : leaf = identity (RAM_BASE/4096) (pa/4096) ∨ room g = 0) :
    ∃ m' g' leaf', (init_kernel_loop pt (PTEFlags.new true true true false) RAM_END pa).run m = .ok ⟨⟩ m' ∧
      Building base r m' g' leaf' ∧ (∀ a, a < base → m'.mem a = m.mem a) ∧
      (∀ S : Set Nat, ramPages ⊆ S → room g'+missing g r S = room g+missing g' r S) ∧
      (leaf' = identity (RAM_BASE/4096) (RAM_END/4096) ∨ room g' = 0) := by
  have ram : RAM_END = 0x88000000 := rfl
  have start : RAM_BASE = 0x80000000 := rfl
  induction gap : RAM_END-pa using Nat.strong_induction_on generalizing pa m g leaf with
  | _ gap ih =>
    unfold init_kernel_loop
    by_cases more : pa < RAM_END
    · rw [dif_pos more]
      have page : pageOf pa = pa/4096 := pageOf_low (by omega)
      obtain ⟨res,m1,g1,run,paid,less,result⟩ := building.map pt at_root from_pool pa pa page
        (PTEFlags.new true true true false)
      rw [run_seq run]
      have floor := Mirrors.map_floor building.mirrors pt at_root from_pool building.root page (by omega) run
      have next : (pa+4096)/4096 = pa/4096+1 := by omega
      have inside : pa/4096 ∈ ramPages := ⟨by omega,by omega⟩
      have whole : pa/4096*4096 = pa := by omega
      have after : ∃ leaf1, Building base r m1 g1 leaf1 ∧ (leaf1 = identity (RAM_BASE/4096) ((pa+4096)/4096) ∨ room g1 = 0) := by
        cases res with
        | false => exact ⟨leaf,result.1,.inr result.2⟩
        | true =>
          refine ⟨_,result,?_⟩
          rcases now with filled | full
          · left
            have entry : new_leaf pa (PTEFlags.new true true true false) = identityLeaf (pa/4096) := by
              unfold identityLeaf
              rw [whole]
            rw [filled,entry,next,identity_update (by omega)]
          · right
            omega
      obtain ⟨leaf1,building1,now1⟩ := after
      obtain ⟨m2,g2,leaf2,run2,building2,floor2,paid2,now2⟩ := ih (RAM_END-(pa+4096)) (by omega) building1 (by omega) (by omega)
        (by omega) now1 rfl
      refine ⟨m2,g2,leaf2,run2,building2,fun a below => (floor2 a below).trans (floor a below),?_,now2⟩
      intro S wanted
      have first := paid S (wanted inside)
      have second := paid2 S wanted
      omega
    · rw [dif_neg more]
      refine ⟨m,g,leaf,rfl,building,fun _ _ => rfl,fun _ _ => rfl,?_⟩
      have same : pa = RAM_END := by omega
      rw [← same]
      exact now

/-- The memory and the allocator when the boot begins. -/
def fresh (base : Nat) : Ledger where
  own := fun _ => .none
  refs := fun _ => 0
  next := base
  free := []
  tree := fun _ => { l2 := fun _ => none, l1 := fun _ => none, leaf := fun _ => 0 }

theorem fresh_mirrors (low : RAM_BASE ≤ base) (high : base ≤ RAM_END) (aligned : base%4096 = 0) (next : m.next_frame = base)
    (head : m.free_list_head = 0) (counts : m.frame_refs = fun _ => 0) : Mirrors base 512 m (fresh base) := by
  refine ⟨⟨next,low,aligned,aligned,le_refl _,high,?_,by rw [head]; exact .nil,List.nodup_nil,?_,?_,?_,?_⟩,?_⟩
  · intro f
    simp only [fresh,ne_eq,not_true_eq_false,false_iff]
    omega
  · intro f
    simp [fresh]
  · intro f held
    exact absurd rfl held
  · intro f held
    exact absurd rfl held
  · intro f _ _ _ _
    rw [counts]
  · refine ⟨?_,?_,?_,?_,?_,?_⟩ <;> intros <;> rename_i here <;> simp [fresh] at *

theorem init_kernel_spec (low : RAM_BASE ≤ base) (high : base ≤ RAM_END) (aligned : base%4096 = 0) (next : m.next_frame = base)
    (head : m.free_list_head = 0) (counts : m.frame_refs = fun _ => 0) :
    (base = RAM_END ∧ ∃ e, (init_kernel RAM_BASE alloc_frame).run m = .error e m) ∨
    ∃ r satp m' g leaf, (init_kernel RAM_BASE alloc_frame).run m = .ok ({ root := r, frame_alloc := alloc_frame },satp) m' ∧
      Building base r m' g leaf ∧ r < RAM_END ∧ (∀ a, a < base → m'.mem a = m.mem a) ∧
      (∀ S : Set Nat, ramPages ⊆ S → room g+tablesFor S+1 = (RAM_END-base)/4096+missing g r S) ∧
      (leaf = identity (RAM_BASE/4096) (RAM_END/4096) ∨ room g = 0) := by
  have mirrors := fresh_mirrors low high aligned next head counts
  unfold init_kernel
  rcases mirrors.alloc with ⟨full,run⟩ | ⟨f,m1,run,mem,unused,frame,above,bound,after,less⟩
  · left
    have ram : RAM_END = 0x88000000 := rfl
    simp only [room,fresh,List.length_nil] at full
    refine ⟨by omega,.panic "no frame for root page table",?_⟩
    rw [run_seq run]
    rfl
  · right
    rw [run_seq run]
    dsimp only
    rw [run_seq (run_write_bytes _ _ _ _)]
    have zeroed := confined_fill m1.mem (p := f) 0 frame
    have filled : Mirrors base 512 { m1 with mem := fill m1.mem f 0 4096 } ((fresh base).take f) := by
      refine after.frame zeroed ?_
      rintro p rfl
      rw [take_own_self]
      exact ⟨by simp,rfl⟩
    have tables : Tables 512 (fill m1.mem f 0 4096) (newRoot 512 ((fresh base).take f) f f) := filled.tables.new_root (by omega) (by rw [take_own_self]; rfl) frame
      (fun v _ inside => load64_fill_zero (by simp only [entry_at]; omega) (by simp only [entry_at]; omega))
      (fun v high inside => by omega)
    have pool := filled.pool.give (f := f) (o := .root) (by rw [take_own_self]; simp) (by rw [take_own_self]; simp)
      (by simp) (by simp)
    have own : ∀ x, (newRoot 512 ((fresh base).take f) f f).own x = if x = f then .root else .none := by
      intro x
      simp only [newRoot,Ledger.take,fresh]
      by_cases same : x = f
      · subst same
        simp
      · simp [same]
    have building : Building base f { m1 with mem := fill m1.mem f 0 4096 } (newRoot 512 ((fresh base).take f) f f)
        (identity (RAM_BASE/4096) (RAM_BASE/4096)) := by
      refine ⟨⟨{ pool with },tables⟩,by rw [own,if_pos rfl],?_,?_,?_,rfl⟩
      · intro x held
        rw [own] at held
        left
        by_contra other
        rw [if_neg other] at held
        exact held rfl
      · intro x held
        rw [own] at held
        have same : x = f := by
          by_contra other
          rw [if_neg other] at held
          exact held rfl
        rw [same]
        simp [newRoot,Ledger.take]
      · funext n
        have zero : identity (RAM_BASE/4096) (RAM_BASE/4096) n = 0 := by
          unfold identity
          exact if_neg (by omega)
        rw [zero]
        simp only [newRoot,Function.update_self]
        split
        · rfl
        · rfl
    obtain ⟨m2,g2,leaf,run2,building2,floor,paid,now⟩ := init_kernel_loop_spec { root := f, frame_alloc := alloc_frame } rfl rfl building
      (by decide) (le_refl _) (by decide) (.inl rfl)
    refine ⟨f,PageTable.satp_val { root := f, frame_alloc := alloc_frame },m2,g2,leaf,?_,building2,bound,fun a below => ?_,?_,now⟩
    · have total : RAM_BASE+RAM_SIZE = RAM_END := rfl
      rw [total,run_seq run2]
      rfl
    · calc
        m2.mem a = fill m1.mem f 0 4096 a := floor a below
        _ = m1.mem a := fill_off (.inl (by omega))
        _ = m.mem a := congrFun mem a
    · intro S wanted
      have first : room g2+missing (newRoot 512 ((fresh base).take f) f f) f S =
          room (newRoot 512 ((fresh base).take f) f f)+missing g2 f S := paid S wanted
      have bare : missing (newRoot 512 ((fresh base).take f) f f) f S = tablesFor S := by
        unfold missing tablesFor
        simp only [newRoot,Function.update_self]
        refine congrArg₂ (· + ·) (lacking_congr fun v inside _ => ?_) (lacking_congr fun i inside _ => ?_)
        · rw [if_pos inside]
        · rw [if_pos (by omega)]
      have rooms : room (newRoot 512 ((fresh base).take f) f f)+1 = (RAM_END-base)/4096 := by
        have equal : room (fresh base) = (RAM_END-base)/4096 := by simp [room,fresh]
        rw [← equal]
        exact less
      omega

end

/-! ### The address space of init -/

/-- One page table, no stack and the identity mapping of RAM. -/
structure Rising (exact : Bool) (base r : Nat) (m : Mm) (g : Ledger) : Prop where
  good : Good exact base m g
  root : g.own r = .root
  only : ∀ q, g.own q = .root → q = r
  stackless : ∀ x b, g.own x ≠ .stack b
  upper : ∀ n, 2^19 ≤ n → (g.tree r).leaf n = identity (RAM_BASE/4096) (RAM_END/4096) n
  free : g.free = []
  halves : ∀ x, g.own x = .kernel → UpperTable m.mem r x

section
variable {exact : Bool} {base r : Nat} {m : Mm} {g : Ledger}

theorem Rising.acts (rising : Rising exact base r m g) {m' : Mm} {g' : Ledger} (good : Good exact base m' g')
    (aside : Aside r m m' g g') (free : g'.free = []) : Rising exact base r m' g' :=
  ⟨good,(aside.roots r).mpr rising.root,fun q isRoot => rising.only q ((aside.roots q).mp isRoot),
    fun x b here => rising.stackless x b ((aside.stack x b).mp here),
    fun n high => (aside.upper r n rising.root high).trans (rising.upper n high),free,
    fun x kernel => (upperTable_same rising.good.mirrors good.mirrors rising.root ((aside.roots r).mpr rising.root)
      (fun v high => aside.tops r v rising.root high) aside.kernel_bytes).mpr (rising.halves x ((aside.kernel x).mp kernel))⟩

theorem identity_plain (lo hi n : Nat) : is_u (identity lo hi n) = false := by
  unfold identity
  split
  · rw [is_u_eq,identityLeaf,getLsbD_new_leaf_low _ _ (by omega),(PTEFlags.new_bits true true true false).2.2.2.2]
  · decide

/-- The finished identity mapping is the kernel half of the page table. -/
theorem Building.rising {leaf : Nat → PTEntry} (building : Building base r m g leaf) (bound : r < RAM_END)
    (filled : leaf = identity (RAM_BASE/4096) (RAM_END/4096)) :
    Rising exact base r m (freeze 2 g) ∧ space m (freeze 2 g) r = fun _ => none := by
  have ram : RAM_END = 0x88000000 := rfl
  have start : RAM_BASE = 0x80000000 := rfl
  have leaves : ((freeze 2 g).tree r).leaf = identity (RAM_BASE/4096) (RAM_END/4096) := building.leaf.trans filled
  have keep : ∀ {x o}, o ≠ .kernel → (∀ q v, o ≠ .l2 q v) → (∀ q i, o ≠ .l1 q i) → ((freeze 2 g).own x = o ↔ g.own x = o) := by
    intro x o notKernel notL2 notL1
    simp only [freeze]
    cases g.own x <;> simp only [frozen]
    · split
      · rfl
      · exact ⟨fun h => absurd h.symm notKernel,fun h => absurd h.symm (notL2 _ _)⟩
    · split
      · rfl
      · exact ⟨fun h => absurd h.symm notKernel,fun h => absurd h.symm (notL1 _ _)⟩
  have held : ∀ x, (freeze 2 g).own x ≠ .none ↔ g.own x ≠ .none := fun x => not_congr (keep (by simp) (by simp) (by simp))
  have only : ∀ q, (freeze 2 g).own q = .root → q = r := by
    intro q isRoot
    have here : g.own q = .root := (keep (by simp) (by simp) (by simp)).mp isRoot
    rcases building.owners q (by rw [here]; simp) with same | ⟨v,h⟩ | ⟨i,h⟩
    · exact same
    · rw [here] at h; cases h
    · rw [here] at h; cases h
  have unowned : ∀ {x o}, (freeze 2 g).own x = o → o ≠ .none → o ≠ .root → o ≠ .kernel → (∀ q v, o ≠ .l2 q v) →
      (∀ q i, o ≠ .l1 q i) → False := by
    intro x o here some_owner notRoot notKernel notL2 notL1
    have here' := (keep notKernel notL2 notL1).mp here
    rcases building.owners x (by rw [here']; exact some_owner) with rfl | ⟨v,h⟩ | ⟨i,h⟩
    · exact notRoot (here'.symm.trans building.root)
    · exact notL2 _ _ (here'.symm.trans h)
    · exact notL1 _ _ (here'.symm.trans h)
  have noUser : ∀ {q n e}, ¬ UserLeaf (freeze 2 g) q n e := by
    intro q n e leafU
    have same := only q leafU.root
    subst same
    have user := leafU.user
    rw [← leafU.entry,leaves,identity_plain] at user
    cases user
  have sound : Sound exact nothing base (freeze 2 g) := by
    refine ⟨fun l => absurd l noUser,fun l => absurd l noUser,fun l => absurd l noUser,fun l => absurd l noUser,
      fun l => absurd l noUser,?_,?_,?_,?_,?_,?_,?_,?_⟩
    · intro f here
      exact (unowned here (by simp) (by simp) (by simp) (by simp) (by simp)).elim
    · intro _ f here
      exact (unowned here (by simp) (by simp) (by simp) (by simp) (by simp)).elim
    · intro f here
      exact (unowned here (by simp) (by simp) (by simp) (by simp) (by simp)).elim
    · intro f here
      exact (unowned here (by simp) (by simp) (by simp) (by simp) (by simp)).elim
    · intro f _ some_owner
      rw [if_neg fun free => unowned free (by simp) (by simp) (by simp) (by simp) (by simp)]
      exact building.counts f ((held f).mp some_owner)
    · intro q isRoot
      rw [only q isRoot]
      exact bound
    · intro q n isRoot low _
      left
      rw [only q isRoot,leaves]
      unfold identity
      exact if_neg (by omega)
    · intro q n isRoot _ _
      rw [only q isRoot,leaves]
      exact identity_plain _ _ _
  refine ⟨⟨⟨⟨?_,building.mirrors.tables.freeze 2⟩,sound,?_⟩,?_,only,?_,?_,building.free,?_⟩,?_⟩
  · exact building.mirrors.pool.reown (fun x => keep (by simp) (by simp) (by simp)) (fun x => keep (by simp) (by simp) (by simp))
  · intro x here
    exact unowned here (by simp) (by simp) (by simp) (by simp) (by simp)
  · exact (keep (by simp) (by simp) (by simp)).mpr building.root
  · intro x b here
    exact unowned here (by simp) (by simp) (by simp) (by simp) (by simp)
  · intro n _
    rw [leaves]
  · intro x kernel
    refine (upperTable_iff (building.mirrors.tables.tree r building.root)).mpr ?_
    rcases building.owners x (mt (keep (o := .none) (by simp) (by simp) (by simp)).mpr (by rw [kernel]; simp)) with
      rfl | ⟨v,here⟩ | ⟨i,here⟩
    · have isRoot := (keep (x := x) (o := .root) (by simp) (by simp) (by simp)).mpr building.root
      rw [kernel] at isRoot
      cases isRoot
    · obtain ⟨_,inside,table⟩ := building.mirrors.tables.l2_back x r v here
      simp only [freeze,here,frozen] at kernel
      split at kernel
      · cases kernel
      · exact .inl ⟨v,by omega,inside,table⟩
    · obtain ⟨_,inside,table⟩ := building.mirrors.tables.l1_back x r i here
      simp only [freeze,here,frozen] at kernel
      split at kernel
      · cases kernel
      · exact .inr ⟨i,by omega,by omega,table⟩
  · funext n
    unfold space
    split
    · rw [leaves]
      unfold pageAt
      rw [identity_plain,Bool.and_false]
      rfl
    · rfl

/-- The console device. -/
theorem map_device (rising : Rising exact base r m g) (empty : space m g r = fun _ => none) (pt : PageTable)
    (at_root : pt.root = r) (from_pool : pt.frame_alloc = alloc_frame) :
    ∃ res m' g', (pt.map UART0 UART0 (PTEFlags.new true true false false)).run m = .ok res m' ∧
      Rising exact base r m' g' ∧ space m' g' r = (fun _ => none) ∧
      (∀ S : Set Nat, devicePage ∈ S → room g'+missing g r S = room g+missing g' r S) ∧ (res = true ∨ room g' = 0) := by
  have page : pageOf UART0 = devicePage := by decide
  have low : devicePage < 2^19 := by decide
  have noUser : ∀ {n e}, ¬ UserLeaf g r n e := by
    intro n e leaf
    have none := congrFun empty n
    rw [space_low (rising.good.sound.low leaf),leaf.entry,pageAt_user leaf.valid leaf.user] at none
    cases none
  obtain ⟨res,m',m1,g1,run,walked,result⟩ := Mirrors.map rising.good.mirrors pt at_root from_pool rising.root page (by omega)
    (PTEFlags.new true true false false)
  have aside1 := walked_aside rising.good.mirrors rising.good.sound walked low
  have settled : ∀ x, g1.own x ≠ .temp := by
    intro x here
    exact rising.good.settled x ((grows_keeps walked.grows (by simp) (by simp) (by simp [Owner.structural])).mp here)
  have sound1 := rising.good.sound.grow walked.grows
  have noUser1 : ∀ {n e}, ¬ UserLeaf g1 r n e := by
    intro n e leaf
    refine noUser ⟨rising.root,leaf.inside,?_,leaf.valid,leaf.user⟩
    rw [← walked.grows.leaf]
    exact leaf.entry
  have good1 : Good exact base m1 g1 := ⟨walked.mirrors,sound1,settled⟩
  have empty1 : g1.free = [] := walked.grows.spends.empty rising.free
  cases res with
  | false =>
    obtain ⟨rfl,full⟩ := result
    refine ⟨false,m',g1,run,rising.acts good1 (aside1 r) empty1,?_,walked.grows.paid,.inr full⟩
    rw [space_unseen aside1 rising.root]
    exact empty
  | true =>
    obtain ⟨written,b,owner,change⟩ := result
    have entry : new_leaf UART0 (PTEFlags.new true true false false) = deviceLeaf := rfl
    rw [entry] at written
    have sound2 := sound1.set_device (c := r) fun _ => noUser1
    have aside2 : Aside r m m' g (setLeaf g1 r devicePage deviceLeaf) :=
      map_child_aside rising.good.mirrors rising.good.sound walked low owner change
    have good2 : Good exact base m' (setLeaf g1 r devicePage deviceLeaf) := ⟨written,sound2,settled⟩
    refine ⟨true,m',_,run,rising.acts good2 aside2 empty1,?_,?_,.inl rfl⟩
    · funext n
      cases found : space m' (setLeaf g1 r devicePage deviceLeaf) r n with
      | none => rfl
      | some p =>
        obtain ⟨_,leaf⟩ := space_leaf ((aside2.roots r).mpr rising.root) found
        by_cases here : n = devicePage
        · subst here
          have user := leaf.user
          rw [leaf_setLeaf_self] at user
          exact absurd user (by decide)
        · exact absurd ((userLeaf_setLeaf_other (by rintro ⟨_,same⟩; exact here same)).mp leaf) noUser1
    · intro S wanted
      rw [missing_congr (setLeaf_tables _ _ _ _).1 (setLeaf_tables _ _ _ _).2]
      exact walked.grows.paid S wanted

/-! ### The program and its stack -/

/-- There is no frame left. -/
def Broke (m : Mm) : Prop := alloc_frame.run m = .ok none m

theorem broke_of {split : Nat} (mirrors : Mirrors base split m g) (full : room g = 0) : Broke m := by
  rcases mirrors.alloc with ⟨_,run⟩ | ⟨f,m',_,_,_,_,_,_,_,less⟩
  · exact run
  · omega

/-- The first `count` pages of the program are there, to be read and run. -/
structure Loaded (s : Pages) (count : Nat) : Prop where
  there : ∀ n, (s n).isSome ↔ USER_CODE_BASE/4096 ≤ n ∧ n < USER_CODE_BASE/4096+count
  access : ∀ n p, s n = some p → p.readable = true ∧ p.writable = false ∧ p.executable = true

theorem loaded_none : Loaded (fun _ => none) 0 := by
  refine ⟨fun n => ?_,fun n p here => by cases here⟩
  simp only [Option.isSome_none,Bool.false_eq_true,false_iff]
  omega

theorem Loaded.next {s : Pages} {count : Nat} (loaded : Loaded s count) (bytes : Fin 4096 → BitVec 8) :
    Loaded (Eager.fillPages (USER_CODE_BASE/4096+count) (USER_CODE_BASE/4096+count+1) ⟨true,false,true,bytes⟩ s) (count+1) := by
  constructor
  · intro n
    unfold Eager.fillPages
    by_cases here : USER_CODE_BASE/4096+count ≤ n ∧ n < USER_CODE_BASE/4096+count+1
    · rw [if_pos here,Option.isSome_some]
      simp only [true_iff]
      omega
    · rw [if_neg here,loaded.there n]
      omega
  · intro n p found
    unfold Eager.fillPages at found
    by_cases here : USER_CODE_BASE/4096+count ≤ n ∧ n < USER_CODE_BASE/4096+count+1
    · rw [if_pos here,Option.some.injEq] at found
      rw [← found]
      exact ⟨rfl,rfl,rfl⟩
    · rw [if_neg here] at found
      exact loaded.access n p found

/-- The byte at a place of the program of a length that lies in memory from `start` on, with zeros behind it. -/
def programByte (mem : Mem) (start len i : Nat) : BitVec 8 := if i < len then mem (start+i) else 0

/-- The pages of the code hold a program. -/
def Copied (program : Nat → BitVec 8) (s : Pages) : Prop :=
  ∀ n p, n ≠ USER_STACK_PAGE/4096 → s n = some p →
    ∀ o : Fin 4096, p.bytes o = program ((n-USER_CODE_BASE/4096)*4096+o.val)

theorem programByte_floor {mem mem' : Mem} {start len base : Nat} (floor : ∀ a, a < base → mem' a = mem a)
    (below : start+len ≤ base) : programByte mem' start len = programByte mem start len := by
  funext i
  unfold programByte
  split
  · exact floor _ (by omega)
  · rfl

theorem Copied.next {program : Nat → BitVec 8} {s : Pages} (copied : Copied program s) {count : Nat} {bytes : Fin 4096 → BitVec 8}
    (same : ∀ o, bytes o = program (count*4096+o.val)) :
    Copied program (Eager.fillPages (USER_CODE_BASE/4096+count) (USER_CODE_BASE/4096+count+1) ⟨true,false,true,bytes⟩ s) := by
  intro n p other found o
  unfold Eager.fillPages at found
  by_cases here : USER_CODE_BASE/4096+count ≤ n ∧ n < USER_CODE_BASE/4096+count+1
  · rw [if_pos here,Option.some.injEq] at found
    have place : n-USER_CODE_BASE/4096 = count := by omega
    rw [← found,place]
    exact same o
  · rw [if_neg here] at found
    exact copied n p other found o

theorem Copied.stack {program : Nat → BitVec 8} {s : Pages} (copied : Copied program s) (page : Page) :
    Copied program (Eager.fillPages (USER_STACK_PAGE/4096) (USER_STACK_PAGE/4096+1) page s) := by
  intro n p other found
  unfold Eager.fillPages at found
  rw [if_neg (by omega)] at found
  exact copied n p other found

/-- The pages of a program of a length. -/
def codePages (prog_len : Nat) : Set Nat :=
  { n | USER_CODE_BASE/4096 ≤ n ∧ n < USER_CODE_BASE/4096+Eager.pageUp prog_len }

/-- No user leaf at a page that is not there. -/
theorem absent_leaf (good : Good exact base m g) {n : Nat} (absent : space m g r n = none) : ∀ d, ¬ UserLeaf g r n d := by
  intro d leaf
  rw [space_low (good.sound.low leaf),leaf.entry,pageAt_user leaf.valid leaf.user] at absent
  cases absent

/-- A page of the program in its frame. -/
theorem confined_code (mem : Mem) {f count : Nat} (src : Nat) (aligned : f%4096 = 0) (short : count ≤ PAGE_SIZE) :
    Confined (· = f) mem (copy (fill mem f 0 PAGE_SIZE) src f count) := by
  refine (confined_fill mem (p := f) 0 aligned).trans fun a outside => copy_off ?_
  have page_size : PAGE_SIZE = 4096 := rfl
  omega

/-- What the frame of a code page holds, when the program lies below it. -/
theorem code_bytes (mem : Mem) {start len copied f : Nat} (below : start+len ≤ f) (more : copied < len) (o : Fin 4096) :
    copy (fill mem f 0 PAGE_SIZE) (start+copied) f (min PAGE_SIZE (len-copied)) (f+o.val) = programByte mem start len (copied+o.val) := by
  have page_size : PAGE_SIZE = 4096 := rfl
  have inside := o.isLt
  unfold programByte
  by_cases program : copied+o.val < len
  · rw [if_pos program,copy_on (by omega),fill_off (.inl (by omega)),Nat.add_assoc]
  · rw [if_neg program,copy_off (.inr (by omega)),fill_on (by omega) (by omega)]

theorem load_program_spec (pt : PageTable) (at_root : pt.root = r) (from_pool : pt.frame_alloc = alloc_frame)
    (prog_start prog_len copied : Nat) (fits : USER_CODE_BASE/4096+Eager.pageUp prog_len ≤ USER_HEAP_START/4096)
    (rising : Rising exact base r m g) (aligned : copied%4096 = 0) (order : copied/4096 ≤ Eager.pageUp prog_len)
    (loaded : Loaded (space m g r) (copied/4096)) :
    (((∃ e m', (load_program pt prog_start prog_len copied).run m = .error e m') ∨
        ∃ m', (load_program pt prog_start prog_len copied).run m = .ok ⟨⟩ m' ∧ Broke m') ∧
      ∀ S : Set Nat, codePages prog_len ⊆ S → room g ≤ missing g r S+(Eager.pageUp prog_len-copied/4096)) ∨
    ∃ m' g', (load_program pt prog_start prog_len copied).run m = .ok ⟨⟩ m' ∧ Rising exact base r m' g' ∧
      Loaded (space m' g' r) (Eager.pageUp prog_len) ∧
      (prog_start+prog_len ≤ base → Copied (programByte m.mem prog_start prog_len) (space m g r) →
        Copied (programByte m.mem prog_start prog_len) (space m' g' r)) ∧
      ∀ S : Set Nat, codePages prog_len ⊆ S →
        room g'+missing g r S+(Eager.pageUp prog_len-copied/4096) = room g+missing g' r S := by
  subst at_root
  have code : USER_CODE_BASE = 0x10000 := rfl
  have heap : USER_HEAP_START = 0x20000 := rfl
  have page_size : PAGE_SIZE = 4096 := rfl
  induction gap : prog_len-copied using Nat.strong_induction_on generalizing copied m g with
  | _ gap ih =>
    unfold load_program
    by_cases more : copied < prog_len
    · rw [dif_pos more]
      have left : copied/4096 < Eager.pageUp prog_len := by
        unfold Eager.pageUp
        omega
      rcases take_frame rising.good with ⟨full,run⟩ | ⟨f,m1,run,mem,unused,bound,held,aside,less⟩
      · refine .inl ⟨.inl ⟨.panic "no frame for user code",m,?_⟩,fun S _ => by omega⟩
        rw [run_seq run]
        rfl
      rw [run_seq run]
      dsimp only
      rw [run_seq (run_write_bytes _ _ _ _),run_seq (run_copy _ _ _ _)]
      have change := confined_code m1.mem (prog_start+copied) held.aligned (Nat.min_le_left PAGE_SIZE (prog_len-copied))
      obtain ⟨held2,aside2⟩ := held.write change
      have unseen := fun q => (aside q).trans (aside2 q)
      have isRoot2 := ((unseen 0).roots _).mpr rising.root
      have page : pageOf (USER_CODE_BASE+copied) = USER_CODE_BASE/4096+copied/4096 := by
        rw [pageOf_low (by omega)]
        omega
      have absent : space m g pt.root (USER_CODE_BASE/4096+copied/4096) = none := by
        rw [← Option.not_isSome_iff_eq_none,loaded.there]
        omega
      have empty : ∀ d, ¬ UserLeaf (g.take f) pt.root (USER_CODE_BASE/4096+copied/4096) d := by
        intro d leaf
        exact absent_leaf rising.good absent d ⟨rising.root,leaf.inside,leaf.entry,leaf.valid,leaf.user⟩
      obtain ⟨res,m3,g3,runMap,paid,spends,_,result⟩ := map_user pt held2 from_pool isRoot2 page (by omega) empty true false true
        (.inl rfl) (by simp)
      rw [run_seq runMap]
      have same_missing : ∀ S, missing (g.take f) pt.root S = missing g pt.root S := fun S => missing_congr rfl rfl
      have inside : USER_CODE_BASE/4096+copied/4096 ∈ codePages prog_len := ⟨by omega,by omega⟩
      have next : (copied+4096)/4096 = copied/4096+1 := by omega
      cases res with
      | false =>
        obtain ⟨full,held3,_⟩ := result
        have broke := broke_of held3.mirrors full
        have short : ∀ S : Set Nat, codePages prog_len ⊆ S → room g ≤ missing g pt.root S+(Eager.pageUp prog_len-copied/4096) := by
          intro S wanted
          have := paid S (wanted inside)
          rw [same_missing] at this
          omega
        refine .inl ⟨?_,short⟩
        unfold load_program
        by_cases again : copied+4096 < prog_len
        · rw [dif_pos again]
          refine .inl ⟨.panic "no frame for user code",m3,?_⟩
          rw [run_seq broke]
          rfl
        · rw [dif_neg again]
          exact .inr ⟨m3,rfl,broke⟩
      | true =>
        have acts : Acts exact base pt.root _ m3 _ g3 _ := result
        have empty3 := spends.empty ((spends_take rising.good.mirrors.pool run held.mirrors.pool).empty rising.free)
        have rising3 := rising.acts acts.good ((unseen _).trans acts.aside) empty3
        have loaded3 : Loaded (space m3 g3 pt.root) ((copied+4096)/4096) := by
          rw [acts.pages,next,space_unseen unseen rising.root]
          exact loaded.next _
        have above := ((held.mirrors.pool.owned f).mp (by rw [held.temp]; simp)).2.1
        have floor : ∀ a, a < base → m3.mem a = m.mem a := by
          intro a below
          have other : a/4096*4096 ≠ f := by omega
          rw [Mirrors.map_floor held2.mirrors pt rfl from_pool isRoot2 page (by omega) runMap a below,← mem]
          exact change a other
        have copied3 : prog_start+prog_len ≤ base → Copied (programByte m.mem prog_start prog_len) (space m g pt.root) →
            Copied (programByte m.mem prog_start prog_len) (space m3 g3 pt.root) := by
          intro below before
          rw [acts.pages,space_unseen unseen rising.root]
          refine before.next fun o => ?_
          have whole : copied/4096*4096 = copied := by omega
          rw [whole,← mem]
          exact code_bytes m1.mem (by omega) more o
        rcases ih (prog_len-(copied+4096)) (by omega) (copied+4096) (by omega) (by omega) rising3 loaded3 rfl with ⟨fails,short⟩ |
          ⟨m4,g4,run4,rising4,loaded4,copied4,paid4⟩
        · refine .inl ⟨fails,fun S wanted => ?_⟩
          have first := paid S (wanted inside)
          have second := short S wanted
          rw [same_missing] at first
          omega
        · refine .inr ⟨m4,g4,run4,rising4,loaded4,fun below before => ?_,fun S wanted => ?_⟩
          · have later := copied4 below
            rw [programByte_floor floor below] at later
            exact later (copied3 below before)
          have first := paid S (wanted inside)
          have second := paid4 S wanted
          rw [same_missing] at first
          omega
    · rw [dif_neg more]
      have done : copied/4096 = Eager.pageUp prog_len := by
        unfold Eager.pageUp at order ⊢
        omega
      refine .inr ⟨m,g,rfl,rising,by rw [← done]; exact loaded,fun _ before => before,fun S _ => by omega⟩

/-! ### All of the memory -/

/-- The pages of init: the program, to be read and run, and a stack page, to be read and written. -/
structure Initial (s : Pages) (count : Nat) : Prop where
  there : ∀ n, (s n).isSome ↔
    (USER_CODE_BASE/4096 ≤ n ∧ n < USER_CODE_BASE/4096+count) ∨ n = USER_STACK_PAGE/4096
  code : ∀ n p, n ≠ USER_STACK_PAGE/4096 → s n = some p → p.readable = true ∧ p.writable = false ∧ p.executable = true
  stack : ∀ p, s (USER_STACK_PAGE/4096) = some p → p.readable = true ∧ p.writable = true ∧ p.executable = false

theorem Loaded.initial {s : Pages} {count : Nat} (loaded : Loaded s count) (bytes : Fin 4096 → BitVec 8) :
    Initial (Eager.fillPages (USER_STACK_PAGE/4096) (USER_STACK_PAGE/4096+1) ⟨true,true,false,bytes⟩ s) count := by
  refine ⟨?_,?_,?_⟩
  · intro n
    unfold Eager.fillPages
    by_cases here : USER_STACK_PAGE/4096 ≤ n ∧ n < USER_STACK_PAGE/4096+1
    · rw [if_pos here,Option.isSome_some]
      simp only [true_iff]
      omega
    · rw [if_neg here,loaded.there n]
      omega
  · intro n p other found
    unfold Eager.fillPages at found
    rw [if_neg (by omega)] at found
    exact loaded.access n p found
  · intro p found
    unfold Eager.fillPages at found
    rw [if_pos (by omega),Option.some.injEq] at found
    rw [← found]
    exact ⟨rfl,rfl,rfl⟩

/-- Memory when init is about to be created. -/
structure Booted (exact : Bool) (base r s : Nat) (m : Mm) (g : Ledger) : Prop where
  good : Good exact base m g
  root : g.own r = .root
  only : ∀ q, g.own q = .root → q = r
  stack : ∀ x b, g.own x = .stack b ↔ b = s ∧ ∃ i, i < KERNEL_STACK_PAGES ∧ x = s+i*PAGE_SIZE
  upper : ∀ n, 2^19 ≤ n → (g.tree r).leaf n = identity (RAM_BASE/4096) (RAM_END/4096) n
  free : g.free = []
  halves : ∀ x, g.own x = .kernel → UpperTable m.mem r x

/-- Every page that the boot maps. -/
def bootPages (prog_len : Nat) : Set Nat := ramPages ∪ {devicePage} ∪ codePages prog_len ∪ {USER_STACK_PAGE/4096}

/-- The kernel stack of init. -/
theorem Rising.stack (rising : Rising exact base r m g) :
    (RAM_END < g.next+KERNEL_STACK_PAGES*4096 ∧ (alloc_contiguous_frames KERNEL_STACK_PAGES).run m = .ok none m) ∨
    ∃ m', (alloc_contiguous_frames KERNEL_STACK_PAGES).run m = .ok (some g.next) m' ∧
      Booted exact base r g.next { m' with mem := fill m'.mem g.next 0 KERNEL_STACK_SIZE } (g.stretch KERNEL_STACK_PAGES) ∧
      space { m' with mem := fill m'.mem g.next 0 KERNEL_STACK_SIZE } (g.stretch KERNEL_STACK_PAGES) r = space m g r := by
  have mirrors := rising.good.mirrors
  rcases Mirrors.stretch mirrors KERNEL_STACK_PAGES (by decide) (by decide) with full | ⟨m',run,mem,left,after⟩
  · exact .inl full
  right
  have aligned := mirrors.pool.next_aligned
  have change := confined_fill_pages m'.mem (p := g.next) (n := KERNEL_STACK_PAGES) 0 aligned
  have above : ∀ p, g.next ≤ p ∧ p < g.next+KERNEL_STACK_PAGES*4096 → g.own p = .none := by
    intro p inside
    by_contra held
    have := (mirrors.pool.owned p).mp held
    omega
  have filled : Mirrors base 2 { m' with mem := fill m'.mem g.next 0 KERNEL_STACK_SIZE } (g.stretch KERNEL_STACK_PAGES) := by
    refine after.frame change fun p inside => ?_
    by_cases page : p%4096 = 0
    · have own : (g.stretch KERNEL_STACK_PAGES).own p = .stack g.next := by
        simp only [Ledger.stretch]
        rw [if_pos ⟨page,inside.1,inside.2⟩]
      rw [own]
      exact ⟨by simp,rfl⟩
    · have own : (g.stretch KERNEL_STACK_PAGES).own p = .none := by
        by_contra some_owner
        exact page ((after.pool.owned p).mp some_owner).1
      rw [own]
      exact ⟨by simp,rfl⟩
  refine ⟨m',run,⟨⟨filled,rising.good.sound.stretch mirrors.pool KERNEL_STACK_PAGES,?_⟩,?_,?_,?_,rising.upper,rising.free,?_⟩,?_⟩
  · intro x here
    exact rising.good.settled x ((stretch_keeps mirrors (by simp) (by simp)).mp here)
  · exact (stretch_keeps mirrors (by simp) (by simp)).mpr rising.root
  · intro q isRoot
    exact rising.only q ((stretch_keeps mirrors (by simp) (by simp)).mp isRoot)
  · intro x b
    rw [stretch_stack mirrors]
    constructor
    · rintro (old | both)
      · exact absurd old (rising.stackless x b)
      · exact both
    · exact .inr
  · intro x kernel
    have kernel' : g.own x = .kernel := (stretch_keeps mirrors (by simp) (by simp)).mp kernel
    have isRoot : (g.stretch KERNEL_STACK_PAGES).own r = .root := (stretch_keeps mirrors (by simp) (by simp)).mpr rising.root
    refine (upperTable_same mirrors filled rising.root isRoot (fun _ _ => rfl) ?_).mpr (rising.halves x kernel')
    intro y i here inside
    rw [← mem]
    refine change.byte (mirrors.pool.managed (by rw [here]; simp)).1 inside fun stack => ?_
    rw [above y stack] at here
    cases here
  · funext n
    refine space_same (S := fun q => g.next ≤ q ∧ q < g.next+KERNEL_STACK_PAGES*4096) rising.root rfl ?_ fun e leaf inside => ?_
    · rw [← mem]
      exact change
    · have user := rising.good.sound.user leaf
      rw [above _ inside] at user
      cases user

/-- The end of `boot_memory`: the stack page and the kernel stack. -/
def boot_stacks (pt : PageTable) : M (PageTable × Nat) := do
  match ← alloc_frame with
  | none => throw (.panic "no frame for user stack")
  | some stack_page =>
    let _ ← pt.map USER_STACK_PAGE stack_page (PTEFlags.new true true false true)
    match ← alloc_contiguous_frames KERNEL_STACK_PAGES with
    | none => throw (.panic "no frames for init kernel stack")
    | some kernel_stack =>
      write_bytes kernel_stack 0 KERNEL_STACK_SIZE
      return (pt,kernel_stack)

/-- The part of `boot_memory` after the page table of init is there. -/
def boot_rest (cfg : Config) (pt : PageTable) : M (PageTable × Nat) := do
  let prog_len := cfg.prog_end-cfg.prog_start
  let mapped_len := mask_page (prog_len+PAGE_SIZE-1)
  if ¬ USER_CODE_BASE+mapped_len ≤ USER_HEAP_START then
    throw (.panic "assertion failed: USER_CODE_BASE + mapped_len <= USER_HEAP_START")
  load_program pt cfg.prog_start prog_len 0
  boot_stacks pt

theorem boot_memory_eq (cfg : Config) : boot_memory cfg = (do
    frame_init cfg.kernel_end
    let (pt,_) ← init_kernel RAM_BASE alloc_frame
    let _ ← pt.map UART0 UART0 (PTEFlags.new true true false false)
    boot_rest cfg pt) := rfl

/-- The length of the built-in program. -/
def progLen (cfg : Config) : Nat := cfg.prog_end-cfg.prog_start

theorem mapped_len_eq (prog_len : Nat) : mask_page (prog_len+PAGE_SIZE-1) = Eager.pageUp prog_len*4096 := by
  have page_size : PAGE_SIZE = 4096 := rfl
  unfold mask_page Eager.pageUp
  rw [page_size,Nat.add_sub_assoc (by omega)]

/-- The program fits below the heap. -/
def ProgramFits (cfg : Config) : Prop := USER_CODE_BASE/4096+Eager.pageUp (progLen cfg) ≤ USER_HEAP_START/4096

theorem programFits_iff (cfg : Config) :
    USER_CODE_BASE+mask_page (cfg.prog_end-cfg.prog_start+PAGE_SIZE-1) ≤ USER_HEAP_START ↔ ProgramFits cfg := by
  have code : USER_CODE_BASE = 0x10000 := rfl
  have heap : USER_HEAP_START = 0x20000 := rfl
  rw [mapped_len_eq]
  unfold ProgramFits progLen
  omega

/-- Without a frame the boot does not end. -/
theorem boot_rest_broke (cfg : Config) (pt : PageTable) (broke : Broke m) : ∃ e m', (boot_rest cfg pt).run m = .error e m' := by
  unfold boot_rest
  dsimp only
  split
  · exact ⟨_,_,rfl⟩
  · unfold load_program
    by_cases more : 0 < cfg.prog_end-cfg.prog_start
    · rw [dif_pos more]
      refine ⟨.panic "no frame for user code",m,?_⟩
      rw [run_seq_error]
      rw [run_seq broke]
      rfl
    · rw [dif_neg more]
      refine ⟨.panic "no frame for user stack",m,?_⟩
      rw [run_seq (EStateM.run_pure _ _),boot_stacks,run_seq broke]
      rfl

/-- The rooms that a stack page and the kernel stack take after the program. -/
theorem stack_rest_spec (pt : PageTable) (at_root : pt.root = r) (from_pool : pt.frame_alloc = alloc_frame)
    (rising : Rising exact base r m g) {count : Nat} (loaded : Loaded (space m g r) count)
    (fits : USER_CODE_BASE/4096+count ≤ USER_HEAP_START/4096) :
    ((∃ e m', (boot_stacks pt).run m = .error e m') ∧
      ∀ S : Set Nat, USER_STACK_PAGE/4096 ∈ S → room g < missing g r S+1+KERNEL_STACK_PAGES) ∨
    ∃ s m' g', (boot_stacks pt).run m = .ok (pt,s) m' ∧ Booted exact base r s m' g' ∧ Initial (space m' g' r) count ∧
      (∀ program, Copied program (space m g r) → Copied program (space m' g' r)) ∧
      ∀ S : Set Nat, USER_STACK_PAGE/4096 ∈ S → room g'+missing g r S+1+KERNEL_STACK_PAGES = room g+missing g' r S := by
  subst at_root
  have code : USER_CODE_BASE = 0x10000 := rfl
  have heap : USER_HEAP_START = 0x20000 := rfl
  have top : USER_STACK_PAGE = 0x3F000000 := rfl
  have eight : KERNEL_STACK_PAGES = 8 := rfl
  unfold boot_stacks
  rcases take_frame rising.good with ⟨full,run⟩ | ⟨f,m1,run,mem,unused,bound,held,aside,less⟩
  · refine .inl ⟨⟨.panic "no frame for user stack",m,?_⟩,fun S _ => by omega⟩
    rw [run_seq run]
    rfl
  rw [run_seq run]
  dsimp only
  have isRoot1 := ((aside 0).roots _).mpr rising.root
  have page : pageOf USER_STACK_PAGE = USER_STACK_PAGE/4096 := by decide
  have absent : space m g pt.root (USER_STACK_PAGE/4096) = none := by
    rw [← Option.not_isSome_iff_eq_none,loaded.there]
    omega
  have empty : ∀ d, ¬ UserLeaf (g.take f) pt.root (USER_STACK_PAGE/4096) d := by
    intro d leaf
    exact absent_leaf rising.good absent d ⟨rising.root,leaf.inside,leaf.entry,leaf.valid,leaf.user⟩
  obtain ⟨res,m2,g2,runMap,paid,spends,_,result⟩ := map_user pt held from_pool isRoot1 page (by decide) empty true true false
    (.inl rfl) (fun _ => rfl)
  rw [run_seq runMap]
  have same_missing : ∀ S, missing (g.take f) pt.root S = missing g pt.root S := fun S => missing_congr rfl rfl
  have empty2 := spends.empty ((spends_take rising.good.mirrors.pool run held.mirrors.pool).empty rising.free)
  cases res with
  | false =>
    obtain ⟨full,held2,_⟩ := result
    left
    constructor
    · rcases Mirrors.stretch held2.mirrors KERNEL_STACK_PAGES (by decide) (by decide) with ⟨_,fails⟩ | ⟨_,_,_,left,_⟩
      · refine ⟨.panic "no frames for init kernel stack",m2,?_⟩
        rw [run_seq fails]
        rfl
      · rw [room] at full
        rw [eight] at left
        omega
    · intro S wanted
      have := paid S wanted
      rw [same_missing] at this
      omega
  | true =>
    have acts : Acts exact base pt.root _ m2 _ g2 _ := result
    have rising2 := rising.acts acts.good ((aside _).trans acts.aside) empty2
    have high := rising2.good.mirrors.pool.high
    have aligned := rising2.good.mirrors.pool.next_aligned
    have ram : RAM_END = 0x88000000 := rfl
    have initial : Initial (space m2 g2 pt.root) count := by
      rw [acts.pages,space_unseen aside rising.root]
      exact loaded.initial _
    rcases rising2.stack with ⟨full,fails⟩ | ⟨m3,made,booted,same⟩
    · left
      constructor
      · refine ⟨.panic "no frames for init kernel stack",m2,?_⟩
        rw [run_seq fails]
        rfl
      · intro S wanted
        have := paid S wanted
        rw [same_missing] at this
        have few : room g2 < 8 := by
          rw [room,empty2]
          rw [eight] at full
          simp only [List.length_nil]
          omega
        omega
    · right
      refine ⟨g2.next,_,_,?_,booted,by rw [same]; exact initial,fun program copied => ?_,?_⟩
      · rw [run_seq made]
        dsimp only
        rw [run_seq (run_write_bytes _ _ _ _)]
        rfl
      · rw [same,acts.pages,space_unseen aside rising.root]
        exact copied.stack _
      · intro S wanted
        have := paid S wanted
        rw [same_missing] at this
        have rooms : room (g2.stretch KERNEL_STACK_PAGES)+8 = room g2 := by
          have end_high := booted.good.mirrors.pool.high
          simp only [Ledger.stretch] at end_high
          simp only [room,Ledger.stretch]
          rw [eight] at end_high ⊢
          omega
        have same : missing (g2.stretch KERNEL_STACK_PAGES) pt.root S = missing g2 pt.root S := missing_congr rfl rfl
        omega

theorem boot_rest_spec (cfg : Config) (pt : PageTable) (at_root : pt.root = r) (from_pool : pt.frame_alloc = alloc_frame)
    (rising : Rising exact base r m g) (empty : space m g r = fun _ => none) :
    ((∃ e m', (boot_rest cfg pt).run m = .error e m') ∧ (¬ ProgramFits cfg ∨
      ∀ S : Set Nat, bootPages (progLen cfg) ⊆ S → room g < missing g r S+Eager.pageUp (progLen cfg)+1+KERNEL_STACK_PAGES)) ∨
    ∃ s m' g', (boot_rest cfg pt).run m = .ok (pt,s) m' ∧ ProgramFits cfg ∧ Booted exact base r s m' g' ∧
      Initial (space m' g' r) (Eager.pageUp (progLen cfg)) ∧
      (cfg.prog_start+progLen cfg ≤ base → Copied (programByte m.mem cfg.prog_start (progLen cfg)) (space m' g' r)) ∧
      ∀ S : Set Nat, bootPages (progLen cfg) ⊆ S →
        room g'+missing g r S+Eager.pageUp (progLen cfg)+1+KERNEL_STACK_PAGES = room g+missing g' r S := by
  have eight : KERNEL_STACK_PAGES = 8 := rfl
  unfold boot_rest
  dsimp only
  by_cases fits : ProgramFits cfg
  · have accepted : ¬ ¬ USER_CODE_BASE+mask_page (cfg.prog_end-cfg.prog_start+PAGE_SIZE-1) ≤ USER_HEAP_START :=
      not_not.mpr ((programFits_iff cfg).mpr fits)
    rw [if_neg accepted,show cfg.prog_end-cfg.prog_start = progLen cfg from rfl]
    have code : codePages (progLen cfg) ⊆ bootPages (progLen cfg) := fun _ inside => .inl (.inr inside)
    have stack : USER_STACK_PAGE/4096 ∈ bootPages (progLen cfg) := .inr rfl
    rcases load_program_spec pt at_root from_pool cfg.prog_start (progLen cfg) 0 fits rising rfl
      (Nat.zero_le _) (by rw [empty]; exact loaded_none) with ⟨fails,short⟩ | ⟨m1,g1,run1,rising1,loaded1,copied1,paid1⟩
    · refine .inl ⟨?_,.inr fun S wanted => ?_⟩
      · rcases fails with ⟨e,m1,failed⟩ | ⟨m1,ran,broke⟩
        · exact ⟨e,m1,by rw [run_seq_error failed]⟩
        · refine ⟨.panic "no frame for user stack",m1,?_⟩
          rw [run_seq ran,boot_stacks,run_seq broke]
          rfl
      · have := short S (code.trans wanted)
        omega
    · rw [run_seq run1]
      rcases stack_rest_spec pt at_root from_pool rising1 loaded1 fits with ⟨fails,short⟩ |
        ⟨s,m2,g2,run2,booted,initial,copied2,paid2⟩
      · refine .inl ⟨fails,.inr fun S wanted => ?_⟩
        have first := paid1 S (code.trans wanted)
        have second := short S (wanted stack)
        omega
      · refine .inr ⟨s,m2,g2,run2,fits,booted,initial,fun below => copied2 _ (copied1 below ?_),fun S wanted => ?_⟩
        · rw [empty]
          exact fun n p _ found => by cases found
        have first := paid1 S (code.trans wanted)
        have second := paid2 S (wanted stack)
        omega
  · refine .inl ⟨?_,.inl fits⟩
    rw [if_pos (fun fit => fits ((programFits_iff cfg).mp fit))]
    exact ⟨_,_,rfl⟩

end

/-- The number of frames that a boot takes: tables and a root, the program, a stack page and a kernel stack. -/
noncomputable def bootCost (cfg : Config) : Nat :=
  tablesFor (bootPages (progLen cfg))+1+Eager.pageUp (progLen cfg)+1+KERNEL_STACK_PAGES

/-- Where the memory of the kernel image ends. -/
def bootBase (cfg : Config) : Nat := mask_page (cfg.kernel_end+4095)

/-- The frames above the kernel image are enough for a boot. -/
def BootFits (cfg : Config) : Prop :=
  RAM_BASE ≤ bootBase cfg ∧ bootBase cfg ≤ RAM_END ∧ ProgramFits cfg ∧ bootCost cfg ≤ (RAM_END-bootBase cfg)/4096

section
variable {m : Mm}

theorem bootBase_aligned (cfg : Config) : bootBase cfg%4096 = 0 := by
  unfold bootBase mask_page
  omega

/-- A kernel image that does not end in RAM does not boot. -/
theorem boot_memory_outside (cfg : Config) (head : m.free_list_head = 0)
    (outside : ¬ (RAM_BASE ≤ bootBase cfg ∧ bootBase cfg ≤ RAM_END)) : ∃ e m', (boot_memory cfg).run m = .error e m' := by
  rw [boot_memory_eq]
  have init : (frame_init cfg.kernel_end).run m = .ok ⟨⟩ { m with next_frame := bootBase cfg } := rfl
  rw [run_seq init]
  unfold init_kernel alloc_frame
  have total : RAM_BASE+RAM_SIZE = RAM_END := rfl
  by_cases above : RAM_END ≤ bootBase cfg
  · refine ⟨.panic "no frame for root page table",{ m with next_frame := bootBase cfg },?_⟩
    refine run_seq_error (run_seq (a := none) (t := { m with next_frame := bootBase cfg }) ?_ |>.trans rfl)
    rw [run_seq (EStateM.run_get _)]
    simp only [head,ne_eq,not_true_eq_false,if_false]
    rw [run_seq (EStateM.run_get _),if_pos (by rw [total]; exact above)]
    rfl
  · have below : is_managed (bootBase cfg) = false := by
      have : ¬ RAM_BASE ≤ bootBase cfg := fun low => outside ⟨low,by omega⟩
      simp [is_managed,this]
    refine ⟨.panic "frame_index: physical address out of managed RAM",{ m with next_frame := bootBase cfg+4096 },?_⟩
    refine run_seq_error (run_seq_error ?_)
    rw [run_seq (EStateM.run_get _)]
    simp only [head,ne_eq,not_true_eq_false,if_false]
    rw [run_seq (EStateM.run_get _),if_neg (by rw [total]; exact above),run_seq (EStateM.run_modify _ _)]
    refine run_seq_error ?_
    unfold frame_index
    rw [below]
    rfl

theorem boot_memory_spec (exact : Bool) (cfg : Config) (head : m.free_list_head = 0) (counts : m.frame_refs = fun _ => 0)
    (low : RAM_BASE ≤ bootBase cfg) (high : bootBase cfg ≤ RAM_END) :
    ((∃ e m', (boot_memory cfg).run m = .error e m') ∧ ¬ BootFits cfg) ∨
    ∃ r s m' g, (boot_memory cfg).run m = .ok ({ root := r, frame_alloc := alloc_frame },s) m' ∧ ProgramFits cfg ∧
      Booted exact (bootBase cfg) r s m' g ∧ Initial (space m' g r) (Eager.pageUp (progLen cfg)) ∧
      (cfg.prog_start+progLen cfg ≤ bootBase cfg → Copied (programByte m.mem cfg.prog_start (progLen cfg)) (space m' g r)) ∧
      room g+bootCost cfg = (RAM_END-bootBase cfg)/4096+missing g r (bootPages (progLen cfg)) := by
  rw [boot_memory_eq]
  have init : (frame_init cfg.kernel_end).run m = .ok ⟨⟩ { m with next_frame := bootBase cfg } := rfl
  have eight : KERNEL_STACK_PAGES = 8 := rfl
  have ram : ramPages ⊆ bootPages (progLen cfg) := fun _ inside => .inl (.inl (.inl inside))
  have device : devicePage ∈ bootPages (progLen cfg) := .inl (.inl (.inr rfl))
  rw [run_seq init]
  rcases init_kernel_spec (m := { m with next_frame := bootBase cfg }) low high (bootBase_aligned cfg) rfl head counts with
    ⟨full,e,failed⟩ | ⟨r,satp,m1,g1,leaf,run1,building,bound,floor1,paid1,filled⟩
  · refine .inl ⟨⟨e,_,by rw [run_seq_error failed]⟩,?_⟩
    rintro ⟨_,_,_,enough⟩
    unfold bootCost at enough
    omega
  rw [run_seq run1]
  dsimp only
  have cost1 := paid1 _ ram
  rcases filled with filled | full
  · obtain ⟨rising,empty⟩ : Rising exact _ r m1 (freeze 2 g1) ∧ _ := building.rising bound filled
    obtain ⟨res,m2,g2,run2,rising2,empty2,paid2,_⟩ := map_device rising empty { root := r, frame_alloc := alloc_frame } rfl rfl
    have floor2 := Mirrors.map_floor rising.good.mirrors _ rfl rfl rising.root (show pageOf UART0 = devicePage by decide) (by decide) run2
    rw [run_seq run2]
    have cost2 : room g2+missing g1 r (bootPages (progLen cfg)) = room g1+missing g2 r (bootPages (progLen cfg)) := paid2 _ device
    rcases boot_rest_spec (r := r) cfg { root := r, frame_alloc := alloc_frame } rfl rfl rising2 empty2 with ⟨fails,short⟩ |
      ⟨s,m3,g3,run3,fits,booted,initial,copied,paid3⟩
    · refine .inl ⟨fails,?_⟩
      rintro ⟨_,_,fits,enough⟩
      rcases short with tooLong | short
      · exact tooLong fits
      · have := short _ (Set.Subset.refl _)
        unfold bootCost at enough
        omega
    · refine .inr ⟨r,s,m3,g3,run3,fits,booted,initial,fun below => ?_,?_⟩
      · have held := copied below
        rw [programByte_floor (fun a under => (floor2 a under).trans (floor1 a under)) below] at held
        exact held
      have := paid3 _ (Set.Subset.refl _)
      unfold bootCost
      omega
  · obtain ⟨res,m2,g2,run2,_,less,result⟩ := building.map { root := r, frame_alloc := alloc_frame } rfl rfl UART0 UART0 rfl (PTEFlags.new true true false false)
    rw [run_seq run2]
    have mirrors : Mirrors (bootBase cfg) 512 m2 g2 := by
      cases res with
      | false => exact result.1.mirrors
      | true => exact result.mirrors
    refine .inl ⟨boot_rest_broke cfg _ (broke_of mirrors (by omega)),?_⟩
    rintro ⟨_,_,_,enough⟩
    unfold bootCost at enough
    omega

end

/-! ### The first entry into user mode -/

/-- The init process. -/
def initProcess (r s : Nat) : Process where
  pid := 1
  parent_pid := 0
  state := .Running
  page_table := { root := r, frame_alloc := alloc_frame }
  trap_frame := TrapFrame.new_user USER_CODE_BASE 0x3F001000
  kernel_sp := s+KERNEL_STACK_SIZE
  kernel_stack_frame := s
  heap_start := USER_HEAP_START
  heap_end := USER_HEAP_START
  mmap_areas := fun _ => .EMPTY

/-- The machine when init begins. -/
def launched (cfg : Config) (r s : Nat) (m : Mm) : Kernel :=
  let init := initProcess r s
  let new_sp := init.kernel_sp-TrapFrame.SIZE
  trap_exit_restore new_sp { reset cfg with
    mm := { m with mem := storeWords m.mem new_sp init.trap_frame.words }
    process_list := Function.update (fun _ => none) 0 (some init)
    next_pid := 2
    hart := { (reset cfg).hart with satp := init.page_table.satp_val } }

theorem launched_list (cfg : Config) (r s : Nat) (m : Mm) :
    (launched cfg r s m).process_list = Function.update (fun _ => none) 0 (some (initProcess r s)) := rfl

theorem launched_init (cfg : Config) (r s : Nat) (m : Mm) : (launched cfg r s m).process_list 0 = some (initProcess r s) := by
  rw [launched_list,Function.update_self]

theorem launched_only {cfg : Config} {r s : Nat} {m : Mm} {i : Fin MAX_PROCESSES} {p : Process}
    (slot : (launched cfg r s m).process_list i = some p) : i = 0 ∧ p = initProcess r s := by
  rw [launched_list] at slot
  by_cases zero : i = 0
  · subst zero
    rw [Function.update_self,Option.some.injEq] at slot
    exact ⟨rfl,slot.symm⟩
  · rw [Function.update_of_ne zero] at slot
    cases slot

theorem boot_ok {cfg : Config} {r s : Nat} {m : Mm}
    (memory : (boot_memory cfg).run (reset cfg).mm = .ok ({ root := r, frame_alloc := alloc_frame },s) m) :
    boot cfg = .user (launched cfg r s m) := by
  have pid : alloc_pid.run { reset cfg with mm := m } = .ok 1 { reset cfg with mm := m, next_pid := 2 } := rfl
  unfold boot rust_main
  rw [run_seq (onMm_ok memory),run_seq pid,run_seq (EStateM.run_modify _ _),
    run_seq (onMm_ok (TrapFrame.run_write_to_stack _ _ _)),run_raise]
  rfl

theorem boot_error {cfg : Config} {e : Panic} {m : Mm} (memory : (boot_memory cfg).run (reset cfg).mm = .error e m) :
    boot cfg = .halted (.panicked e) { reset cfg with mm := m } := by
  unfold boot rust_main
  rw [run_seq_error (e := .panicked e) (t := { reset cfg with mm := m }) (by rw [run_onMm,memory])]
  rfl

/-- What the boot fixes for good. -/
def origin (cfg : Config) (r s : Nat) (m : Mm) (g : Ledger) : Origin := ⟨bootBase cfg,(launched cfg r s m).mm.mem,g,r⟩

theorem launched_change {exact : Bool} {cfg : Config} {r s : Nat} {m : Mm} {g : Ledger} (booted : Booted exact (bootBase cfg) r s m g) :
    Confined (· = s+7*4096) m.mem (launched cfg r s m).mm.mem := by
  have top : g.own (s+7*4096) = .stack s := (booted.stack _ s).mpr ⟨rfl,7,by decide,rfl⟩
  have aligned := (booted.good.mirrors.pool.managed (f := s+7*4096) (by rw [top]; simp)).1
  have place : (initProcess r s).kernel_sp-TrapFrame.SIZE = s+7*4096+3808 := by
    have size : KERNEL_STACK_SIZE = 8*4096 := rfl
    have frame : TrapFrame.SIZE = 288 := rfl
    simp only [initProcess]
    omega
  have words := confined_words m.mem aligned (initProcess r s).trap_frame
  rw [← place] at words
  exact words

/-- The first entry into user mode changes nothing but the kernel stack of init. -/
theorem launched_bytes {exact : Bool} {cfg : Config} {r s : Nat} {m : Mm} {g : Ledger} (booted : Booted exact (bootBase cfg) r s m g)
    {x i : Nat} (held : g.own x ≠ .none ∧ g.own x ≠ .stack s) (inside : i < 4096) :
    (launched cfg r s m).mm.mem (x+i) = m.mem (x+i) := by
  refine (launched_change booted).byte (booted.good.mirrors.pool.managed held.1).1 inside ?_
  rintro rfl
  exact held.2 ((booted.stack _ s).mpr ⟨rfl,7,by decide,rfl⟩)

theorem launched_user {exact : Bool} {cfg : Config} {r s : Nat} {m : Mm} {g : Ledger} (booted : Booted exact (bootBase cfg) r s m g) :
    InUser exact (origin cfg r s m g) (launched cfg r s m) g ∧
      space (launched cfg r s m).mm g r = space m g r := by
  have top : g.own (s+7*4096) = .stack s := (booted.stack _ s).mpr ⟨rfl,7,by decide,rfl⟩
  have change : Confined (· = s+7*4096) m.mem (launched cfg r s m).mm.mem := launched_change booted
  obtain ⟨good,spaces⟩ := Invariant.write_stack booted.good top change
  have only : ∀ {i p}, (launched cfg r s m).process_list i = some p → i = 0 ∧ p = initProcess r s := launched_only
  have first := launched_init cfg r s m
  have link : Link (launched cfg r s m).process_list g := by
    refine ⟨?_,?_,?_,?_,?_,?_,?_,?_⟩
    · intro i p slot _
      rw [(only slot).2]
      exact booted.root
    · intro i p slot _
      rw [(only slot).2]
      rfl
    · intro i j p q slotP slotQ _ _ _
      rw [(only slotP).1,(only slotQ).1]
    · intro q isRoot
      exact ⟨0,initProcess r s,first,by simp [initProcess],(booted.only q isRoot).symm⟩
    · intro i p slot _ x
      rw [(only slot).2,booted.stack]
      simp [initProcess]
    · intro i j p q slotP slotQ _ _ _
      rw [(only slotP).1,(only slotQ).1]
    · intro x b here
      exact ⟨0,initProcess r s,first,by simp [initProcess],((booted.stack x b).mp here).1.symm⟩
    · intro i p slot _
      rw [(only slot).2]
      rfl
  have half : Half (origin cfg r s m g) (launched cfg r s m).mm g := by
    refine ⟨fun _ => Iff.rfl,fun _ _ _ _ => rfl,?_,?_⟩
    · intro q v isRoot _
      rw [booted.only q isRoot]
      rfl
    · intro q n isRoot _
      rw [booted.only q isRoot]
      rfl
  have alignedR := booted.good.mirrors.tables.aligned r booted.root
  have boundR := booted.good.sound.roots r booted.root
  refine ⟨⟨⟨good,link,?_,half,?_⟩,?_,?_⟩,spaces r booted.root⟩
  · intro _ i p code slot dead
    rw [(only slot).2] at dead
    cases dead
  · intro i p slot
    rw [(only slot).2]
    exact ⟨rfl,by simp only [initProcess]; decide⟩
  · intro me slot
    rw [(only slot).2]
    have aligned : ({ root := r, frame_alloc := alloc_frame } : PageTable).root%4096 = 0 := alignedR
    refine root_of_satp aligned ?_
    have : RAM_END = 0x88000000 := rfl
    exact lt_of_lt_of_le boundR (by rw [this]; decide)
  · intro me slot
    have size : KERNEL_STACK_SIZE = 8*4096 := rfl
    have frame : TrapFrame.SIZE = 288 := rfl
    rw [(only slot).2]
    show (initProcess r s).kernel_sp-TrapFrame.SIZE+TrapFrame.SIZE = (initProcess r s).kernel_sp
    simp only [initProcess]
    omega

/-- A machine that came up: init alone, with its program and a stack page. -/
structure Launch (exact : Bool) (cfg : Config) (r s : Nat) (m : Mm) (g : Ledger) : Prop where
  fits : ProgramFits cfg
  low : RAM_BASE ≤ bootBase cfg
  high : bootBase cfg ≤ RAM_END
  booted : Booted exact (bootBase cfg) r s m g
  user : InUser exact (origin cfg r s m g) (launched cfg r s m) g
  initial : Initial (space (launched cfg r s m).mm g r) (Eager.pageUp (progLen cfg))
  program : cfg.prog_start+progLen cfg ≤ bootBase cfg →
    Copied (programByte (reset cfg).mm.mem cfg.prog_start (progLen cfg)) (space (launched cfg r s m).mm g r)
  paid : room g+bootCost cfg = (RAM_END-bootBase cfg)/4096+missing g r (bootPages (progLen cfg))

/-- A boot ends in user mode with the memory of init, or panics for want of memory. -/
theorem boot_cases (exact : Bool) (cfg : Config) :
    (¬ BootFits cfg ∧ ∃ e k, boot cfg = .halted (.panicked e) k) ∨
    ∃ r s m g, boot cfg = .user (launched cfg r s m) ∧ Launch exact cfg r s m g := by
  by_cases inside : RAM_BASE ≤ bootBase cfg ∧ bootBase cfg ≤ RAM_END
  · rcases boot_memory_spec exact cfg (m := (reset cfg).mm) rfl rfl inside.1 inside.2 with ⟨⟨e,m,failed⟩,short⟩ |
      ⟨r,s,m,g,run,fits,booted,initial,copied,paid⟩
    · exact .inl ⟨short,e,_,boot_error failed⟩
    · obtain ⟨user,same⟩ := launched_user booted
      exact .inr ⟨r,s,m,g,boot_ok run,fits,inside.1,inside.2,booted,user,by rw [same]; exact initial,
        by rw [same]; exact copied,paid⟩
  · obtain ⟨e,m,failed⟩ := boot_memory_outside cfg (m := (reset cfg).mm) rfl inside
    exact .inl ⟨fun fits => inside ⟨fits.1,fits.2.1⟩,e,_,boot_error failed⟩

theorem boot_launch (exact : Bool) {cfg : Config} {k : Kernel} (run : boot cfg = .user k) :
    ∃ r s m g, k = launched cfg r s m ∧ Launch exact cfg r s m g := by
  rcases boot_cases exact cfg with ⟨_,e,k',failed⟩ | ⟨r,s,m,g,ran,launch⟩
  · rw [failed] at run
    cases run
  · rw [ran] at run
    exact ⟨r,s,m,g,(Outcome.user.inj run).symm,launch⟩

/-- With enough memory the machine comes up. -/
theorem boot_succeeds {cfg : Config} (fits : BootFits cfg) : ∃ k, boot cfg = .user k := by
  rcases boot_cases true cfg with ⟨short,_⟩ | ⟨r,s,m,g,ran,_⟩
  · exact absurd fits short
  · exact ⟨_,ran⟩

/-! ### A machine that comes up -/

theorem lacking_le {bound : Nat} {wanted : Nat → Prop} {table : Nat → Option Nat} {s : Finset Nat}
    (inside : ∀ v, v < bound → wanted v → v ∈ s) : lacking bound wanted table ≤ s.card := by
  classical
  unfold lacking
  refine Finset.card_le_card fun v => ?_
  simp only [Finset.mem_filter,Finset.mem_range]
  rintro ⟨low,want,_⟩
  exact inside v low want

theorem tablesFor_boot {prog_len : Nat} (fits : USER_CODE_BASE/4096+Eager.pageUp prog_len ≤ USER_HEAP_START/4096) :
    tablesFor (bootPages prog_len) ≤ 69 := by
  have ram : RAM_END = 0x88000000 := rfl
  have start : RAM_BASE = 0x80000000 := rfl
  have code : USER_CODE_BASE = 0x10000 := rfl
  have heap : USER_HEAP_START = 0x20000 := rfl
  have top : USER_STACK_PAGE = 0x3F000000 := rfl
  have device : devicePage = 0x10000 := rfl
  have places : ∀ n, n ∈ bootPages prog_len →
      (n/512/512 = 0 ∧ (n/512 = 0 ∨ n/512 = 128 ∨ n/512 = 504)) ∨ (n/512/512 = 2 ∧ 1024 ≤ n/512 ∧ n/512 < 1088) := by
    rintro n (((⟨low,high⟩ | rfl) | ⟨low,high⟩) | rfl) <;> omega
  have upper : lacking 512 (fun v => ∃ n ∈ bootPages prog_len, n/512/512 = v) (fun _ => none) ≤ ({0,2} : Finset Nat).card := by
    refine lacking_le ?_
    rintro v _ ⟨n,inside,rfl⟩
    have := places n inside
    simp only [Finset.mem_insert,Finset.mem_singleton]
    omega
  have lower : lacking (2^18) (fun i => ∃ n ∈ bootPages prog_len, n/512 = i) (fun _ => none) ≤
      ({0,128,504} ∪ Finset.Ico 1024 1088 : Finset Nat).card := by
    refine lacking_le ?_
    rintro v _ ⟨n,inside,rfl⟩
    have := places n inside
    simp only [Finset.mem_union,Finset.mem_insert,Finset.mem_singleton,Finset.mem_Ico]
    omega
  have few : ({0,128,504} ∪ Finset.Ico 1024 1088 : Finset Nat).card ≤ 67 :=
    (Finset.card_union_le _ _).trans (by rw [Nat.card_Ico]; decide)
  have two : ({0,2} : Finset Nat).card = 2 := by decide
  unfold tablesFor
  omega

/-- A machine with a small kernel and a short program. -/
def sample (reserved_fault : Bool) : Config where
  kernel_end := 0x80100000
  prog_start := 0x80010000
  prog_end := 0x80010100
  mem := fun _ => 0
  input := fun _ => 0
  reserved_fault

theorem sample_fits (reserved_fault : Bool) : BootFits (sample reserved_fault) := by
  have base : bootBase (sample reserved_fault) = 0x80100000 := by decide +revert
  have len : Eager.pageUp (progLen (sample reserved_fault)) = 1 := by decide +revert
  have fits : ProgramFits (sample reserved_fault) := by
    unfold ProgramFits
    rw [len]
    decide
  have tables := tablesFor_boot fits
  refine ⟨by rw [base]; decide,by rw [base]; decide,fits,?_⟩
  have eight : KERNEL_STACK_PAGES = 8 := rfl
  have ram : RAM_END = 0x88000000 := rfl
  unfold bootCost
  rw [base,len]
  omega

end Unit00.Boot
