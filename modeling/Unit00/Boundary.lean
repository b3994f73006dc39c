import Unit00.Deaths

/-!
The boundary between the kernel and the memory of its caller. `ensure_user_range`
decides exactly which ranges a process may read or write, and no process sees
that it ran. The hart agrees only for canonical addresses. `sys_wait` makes no
such check, and stores its status word where it should for some pointers only.
-/
namespace Unit00.Boundary
open Unit00.Memory Unit00.Execution Unit00.Frame Unit00.Paging Unit00.Paging.PTEntry Unit00.Trees Unit00.Ownership
open Unit00.Mirror Unit00.Space Unit00.Pages Unit00.Ranges Unit00.Access Unit00.Mmu Unit00.Invariant
open Unit00.Task Unit00.Scheduler Unit00.Syscall Unit00.Machine Unit00.Steps Unit00.Services Unit00.Traps Unit00.View
open Unit00.Boot Unit00.Runs Unit00.Isolation Unit00.Progress Unit00.Stages Unit00.Deaths
open Unit00.Eager (Page Pages Writable)

/-! ### Overflow -/

/-- The loop of `ensure_user_range` with the overflow check of `page += 4096`. -/
def ensure_user_pages_checked (pt : PageTable) (last page : Nat) (write : Bool) : M (Except Nat Unit) := do
  match ← ensure_user_page pt page write with
  | .error e => return .error e
  | .ok () =>
    if done : page ≥ mask_page last then return .ok ()
    else if page+4096 < 2^64 then ensure_user_pages_checked pt last (page+4096) write
    else throw (.panic "attempt to add with overflow")
termination_by mask_page last-page
decreasing_by omega

/-- `ensure_user_range` with the overflow check of its loop. -/
def ensure_user_range_checked (pt : PageTable) (ptr len : Nat) (write : Bool) : M (Except Nat Unit) := do
  if len = 0 then return .ok ()
  if ptr = 0 then return .error (linux_error EFAULT)
  match checked_add ptr (len-1) with
  | none => return .error (linux_error EFAULT)
  | some last => ensure_user_pages_checked pt last (mask_page ptr) write

theorem pages_checked {last : Nat} (bound : last < 2^64) (pt : PageTable) (page : Nat) (write : Bool) :
    ensure_user_pages_checked pt last page write = ensure_user_pages pt last page write := by
  have floor : mask_page last%4096 = 0 ∧ mask_page last ≤ last := by
    simp only [mask_page]
    omega
  induction page using Nat.strongRecMeasure (fun page => mask_page last-page) with
  | ind page ih =>
    unfold ensure_user_pages_checked ensure_user_pages
    refine bind_congr fun res => ?_
    cases res with
    | error e => rfl
    | ok _ =>
      dsimp only
      by_cases done : page ≥ mask_page last
      · rw [dif_pos done,dif_pos done]
      · rw [dif_neg done,dif_neg done,if_pos (by omega)]
        exact ih (page+4096) (by omega)

/-- The additions of `ensure_user_range` never overflow. -/
theorem range_checked (pt : PageTable) (ptr len : Nat) (write : Bool) :
    ensure_user_range_checked pt ptr len write = ensure_user_range pt ptr len write := by
  unfold ensure_user_range_checked ensure_user_range
  cases added : checked_add ptr (len-1) with
  | none => rfl
  | some last =>
    dsimp only
    rw [pages_checked (checked_add_some added).2]

/-! ### The ranges that are accepted -/

/-- The leaf of a page allows the kernel to read it, or to write it when a page that is copied on write counts. -/
def Grants (write : Bool) (e : PTEntry) : Prop :=
  match write with
  | true => is_w e = true ∨ (is_cow e = true ∧ is_r e = true)
  | false => is_r e = true

/-- The ranges that a process may have read or written for it. -/
def Accepts (m : Mm) (pt : PageTable) (ptr len : Nat) (write : Bool) : Prop :=
  len = 0 ∨ (ptr ≠ 0 ∧ ptr+(len-1) < 2^64 ∧
    ∀ n, ptr/4096 ≤ n → n ≤ (ptr+(len-1))/4096 → ∃ e, userLeaf m pt (n*4096) = some e ∧ Grants write e)

/-- The pages of a range that are copied when it is made writable: copied on write, from a frame that others hold. -/
def sharedPages (m : Mm) (pt : PageTable) (ptr len : Nat) : Set Nat :=
  { n | ∃ j e, ptr/4096 ≤ j ∧ j ≤ (ptr+(len-1))/4096 ∧ pageOf (j*4096) = n ∧ userLeaf m pt (j*4096) = some e ∧
    is_cow e = true ∧ 1 < (refsOf m (ppn_to_addr e)).toNat }

/-- There is a free frame for every copy. -/
def EnoughFrames (m : Mm) (pt : PageTable) (ptr len : Nat) (write : Bool) : Prop :=
  write = true → len ≠ 0 → (sharedPages m pt ptr len).ncard ≤ freeFrames m

/-- A range inside one page needs one frame. -/
theorem enough_one {m : Mm} {pt : PageTable} {ptr len : Nat} (write : Bool) (single : ptr/4096 = (ptr+(len-1))/4096)
    (some_frame : 0 < freeFrames m) : EnoughFrames m pt ptr len write := by
  intro _ _
  have alone : sharedPages m pt ptr len ⊆ {pageOf (ptr/4096*4096)} := by
    rintro n ⟨j,_,low,high,rfl,_⟩
    obtain rfl : j = ptr/4096 := by omega
    rfl
  have few := Set.ncard_le_ncard alone (Set.finite_singleton _)
  rw [Set.ncard_singleton] at few
  omega

theorem pageOf_floor (va : Nat) : pageOf (va/4096*4096) = pageOf va := by
  unfold pageOf
  rw [Nat.mul_div_cancel _ (by decide)]

/-- The leaf of a page grants an access. -/
def Lets (g : Ledger) (r : Nat) (write : Bool) (n : Nat) : Prop := ∃ e, UserLeaf g r n e ∧ Grants write e

section
variable {exact : Bool} {base : Nat} {m : Mm} {g : Ledger} (good : Good exact base m g) (pt : PageTable)
  (isRoot : g.own pt.root = .root)

include good isRoot

theorem lets_write {n : Nat} : Lets g pt.root true n ↔ ∃ p, space m g pt.root n = some p ∧ p.writable = true := by
  constructor
  · rintro ⟨e,leaf,grants⟩
    rw [space_low (good.sound.low leaf),leaf.entry,pageAt_user leaf.valid leaf.user]
    refine ⟨_,rfl,?_⟩
    rcases grants with w | ⟨cow,_⟩
    · simp [w]
    · simp [cow]
  · rintro ⟨p,here,writable⟩
    obtain ⟨leaf,marks⟩ := space_writable isRoot here writable
    refine ⟨_,leaf,?_⟩
    rw [Bool.or_eq_true] at marks
    exact marks.imp_right fun cow => ⟨cow,((good.sound.shape leaf).cow cow).1⟩

theorem accepts_iff (ptr len : Nat) (write : Bool) :
    Accepts m pt ptr len write ↔ len = 0 ∨ (ptr ≠ 0 ∧ ptr+(len-1) < 2^64 ∧
      ∀ va, mask_page ptr ≤ va → va ≤ ptr+(len-1) → Lets g pt.root write (pageOf va)) := by
  refine or_congr Iff.rfl (and_congr Iff.rfl (and_congr Iff.rfl ?_))
  constructor
  · intro all va low high
    have floor : mask_page ptr = ptr/4096*4096 := rfl
    obtain ⟨e,found,grants⟩ := all (va/4096) (by omega) (by omega)
    rw [userLeaf_iff good pt isRoot,pageOf_floor] at found
    exact ⟨e,found,grants⟩
  · intro all n low high
    have floor : mask_page ptr = ptr/4096*4096 := rfl
    by_cases first : n = ptr/4096
    · obtain ⟨e,leaf,grants⟩ := all ptr (by omega) (by omega)
      refine ⟨e,(userLeaf_iff good pt isRoot).mpr ?_,grants⟩
      rw [first,pageOf_floor]
      exact leaf
    · obtain ⟨e,leaf,grants⟩ := all (n*4096) (by omega) (by omega)
      exact ⟨e,(userLeaf_iff good pt isRoot).mpr leaf,grants⟩

omit isRoot in
theorem refs_toNat {n : Nat} {e : PTEntry} (leaf : UserLeaf g pt.root n e) :
    (refsOf m (ppn_to_addr e)).toNat = g.refs (ppn_to_addr e) := by
  have held : g.own (ppn_to_addr e) ≠ .none := by rw [good.sound.user leaf]; simp
  have small := good.mirrors.pool.small _ held
  rw [refsOf,good.mirrors.pool.refs _ held,BitVec.toNat_ofNat]
  exact Nat.mod_eq_of_lt small

theorem sharedPages_eq (ptr len : Nat) :
    sharedPages m pt ptr len = copies g pt.root (mask_page ptr) (ptr+(len-1)) := by
  have floor : mask_page ptr = ptr/4096*4096 := rfl
  ext n
  constructor
  · rintro ⟨j,e,low,high,page,found,cow,many⟩
    have leaf := (userLeaf_iff good pt isRoot).mp found
    rw [refs_toNat good pt leaf] at many
    rw [page] at leaf
    exact ⟨⟨e,leaf,cow,many⟩,j*4096,by omega,by omega,page⟩
  · rintro ⟨⟨e,leaf,cow,many⟩,va,low,high,page⟩
    rw [← refs_toNat good pt leaf] at many
    rw [← page,← pageOf_floor va] at leaf
    exact ⟨va/4096,e,by omega,by omega,(pageOf_floor va).trans page,(userLeaf_iff good pt isRoot).mpr leaf,cow,many⟩

theorem enough_iff (ptr len : Nat) :
    EnoughFrames m pt ptr len true ↔ (len ≠ 0 → (copies g pt.root (mask_page ptr) (ptr+(len-1))).ncard ≤ room g) := by
  unfold EnoughFrames
  rw [sharedPages_eq good pt isRoot,freeFrames_eq good.mirrors.pool]
  simp

/-! ### Reading -/

theorem ensure_user_page_reads (va : Nat) :
    ∃ res, (ensure_user_page pt va false).run m = .ok res m ∧ (res = .ok () ↔ Lets g pt.root false (pageOf va)) := by
  have inside := pageOf_lt va
  unfold ensure_user_page
  rw [run_seq (good.lookup pt isRoot va)]
  cases slot : leafSlot (g.tree pt.root) (pageOf va) with
  | none =>
    refine ⟨.error (linux_error EFAULT),rfl,by simp,?_⟩
    rintro ⟨e,leaf,_⟩
    obtain ⟨entry,found⟩ := UserLeaf.slot good.mirrors leaf
    rw [slot] at found
    cases found
  | some entry =>
    have word := load_slot good.mirrors isRoot inside slot
    dsimp only
    rw [run_seq (run_read _ _),word]
    by_cases user : is_u ((g.tree pt.root).leaf (pageOf va)) = true
    · obtain ⟨_,leaf⟩ := user_leaf_of good isRoot inside user
      rw [if_neg (by simp [user]),if_neg (by simp),run_seq (run_read _ _),word]
      by_cases readable : is_r ((g.tree pt.root).leaf (pageOf va)) = true
      · rw [if_neg (by simp [readable])]
        exact ⟨.ok (),rfl,fun _ => ⟨_,leaf,readable⟩,fun _ => rfl⟩
      · rw [if_pos (by simp [readable])]
        refine ⟨.error (linux_error EFAULT),rfl,by simp,?_⟩
        rintro ⟨e,other,grants⟩
        rw [other.unique leaf] at grants
        exact absurd grants readable
    · rw [if_pos (by simp [user])]
      refine ⟨.error (linux_error EFAULT),rfl,by simp,?_⟩
      rintro ⟨e,leaf,_⟩
      rw [leaf.entry] at user
      exact absurd leaf.user user

theorem ensure_user_pages_reads {last page : Nat} (aligned : page%4096 = 0) (order : page ≤ mask_page last) :
    ∃ res, (ensure_user_pages pt last page false).run m = .ok res m ∧
      (res = .ok () ↔ ∀ va, page ≤ va → va ≤ last → Lets g pt.root false (pageOf va)) := by
  have below : mask_page last ≤ last ∧ last < mask_page last+4096 ∧ mask_page last%4096 = 0 := by
    simp only [mask_page]
    omega
  induction page using Nat.strongRecMeasure (fun page => mask_page last-page) with
  | ind page ih =>
    obtain ⟨res,run,decides⟩ := ensure_user_page_reads good pt isRoot page
    unfold ensure_user_pages
    rw [run_seq run]
    cases res with
    | error e =>
      refine ⟨.error e,rfl,by simp,fun all => ?_⟩
      exact absurd (decides.mpr (all page (le_refl _) (by omega))) (by simp)
    | ok _ =>
      have first := decides.mp rfl
      dsimp only
      by_cases done : page ≥ mask_page last
      · rw [dif_pos done]
        refine ⟨.ok (),rfl,fun _ va low high => ?_,fun _ => rfl⟩
        rw [pageOf_same aligned low (by omega)]
        exact first
      · rw [dif_neg done]
        obtain ⟨res,run',rest⟩ := ih (page+4096) (by omega) (by omega) (by omega)
        refine ⟨res,run',rest.trans ⟨fun all va low high => ?_,fun all va low high => all va (by omega) high⟩⟩
        by_cases here : va < page+4096
        · rw [pageOf_same aligned low here]
          exact first
        · exact all va (by omega) high

/-! ### Both -/

/-- What `ensure_user_range` does: it panics only for want of frames, it decides as it should, and what it
    made writable was paid for. -/
theorem range_cases (ptr len : Nat) (write : Bool) :
    (¬ EnoughFrames m pt ptr len write ∧ ∃ e m', (ensure_user_range pt ptr len write).run m = .error e m') ∨
    ∃ res m' g', (ensure_user_range pt ptr len write).run m = .ok res m' ∧ Checks exact base pt.root m m' g g' ∧
      (res = .ok () ↔ Accepts m pt ptr len write) ∧ (write = false → m' = m ∧ g' = g) ∧
      (res = .ok () → EnoughFrames m pt ptr len write ∧ (write = true → len ≠ 0 →
        ∀ va, mask_page ptr ≤ va → va ≤ ptr+(len-1) → Writes g' pt.root (pageOf va))) := by
  by_cases empty : len = 0
  · refine .inr ⟨.ok (),m,g,?_,Checks.refl good,⟨fun _ => .inl empty,fun _ => rfl⟩,fun _ => ⟨rfl,rfl⟩,
      fun _ => ⟨fun _ some_bytes => absurd empty some_bytes,fun _ some_bytes => absurd empty some_bytes⟩⟩
    unfold ensure_user_range
    rw [if_pos empty]
    rfl
  rw [accepts_iff good pt isRoot]
  cases write with
  | true =>
    rw [enough_iff good pt isRoot]
    have writable : Writable (space m g pt.root) ptr len ↔ (len = 0 ∨ (ptr ≠ 0 ∧ ptr+(len-1) < 2^64 ∧
        ∀ va, mask_page ptr ≤ va → va ≤ ptr+(len-1) → Lets g pt.root true (pageOf va))) := by
      simp only [empty,false_or,lets_write good pt isRoot]
      rfl
    rw [← writable]
    rcases ensure_user_range_write pt good isRoot ptr empty with ⟨less,m',failed⟩ | ⟨res,m',g',run,checks,result⟩
    · exact .inl ⟨fun enough => absurd (enough empty) (by omega),_,m',failed⟩
    · refine .inr ⟨res,m',g',run,checks,?_,by simp,?_⟩
      · cases res with
        | error e => exact ⟨by simp,fun here => absurd here result⟩
        | ok _ => exact ⟨fun _ => result.1.1,fun _ => rfl⟩
      · rintro rfl
        exact ⟨fun _ => result.1.2,fun _ _ => result.2⟩
  | false =>
    have enough : EnoughFrames m pt ptr len false := fun other => by cases other
    right
    unfold ensure_user_range
    rw [if_neg empty]
    by_cases null : ptr = 0
    · rw [if_pos null]
      refine ⟨.error (linux_error EFAULT),m,g,rfl,Checks.refl good,by simp [null,empty],fun _ => ⟨rfl,rfl⟩,by simp⟩
    rw [if_neg null]
    cases added : checked_add ptr (len-1) with
    | none =>
      refine ⟨.error (linux_error EFAULT),m,g,rfl,Checks.refl good,⟨by simp,?_⟩,fun _ => ⟨rfl,rfl⟩,by simp⟩
      rintro (zero | ⟨_,bound,_⟩)
      · exact absurd zero empty
      · rw [checked_add,if_pos bound] at added
        cases added
    | some last =>
      obtain ⟨sum,bound⟩ := checked_add_some added
      obtain ⟨res,run,decides⟩ := ensure_user_pages_reads good pt isRoot
        (show mask_page ptr%4096 = 0 by simp only [mask_page]; omega)
        (show mask_page ptr ≤ mask_page last by simp only [mask_page]; omega)
      refine ⟨res,m,g,run,Checks.refl good,?_,fun _ => ⟨rfl,rfl⟩,fun _ => ⟨enough,by simp⟩⟩
      rw [decides,sum]
      exact ⟨fun all => .inr ⟨null,bound,all⟩,fun either => (either.resolve_left empty).2.2⟩

end

/-! ### What a call decides -/

/-- The answer of `ensure_user_range` for the process in slot `i`: it is the right one, the pages that were made writable
    are mapped by nobody else, and no process sees a change. -/
structure Decided (k : Kernel) (i : Fin MAX_PROCESSES) (me : Process) (ptr len : Nat) (write : Bool) (res : Except Nat Unit)
    (m' : Mm) : Prop where
  result : res = .ok () ↔ Accepts k.mm me.page_table ptr len write
  writable : res = .ok () → write = true → len ≠ 0 → ∀ n, ptr/4096 ≤ n → n ≤ (ptr+(len-1))/4096 →
    ∃ e, userLeaf m' me.page_table (n*4096) = some e ∧ is_w e = true ∧
      ∀ j q va d, k.process_list j = some q → q.state ≠ .Gone → userLeaf m' q.page_table va = some d →
        ppn_to_addr d = ppn_to_addr e → j = i ∧ pageOf va = pageOf (n*4096)
  unseen : ∀ j q, k.process_list j = some q → q.state ≠ .Gone →
    pagesOf m' q.page_table = pagesOf k.mm q.page_table ∧ ∀ va, byteOf m' q.page_table va = byteOf k.mm q.page_table va

/-- Checking pages is not seen. -/
theorem Checks.unseen {exact : Bool} {base r : Nat} {m m' : Mm} {g g' : Ledger} (checks : Checks exact base r m m' g g')
    (good : Good exact base m g) (pt : PageTable) (isRoot : g.own pt.root = .root) :
    pagesOf m' pt = pagesOf m pt ∧ ∀ va, byteOf m' pt va = byteOf m pt va := by
  have isRoot' := (checks.acts.aside.roots _).mpr isRoot
  have same : pagesOf m' pt = pagesOf m pt := by
    rw [pagesOf_eq checks.acts.good pt isRoot',pagesOf_eq good pt isRoot]
    exact (checks.acts.aside.unseen checks.acts.pages (pt.root+1)).spaces pt.root (by omega) isRoot
  refine ⟨same,fun va => ?_⟩
  rw [byteOf_pages checks.acts.good pt isRoot',byteOf_pages good pt isRoot,same]

/-- With a frame for every copy, `ensure_user_range` ends without overflow, accepts the ranges that it should, makes
    them writable for its caller alone, and changes nothing that a process can see. -/
theorem ensure_user_range_decides {exact : Bool} {base : Nat} {k : Kernel} {g : Ledger} (good : Good exact base k.mm g)
    (link : Link k.process_list g) {i : Fin MAX_PROCESSES} {me : Process} (slot : k.process_list i = some me)
    (there : me.state ≠ .Gone) (ptr len : Nat) (write : Bool) (enough : EnoughFrames k.mm me.page_table ptr len write) :
    ∃ res m', (ensure_user_range_checked me.page_table ptr len write).run k.mm = .ok res m' ∧
      (ensure_user_range me.page_table ptr len write).run k.mm = .ok res m' ∧ Decided k i me ptr len write res m' := by
  have isRoot := link.root slot there
  rcases range_cases good me.page_table isRoot ptr len write with ⟨short,_⟩ | ⟨res,m',g',run,checks,decides,_,paid⟩
  · exact absurd enough short
  refine ⟨res,m',by rw [range_checked]; exact run,run,decides,?_,?_⟩
  · intro done writes some_bytes n low high
    have floor : mask_page ptr = ptr/4096*4096 := rfl
    obtain ⟨e,leaf,w⟩ := (paid done).2 writes some_bytes (n*4096) (by omega) (by omega)
    have good' := checks.acts.good
    have roots := checks.acts.aside.roots
    refine ⟨e,(userLeaf_iff good' _ leaf.root).mpr leaf,w,?_⟩
    intro j q va d slotQ thereQ found same
    have other := (userLeaf_iff good' q.page_table ((roots _).mpr (link.root slotQ thereQ))).mp found
    have mine := good'.sound.alone leaf other same.symm w
    exact ⟨link.own_root slotQ slot thereQ there mine,good'.sound.page other leaf same⟩
  · intro j q slotQ thereQ
    exact Checks.unseen checks good q.page_table (link.root slotQ thereQ)

/-! ### What the hart makes of an accepted range -/

/-- The kernel may use an address for its caller: it is canonical, its page is mapped for the user with the permission
    that is asked for, and the access does not trap in supervisor mode. -/
structure Reaches (k : Kernel) (pt : PageTable) (write : Bool) (a : Nat) : Prop where
  canonical : Mmu.canonical a = true
  mapped : ∃ e, userLeaf k.mm pt a = some e ∧ (if write then is_w e else is_r e) = true
  translates : (translate k.hart k.mm.mem .supervisor (if write then .store else .load) a).isSome = true

/-- Every byte of a range that `ensure_user_range` accepts can be used. -/
def RangeAccessible (k : Kernel) (pt : PageTable) (ptr len : Nat) (write : Bool) : Prop :=
  ∀ k', (ensure_range ptr len write).run k = .ok (.ok ()) k' → ∀ a, ptr ≤ a → a < ptr+len → Reaches k' pt write a

/-- The addresses of a range are canonical, and a hart that faults on reserved bits is not asked to load from a page
    that is copied on write. -/
def HartReaches (k : Kernel) (pt : PageTable) (ptr len : Nat) (write : Bool) : Prop :=
  ∀ a, ptr ≤ a → a < ptr+len → canonical a = true ∧
    (write = false → k.hart.reserved_fault = true → ∀ e, userLeaf k.mm pt a = some e → is_cow e = false)

section
variable {exact : Bool} {base : Nat} {k : Kernel} {g : Ledger} {me : Process} (good : Good exact base k.mm g)
  (running : k.process_list k.current = some me) (isRoot : g.own me.page_table.root = .root)
  (home : root_of k.hart.satp = me.page_table.root)

include running

theorem run_ensure_range {ptr len : Nat} {write : Bool} {res : Except Nat Unit} {m' : Mm}
    (run : (ensure_user_range me.page_table ptr len write).run k.mm = .ok res m') :
    (ensure_range ptr len write).run k = .ok res { k with mm := m' } := by
  unfold ensure_range
  rw [run_seq (run_current running)]
  exact onMm_ok run

include good isRoot home

theorem range_accessible (ptr len : Nat) (write : Bool) :
    RangeAccessible k me.page_table ptr len write ↔
      (Accepts k.mm me.page_table ptr len write → EnoughFrames k.mm me.page_table ptr len write →
        HartReaches k me.page_table ptr len write) := by
  have cases := range_cases good me.page_table isRoot ptr len write
  constructor
  · intro accessible accepts enough
    rcases cases with ⟨short,_⟩ | ⟨res,m',g',run,checks,decides,silent,_⟩
    · exact absurd enough short
    have done := decides.mpr accepts
    subst done
    intro a low high
    have reaches := accessible _ (run_ensure_range running run) a low high
    refine ⟨reaches.canonical,?_⟩
    rintro rfl strict e found
    obtain ⟨rfl,rfl⟩ := silent rfl
    have leaf := (userLeaf_iff good _ isRoot).mp found
    have translates := reaches.translates
    rw [translate_leaf good home leaf,strict] at translates
    by_contra cow
    simp [cow] at translates
  · intro reaches k' run a low high
    rcases cases with ⟨_,e,m',failed⟩ | ⟨res,m',g',ran,checks,decides,silent,paid⟩
    · unfold ensure_range at run
      rw [run_seq (run_current running),run_onMm,failed] at run
      cases run
    rw [run_ensure_range running ran] at run
    cases run
    have accepts := decides.mp rfl
    obtain ⟨canon,clear⟩ := reaches accepts (paid rfl).1 a low high
    have good' := checks.acts.good
    have some_bytes : len ≠ 0 := by omega
    have floor : mask_page ptr ≤ ptr := by simp only [mask_page]; omega
    cases write with
    | true =>
      obtain ⟨e,leaf,w⟩ := (paid rfl).2 rfl some_bytes a (by omega) (by omega)
      have plain : is_cow e = false := by
        by_contra cow
        rw [Bool.not_eq_false] at cow
        rw [((good'.sound.shape leaf).cow cow).2] at w
        cases w
      refine ⟨canon,⟨e,(userLeaf_iff good' _ leaf.root).mpr leaf,w⟩,?_⟩
      rw [translate_leaf good' home leaf]
      simp [canon,plain,permits,w]
    | false =>
      obtain ⟨rfl,rfl⟩ := silent rfl
      have lets := ((accepts_iff good me.page_table isRoot ptr len false).mp accepts).resolve_left some_bytes
      obtain ⟨e,leaf,readable⟩ := lets.2.2 a (by omega) (by omega)
      have found := (userLeaf_iff good _ isRoot).mpr leaf
      refine ⟨canon,⟨e,found,readable⟩,?_⟩
      have r : is_r e = true := readable
      rw [translate_leaf good home leaf]
      cases strict : k.hart.reserved_fault with
      | false => simp [canon,permits,r]
      | true => simp [canon,permits,r,clear rfl strict e found]

end

/-- The bytes of an accepted range are accessible exactly when its addresses are canonical and a strict hart finds no page
    to read that is copied on write. -/
theorem range_accessible_iff {cfg : Config} {k : Kernel} {me : Process} (reached : Reachable cfg WaitsWell k)
    (running : runner k = some me) (ctx : Context) (ptr len : Nat) (write : Bool) :
    RangeAccessible (entered ctx 8 0 k me) me.page_table ptr len write ↔
      (Accepts (entered ctx 8 0 k me).mm me.page_table ptr len write →
        EnoughFrames (entered ctx 8 0 k me).mm me.page_table ptr len write →
          HartReaches (entered ctx 8 0 k me) me.page_table ptr len write) := by
  obtain ⟨r,s,m,g0,g,_,_,user⟩ := reachable_user false (fun _ _ waits => ⟨waits,by simp⟩) reached
  obtain ⟨me',slot,awake⟩ := reachable_awake reached
  have same : some me' = some me := slot.symm.trans running
  cases same
  obtain ⟨inv,home,slot',_,_⟩ := entered_inv user running awake ctx 8 0
  have there : me.state ≠ .Gone := by rw [awake]; simp
  exact range_accessible inv.good slot' (inv.link.root slot' there) (home _ slot') ptr len write

/-! ### The loops over a range -/

/-- Every round of a loop stores one byte for the caller, the next one from `va` on. -/
def StoresBytes (body : Nat → K PUnit) (va : Nat) : Prop :=
  ∀ i s, ∃ value s1, s1.mm = s.mm ∧ s1.hart = s.hart ∧ (body i).run s = (user_store (va+i) value).run s1

/-- The loop of `sys_read`. -/
def read_loop (buf len : Nat) : K PUnit :=
  forM (List.range' 0 len) fun i => do
    let c ← read_char
    user_store (buf+i) c

/-- The loop of `sys_write`. -/
def write_loop (buf len : Nat) : K PUnit :=
  forM (List.range' 0 len) fun i => do
    let c ← user_load (buf+i)
    putchar c

theorem read_loop_stores (buf : Nat) : StoresBytes (fun i => do
    let c ← read_char
    user_store (buf+i) c) buf :=
  fun _ s => ⟨s.input 0,{ s with input := fun n => s.input (n+1) },rfl,rfl,rfl⟩

theorem user_write_loop_stores (va : Nat) (bytes : List (BitVec 8)) :
    StoresBytes (fun i => user_store (va+i) (bytes.getD i 0)) va := fun i s => ⟨bytes.getD i 0,s,rfl,rfl,rfl⟩

/-- A loop of stores that ends has met canonical addresses only. -/
theorem store_loop_canonical {body : Nat → K PUnit} {va len : Nat} {k k' : Kernel} (stores : StoresBytes body va)
    (run : (forM (List.range' 0 len) body : K PUnit).run k = .ok ⟨⟩ k') {i : Nat} (below : i < len) : canonical (va+i) = true := by
  have all := forM_range'_ok (fun n _ => ∀ j, j < n → canonical (va+j) = true) body 0 len k k'
    (fun j none => absurd none (Nat.not_lt_zero j)) ?_ run
  · exact all i (by omega)
  intro n k1 k2 _ _ before round j inside
  by_cases last : j = n
  · obtain ⟨value,s1,_,_,same⟩ := stores n k1
    rw [same,run_user_store] at round
    rw [last]
    by_contra strange
    rw [show translate s1.hart s1.mm.mem .supervisor .store (va+n) = none from if_neg strange] at round
    cases round
  · exact before j (by omega)

theorem user_write_canonical {va : Nat} {bytes : List (BitVec 8)} {k k' : Kernel} (run : (user_write va bytes).run k = .ok ⟨⟩ k')
    {i : Nat} (below : i < bytes.length) : canonical (va+i) = true :=
  store_loop_canonical (user_write_loop_stores va bytes) run below

section
variable {exact : Bool} {base : Nat} {k : Kernel} {g : Ledger} {me : Process} (good : Good exact base k.mm g)
  (running : k.process_list k.current = some me) (isRoot : g.own me.page_table.root = .root)
  (home : root_of k.hart.satp = me.page_table.root)

include good

/-- A loop of stores at canonical addresses of writable pages ends, and keeps the memory in order. -/
theorem store_loop_runs {r : Nat} (home : root_of k.hart.satp = r) {body : Nat → K PUnit} {va len : Nat} (stores : StoresBytes body va)
    (pages : ∀ i, i < len → canonical (va+i) = true ∧ Writes g r (pageOf (va+i))) :
    ∃ t, (forM (List.range' 0 len) body : K PUnit).run k = .ok ⟨⟩ t ∧ t.hart = k.hart ∧ Good exact base t.mm g := by
  have final := forM_range' (fun _ s => s.hart = k.hart ∧ Good exact base s.mm g) body 0 len k ⟨rfl,good⟩ ?_
  · obtain ⟨t,run,hart,good'⟩ := final
    exact ⟨t,run,hart,good'⟩
  · rintro n s _ below ⟨hart,good1⟩
    obtain ⟨canon,e,leaf,w⟩ := pages n (by omega)
    obtain ⟨value,s1,memory,hart1,same⟩ := stores n s
    have plain : is_cow e = false := by
      by_contra cow
      rw [Bool.not_eq_false] at cow
      rw [((good.sound.shape leaf).cow cow).2] at w
      cases w
    have place : translate s1.hart s1.mm.mem .supervisor .store (va+n) = some (ppn_to_addr e+(va+n)%4096) := by
      rw [memory,hart1,hart,translate_leaf good1 home leaf]
      simp [canon,plain,permits,w]
    have stored : (body n).run s =
        .ok ⟨⟩ { s1 with mm := { s1.mm with mem := store8 s1.mm.mem (ppn_to_addr e+(va+n)%4096) value } } := by
      rw [same,run_user_store,place]
    refine ⟨_,stored,hart1.trans hart,?_⟩
    rw [memory]
    exact (store_page good1 leaf w value).good

/-- In user pages a loop of stores ends exactly when the addresses are canonical and their pages writable. -/
theorem store_loop_iff {r : Nat} (home : root_of k.hart.satp = r) {body : Nat → K PUnit} {va len : Nat} (stores : StoresBytes body va)
    (there : ∀ i, i < len → UserPage g r (pageOf (va+i))) :
    (∃ t, (forM (List.range' 0 len) body : K PUnit).run k = .ok ⟨⟩ t) ↔
      ∀ i, i < len → canonical (va+i) = true ∧ Writes g r (pageOf (va+i)) := by
  constructor
  · rintro ⟨t,run⟩ i below
    refine ⟨store_loop_canonical stores run below,?_⟩
    have all := forM_range'_ok (fun n s => s.hart = k.hart ∧ Good exact base s.mm g ∧ ∀ j, j < n → Writes g r (pageOf (va+j)))
      body 0 len k t ⟨rfl,good,fun j none => absurd none (Nat.not_lt_zero j)⟩ ?_ run
    · exact all.2.2 i (by omega)
    rintro n s s' _ inside ⟨hart,good1,before⟩ round
    obtain ⟨value,s1,memory,hart1,same⟩ := stores n s
    obtain ⟨e,leaf⟩ := there n (by omega)
    rw [same,run_user_store,memory,hart1,hart,translate_leaf good1 home leaf] at round
    by_cases fits : (canonical (va+n) && !(k.hart.reserved_fault && is_cow e) && permits .supervisor .store e) = true
    · rw [if_pos fits] at round
      have w : is_w e = true := by
        simp only [permits,Bool.and_eq_true] at fits
        exact fits.2.1
      cases round
      refine ⟨rfl,(store_page good1 leaf w value).good,fun j inside => ?_⟩
      by_cases last : j = n
      · rw [last]
        exact ⟨e,leaf,w⟩
      · exact before j (by omega)
    · rw [if_neg fits] at round
      cases round
  · intro pages
    obtain ⟨t,run,_⟩ := store_loop_runs good home stores pages
    exact ⟨t,run⟩

omit good in
/-- The loop of `sys_write` ends exactly when the hart lets the kernel load every byte. -/
theorem write_loop_iff (buf len : Nat) :
    (∃ t, (write_loop buf len).run k = .ok ⟨⟩ t) ↔
      ∀ i, i < len → (translate k.hart k.mm.mem .supervisor .load (buf+i)).isSome = true := by
  unfold write_loop
  constructor
  · rintro ⟨t,run⟩ i below
    have all := forM_range'_ok (fun n s => s.mm = k.mm ∧ s.hart = k.hart ∧
      ∀ j, j < n → (translate k.hart k.mm.mem .supervisor .load (buf+j)).isSome = true) _ 0 len k t
      ⟨rfl,rfl,fun j none => absurd none (Nat.not_lt_zero j)⟩ ?_ run
    · exact all.2.2 i (by omega)
    rintro n s s' _ _ ⟨memory,hart,before⟩ round
    obtain ⟨c,s1,loaded,put⟩ := bind_ok round
    cases put
    unfold user_load at loaded
    rw [run_seq (EStateM.run_get _)] at loaded
    cases found : translate s.hart s.mm.mem .supervisor .load (buf+n) with
    | none =>
      rw [found] at loaded
      cases loaded
    | some pa =>
      rw [found] at loaded
      cases loaded
      refine ⟨memory,hart,fun j inside => ?_⟩
      by_cases last : j = n
      · rw [last,← memory,← hart,found]
        rfl
      · exact before j (by omega)
  · intro all
    have round : ∀ n s, 0 ≤ n → n < 0+len → s.mm = k.mm ∧ s.hart = k.hart → ∃ s', (do
        let c ← user_load (buf+n)
        putchar c : K PUnit).run s = .ok ⟨⟩ s' ∧ s'.mm = k.mm ∧ s'.hart = k.hart := by
      rintro n s _ below ⟨memory,hart⟩
      obtain ⟨pa,found⟩ := Option.isSome_iff_exists.mp (all n (by omega))
      have loads : (user_load (buf+n)).run s = .ok (s.mm.mem pa) s := by
        unfold user_load
        rw [run_seq (EStateM.run_get _),memory,hart,found]
        rfl
      exact ⟨_,run_seq loads,memory,hart⟩
    obtain ⟨t,run,_⟩ := forM_range' (fun _ s => s.mm = k.mm ∧ s.hart = k.hart) _ 0 len k ⟨rfl,rfl⟩ round
    exact ⟨t,run⟩

include running isRoot home

/-- The loop of `sys_read` meets no trap in a range that was made accessible. -/
theorem read_loop_ends {buf len : Nat} (accessible : RangeAccessible k me.page_table buf len true) {k' : Kernel}
    (run : (ensure_range buf len true).run k = .ok (.ok ()) k') : ∃ t, (read_loop buf len).run k' = .ok ⟨⟩ t := by
  obtain ⟨mm,g',rfl,acts,_,writes⟩ := ensure_range_write good running isRoot run
  obtain ⟨t,ran,_⟩ := store_loop_runs (k := { k with mm := mm }) acts.good home (read_loop_stores buf) fun i below =>
    ⟨(accessible _ run (buf+i) (by omega) (by omega)).canonical,writes i below⟩
  exact ⟨t,ran⟩

omit good running isRoot home in
/-- The loop of `sys_write` meets no trap in a range that is accessible. -/
theorem write_loop_ends {buf len : Nat} {pt : PageTable} (accessible : RangeAccessible k pt buf len false) {k' : Kernel}
    (run : (ensure_range buf len false).run k = .ok (.ok ()) k') : ∃ t, (write_loop buf len).run k' = .ok ⟨⟩ t :=
  (write_loop_iff buf len).mpr fun i below => (accessible _ run (buf+i) (by omega) (by omega)).translates

end

/-! ### The status word of a wait -/

/-- The first half of storing a status word: a copy-on-write page under the pointer is resolved. -/
def resolve_status (exit_code_ptr : Nat) : K Unit := do
  let cur ← current
  match ← onMm (cur.page_table.lookup exit_code_ptr) with
  | none => pure ()
  | some entry =>
    let e ← onMm (read entry)
    if cow_pending e && is_u e then onMm (handle_cow_fault entry)

/-- A status word is stored in two halves. -/
theorem run_wait_status {ptr : Nat} (some_ptr : ptr ≠ 0) (code : Nat) (k : Kernel) :
    (wait_status ptr code).run k =
      (resolve_status ptr >>= fun _ => user_write ptr (word_bytes (BitVec.ofNat 64 code))).run k := by
  unfold wait_status resolve_status
  rw [if_pos some_ptr,bind_assoc]
  refine congrArg (fun x => EStateM.run x k) (bind_congr fun cur => ?_)
  rw [bind_assoc]
  refine bind_congr fun found => ?_
  cases found with
  | none => rfl
  | some entry =>
    dsimp only
    rw [bind_assoc]
    refine bind_congr fun e => ?_
    by_cases pending : (cow_pending e && is_u e) = true
    · rw [if_pos pending,if_pos pending]
    · rw [if_neg pending,if_neg pending]
      rfl

/-- Bytes were stored from `va` on, all of them to writable user pages of a process, and nothing else changed. -/
structure StoresWithin (pt : PageTable) (va : Nat) (bytes : List (BitVec 8)) (k k' : Kernel) : Prop where
  rest : k' = { k with mm := { k.mm with mem := k'.mm.mem } }
  stored : ∀ i, i < bytes.length → ∃ e, userLeaf k.mm pt (va+i) = some e ∧ is_w e = true ∧
    k'.mm.mem (ppn_to_addr e+(va+i)%4096) = bytes.getD i 0
  others : ∀ a, k'.mm.mem a ≠ k.mm.mem a →
    ∃ i e, i < bytes.length ∧ userLeaf k.mm pt (va+i) = some e ∧ a = ppn_to_addr e+(va+i)%4096

/-- A wait that finds a zombie respects the boundary: no process sees that the page under the pointer is resolved, and the
    status word goes to writable pages of the caller without a fault; or the call returns with nothing changed. -/
def Respects (k : Kernel) (me : Process) (ptr code : Nat) : Prop :=
  (∃ k1 k2, (resolve_status ptr).run k = .ok ⟨⟩ k1 ∧
    (∀ i p, k.process_list i = some p → p.state ≠ .Gone → pagesOf k1.mm p.page_table = pagesOf k.mm p.page_table) ∧
    (user_write ptr (word_bytes (BitVec.ofNat 64 code))).run k1 = .ok ⟨⟩ k2 ∧
    StoresWithin me.page_table ptr (word_bytes (BitVec.ofNat 64 code)) k1 k2) ∨
  ∃ r k', (sys_wait ptr).run k = .ok r k' ∧ k'.process_list = k.process_list ∧ k'.mm = k.mm

/-- A pointer that wait can store through: eight bytes at canonical addresses in user pages that are writable, or in the
    page under the pointer when it is copied on write and there is a frame for the copy. -/
def StatusReady (m : Mm) (pt : PageTable) (ptr : Nat) : Prop :=
  (∀ i, i < 8 → canonical (ptr+i) = true ∧ ∃ e, userLeaf m pt (ptr+i) = some e ∧
    (is_w e = true ∨ (is_cow e = true ∧ pageOf (ptr+i) = pageOf ptr))) ∧
  ∀ e, userLeaf m pt ptr = some e → is_cow e = true → 1 < (refsOf m (ppn_to_addr e)).toNat → 0 < freeFrames m

section
variable {exact : Bool} {base : Nat} {k : Kernel} {g : Ledger}

/-- Bytes at canonical addresses of writable pages are stored without a fault, and to these pages only. -/
theorem user_write_stores (good : Good exact base k.mm g) {r : Nat} (home : root_of k.hart.satp = r) {va : Nat}
    {bytes : List (BitVec 8)} (short : bytes.length ≤ 4096)
    (pages : ∀ i, i < bytes.length → canonical (va+i) = true ∧ ∃ e, UserLeaf g r (pageOf (va+i)) e ∧ is_w e = true) :
    ∃ mem, (user_write va bytes).run k = .ok ⟨⟩ { k with mm := { k.mm with mem := mem } } ∧
      (∀ i e, i < bytes.length → UserLeaf g r (pageOf (va+i)) e → mem (ppn_to_addr e+(va+i)%4096) = bytes.getD i 0) ∧
      ∀ a, mem a ≠ k.mm.mem a →
        ∃ i e, i < bytes.length ∧ UserLeaf g r (pageOf (va+i)) e ∧ a = ppn_to_addr e+(va+i)%4096 := by
  have final := forM_range' (fun n k' => ∃ mem, k' = { k with mm := { k.mm with mem := mem } } ∧
    Good exact base { k.mm with mem := mem } g ∧
    (∀ i e, i < n → UserLeaf g r (pageOf (va+i)) e → mem (ppn_to_addr e+(va+i)%4096) = bytes.getD i 0) ∧
    ∀ a, mem a ≠ k.mm.mem a → ∃ i e, i < n ∧ UserLeaf g r (pageOf (va+i)) e ∧ a = ppn_to_addr e+(va+i)%4096)
    (fun i => user_store (va+i) (bytes.getD i 0)) 0 bytes.length k
    ⟨k.mm.mem,rfl,good,fun i e none => absurd none (Nat.not_lt_zero i),fun a other => absurd rfl other⟩ ?_
  · obtain ⟨_,run,mem,rfl,_,values,others⟩ := final
    rw [Nat.zero_add] at values others
    exact ⟨mem,run,values,others⟩
  · rintro n _ _ below ⟨mem,rfl,good1,values,others⟩
    obtain ⟨canon,e,leaf,w⟩ := pages n (by omega)
    have plain : is_cow e = false := by
      by_contra cow
      rw [Bool.not_eq_false] at cow
      rw [((good.sound.shape leaf).cow cow).2] at w
      cases w
    have whole := ppn_to_addr_mod e
    have place : translate k.hart mem .supervisor .store (va+n) = some (ppn_to_addr e+(va+n)%4096) := by
      rw [translate_leaf good1 home leaf]
      simp [canon,plain,permits,w]
    refine ⟨_,?_,store8 mem (ppn_to_addr e+(va+n)%4096) (bytes.getD n 0),rfl,(store_page good1 leaf w _).good,?_,?_⟩
    · rw [run_user_store,place]
    · intro i d before leafI
      by_cases last : i = n
      · subst last
        rw [leafI.unique leaf,store8_on]
      · have wholeD := ppn_to_addr_mod d
        rw [store8_off (by omega)]
        exact values i d (by omega) leafI
    · intro a changed
      by_cases here : a = ppn_to_addr e+(va+n)%4096
      · exact ⟨n,e,by omega,leaf,here⟩
      · rw [store8_off here] at changed
        obtain ⟨i,d,before,leafI,same⟩ := others a changed
        exact ⟨i,d,by omega,leafI,same⟩

variable {me : Process} (good : Good exact base k.mm g) (running : k.process_list k.current = some me)
  (isRoot : g.own me.page_table.root = .root)

include good running isRoot

/-- The page under the pointer is resolved when it is copied on write, unless there is no frame for it. -/
theorem resolve_status_cases (ptr : Nat) :
    (∃ e, UserLeaf g me.page_table.root (pageOf ptr) e ∧ is_cow e = true ∧ room g = 0 ∧ 1 < g.refs (ppn_to_addr e) ∧
      ∃ err k', (resolve_status ptr).run k = .error err k') ∨
    (∃ e m' g', UserLeaf g me.page_table.root (pageOf ptr) e ∧ is_cow e = true ∧
      (resolve_status ptr).run k = .ok ⟨⟩ { k with mm := m' } ∧
      Resolves exact base me.page_table.root (pageOf ptr) k.mm m' g g') ∨
    (¬ CowPage g me.page_table.root (pageOf ptr) ∧ (resolve_status ptr).run k = .ok ⟨⟩ k) := by
  have inside := pageOf_lt ptr
  unfold resolve_status
  rw [run_seq (run_current running),run_seq (onMm_ok (good.lookup me.page_table isRoot ptr))]
  cases slot : leafSlot (g.tree me.page_table.root) (pageOf ptr) with
  | none =>
    refine .inr (.inr ⟨?_,rfl⟩)
    rintro ⟨e,leaf,_⟩
    obtain ⟨entry,found⟩ := UserLeaf.slot good.mirrors leaf
    rw [slot] at found
    cases found
  | some entry =>
    have word := load_slot good.mirrors isRoot inside slot
    dsimp only
    rw [run_seq (onMm_ok (run_read _ _)),word]
    by_cases pending : (cow_pending ((g.tree me.page_table.root).leaf (pageOf ptr)) &&
        is_u ((g.tree me.page_table.root).leaf (pageOf ptr))) = true
    · rw [if_pos pending]
      rw [Bool.and_eq_true] at pending
      obtain ⟨_,leaf⟩ := user_leaf_of good isRoot inside pending.2
      have cow : is_cow ((g.tree me.page_table.root).leaf (pageOf ptr)) = true := by
        rw [← cow_pending_user (good.sound.shape leaf)]
        exact pending.1
      rcases handle_cow_fault_spec good leaf cow slot with ⟨⟨full,many⟩,failed⟩ | ⟨m',g',run,resolves⟩
      · refine .inl ⟨_,leaf,cow,full,many,.panicked (.panic "COW: alloc_frame failed"),k,?_⟩
        rw [run_onMm]
        simp only [failed]
      · exact .inr (.inl ⟨_,m',g',leaf,cow,onMm_ok run,resolves⟩)
    · rw [if_neg pending]
      refine .inr (.inr ⟨?_,rfl⟩)
      rintro ⟨e,leaf,cow⟩
      rw [leaf.entry,cow_pending_user (good.sound.shape leaf),cow,leaf.user] at pending
      exact pending rfl

end

section
variable {exact : Bool} {base : Nat} {m m' : Mm} {g g' : Ledger} (good : Good exact base m g) (pt : PageTable)
  (isRoot : g.own pt.root = .root) {ptr : Nat}

include good isRoot

/-- A pointer into a page that was resolved is ready when all its bytes are at canonical addresses and writable now. -/
theorem status_ready_resolved {e : PTEntry} (leaf : UserLeaf g pt.root (pageOf ptr) e) (cow : is_cow e = true)
    (resolves : Resolves exact base pt.root (pageOf ptr) m m' g g') :
    StatusReady m pt ptr ↔ ∀ i, i < 8 → canonical (ptr+i) = true ∧ Writes g' pt.root (pageOf (ptr+i)) := by
  have isRoot' := (resolves.aside.roots _).mpr isRoot
  constructor
  · rintro ⟨pages,_⟩ i below
    obtain ⟨canon,d,found,marks⟩ := pages i below
    refine ⟨canon,?_⟩
    by_cases same : pageOf (ptr+i) = pageOf ptr
    · rw [same]
      exact resolves.writable
    · have old := (userLeaf_iff good pt isRoot).mp found
      refine ⟨d,⟨isRoot',old.inside,?_,old.valid,old.user⟩,marks.resolve_right fun both => same both.2⟩
      rw [resolves.rest _ same]
      exact old.entry
  · intro pages
    refine ⟨fun i below => ⟨(pages i below).1,?_⟩,fun d found _ many => ?_⟩
    · by_cases same : pageOf (ptr+i) = pageOf ptr
      · refine ⟨e,(userLeaf_iff good pt isRoot).mpr ?_,.inr ⟨cow,same⟩⟩
        rw [same]
        exact leaf
      · obtain ⟨d,now,w⟩ := (pages i below).2
        refine ⟨d,(userLeaf_iff good pt isRoot).mpr ⟨isRoot,now.inside,?_,now.valid,now.user⟩,.inl w⟩
        rw [← resolves.rest _ same]
        exact now.entry
    · have old := (userLeaf_iff good pt isRoot).mp found
      have cost := resolves.cost
      rw [old.entry,if_pos (by rw [← refs_toNat good pt old]; exact many)] at cost
      rw [freeFrames_eq good.mirrors.pool]
      omega

/-- A pointer into a page that needs no copy is ready when all its bytes are at canonical addresses and writable. -/
theorem status_ready_plain (plain : ¬ CowPage g pt.root (pageOf ptr)) :
    StatusReady m pt ptr ↔ ∀ i, i < 8 → canonical (ptr+i) = true ∧ Writes g pt.root (pageOf (ptr+i)) := by
  constructor
  · rintro ⟨pages,_⟩ i below
    obtain ⟨canon,d,found,marks⟩ := pages i below
    have leaf := (userLeaf_iff good pt isRoot).mp found
    refine ⟨canon,d,leaf,marks.resolve_right ?_⟩
    rintro ⟨cow,same⟩
    rw [same] at leaf
    exact plain ⟨d,leaf,cow⟩
  · intro pages
    refine ⟨fun i below => ⟨(pages i below).1,?_⟩,fun d found cow _ => absurd ⟨d,(userLeaf_iff good pt isRoot).mp found,cow⟩ plain⟩
    obtain ⟨d,leaf,w⟩ := (pages i below).2
    exact ⟨d,(userLeaf_iff good pt isRoot).mpr leaf,.inl w⟩

end

/-- A wait that finds a zombie and comes back has buried it. -/
theorem wait_buries {k k' : Kernel} {me : Process} (running : k.process_list k.current = some me) {idx : Fin MAX_PROCESSES}
    (found : (List.finRange MAX_PROCESSES).find? (zombie_child k.process_list me.pid) = some idx) {ptr r : Nat}
    (run : (sys_wait ptr).run k = .ok r k') : k'.process_list ≠ k.process_list := by
  obtain ⟨child,code,slot,_,dead⟩ := zombie_child_some (List.find?_some found)
  unfold sys_wait at run
  rw [run_seq (run_current running),run_seq (EStateM.run_get _)] at run
  dsimp only at run
  rw [found] at run
  unfold reap at run
  dsimp only at run
  rw [run_seq (EStateM.run_get _),slot] at run
  dsimp only at run
  obtain ⟨_,k1,_,run⟩ := bind_ok run
  obtain ⟨_,k2,_,run⟩ := bind_ok run
  rw [run_seq (EStateM.run_modify _ _)] at run
  cases run
  intro same
  have buried := congrFun same idx
  dsimp only at buried
  rw [Function.update_self,slot,Option.some.injEq] at buried
  rw [← buried] at dead
  cases dead

section
variable {exact : Bool} {o : Origin} {k : Kernel} {g : Ledger} {me : Process} (inv : Inv exact o k g)
  (home : root_of k.hart.satp = me.page_table.root) (running : k.process_list k.current = some me) (there : me.state ≠ .Gone)

include inv home running there

/-- A pointer that is ready is stored through as it should be. -/
theorem ready_respects {ptr : Nat} (code : Nat) (ready : StatusReady k.mm me.page_table ptr) : Respects k me ptr code := by
  have good := inv.good
  have isRoot := inv.link.root running there
  have leaves : ∀ {va e}, userLeaf k.mm me.page_table va = some e ↔ UserLeaf g me.page_table.root (pageOf va) e :=
    userLeaf_iff good me.page_table isRoot
  have eight : (word_bytes (BitVec.ofNat 64 code)).length = 8 := by simp [word_bytes]
  have pages := ready.1
  -- The pages as they are once the page under the pointer is resolved.
  have store : ∀ k1 g1, k1.hart = k.hart → Good exact o.base k1.mm g1 →
      (resolve_status ptr).run k = .ok ⟨⟩ k1 →
      (∀ i p, k.process_list i = some p → p.state ≠ .Gone → pagesOf k1.mm p.page_table = pagesOf k.mm p.page_table) →
      (∀ i, i < 8 → ∃ e, UserLeaf g1 me.page_table.root (pageOf (ptr+i)) e ∧ is_w e = true) → Respects k me ptr code := by
    intro k1 g1 hart good1 run unseen writable
    have isRoot1 : g1.own me.page_table.root = .root := (writable 0 (by omega)).choose_spec.1.root
    have short : (word_bytes (BitVec.ofNat 64 code)).length ≤ 4096 := by omega
    obtain ⟨mem,stored,values,others⟩ := user_write_stores good1 (by rw [hart]; exact home) short
      fun i below => ⟨(pages i (by omega)).1,writable i (by omega)⟩
    refine .inl ⟨k1,{ k1 with mm := { k1.mm with mem := mem } },run,unseen,stored,rfl,?_,?_⟩
    · intro i below
      obtain ⟨e,leaf,w⟩ := writable i (by omega)
      exact ⟨e,(userLeaf_iff good1 _ isRoot1).mpr leaf,w,values i e below leaf⟩
    · intro a changed
      obtain ⟨i,e,below,leaf,same⟩ := others a changed
      exact ⟨i,e,below,(userLeaf_iff good1 _ isRoot1).mpr leaf,same⟩
  rcases resolve_status_cases good running isRoot ptr with
    ⟨e,leaf,cow,full,many,_⟩ | ⟨e,m',g',leaf,cow,run,resolves⟩ | ⟨plain,run⟩
  · rw [← refs_toNat good me.page_table leaf] at many
    have some_frame := ready.2 e (leaves.mpr leaf) cow many
    rw [freeFrames_eq good.mirrors.pool] at some_frame
    omega
  · refine store { k with mm := m' } g' rfl resolves.good run ?_ fun i below =>
      ((status_ready_resolved good me.page_table isRoot leaf cow resolves).mp ready i below).2
    intro i p slot thereP
    have isRootP := inv.link.root slot thereP
    rw [pagesOf_eq resolves.good p.page_table ((resolves.aside.roots _).mpr isRootP),pagesOf_eq good p.page_table isRootP]
    exact (resolves.aside.unseen resolves.same (p.page_table.root+1)).spaces _ (by omega) isRootP
  · exact store k g rfl good run (fun _ _ _ _ => rfl) fun i below =>
      ((status_ready_plain good me.page_table isRoot plain).mp ready i below).2

omit home in
/-- A store that goes well tells that the pointer was ready. -/
theorem respects_ready {idx : Fin MAX_PROCESSES}
    (found : (List.finRange MAX_PROCESSES).find? (zombie_child k.process_list me.pid) = some idx) {ptr code : Nat}
    (respects : Respects k me ptr code) : StatusReady k.mm me.page_table ptr := by
  have good := inv.good
  have isRoot := inv.link.root running there
  have leaves : ∀ {va e}, userLeaf k.mm me.page_table va = some e ↔ UserLeaf g me.page_table.root (pageOf va) e :=
    userLeaf_iff good me.page_table isRoot
  have eight : (word_bytes (BitVec.ofNat 64 code)).length = 8 := by simp [word_bytes]
  rcases respects with ⟨k1,k2,run,_,stored,within⟩ | ⟨r,k',run,table,_⟩
  · have canon : ∀ i, i < 8 → canonical (ptr+i) = true := fun i below => user_write_canonical stored (by omega)
    rcases resolve_status_cases good running isRoot ptr with
      ⟨_,_,_,_,_,_,_,failed⟩ | ⟨e,m',g',leaf,cow,ran,resolves⟩ | ⟨plain,ran⟩
    · rw [failed] at run
      cases run
    · rw [ran] at run
      cases run
      refine (status_ready_resolved good me.page_table isRoot leaf cow resolves).mpr fun i below => ⟨canon i below,?_⟩
      obtain ⟨d,now,w,_⟩ := within.stored i (by omega)
      exact ⟨d,(userLeaf_iff resolves.good _ ((resolves.aside.roots _).mpr isRoot)).mp now,w⟩
    · rw [ran] at run
      cases run
      refine (status_ready_plain good me.page_table isRoot plain).mpr fun i below => ⟨canon i below,?_⟩
      obtain ⟨d,now,w,_⟩ := within.stored i (by omega)
      exact ⟨d,leaves.mp now,w⟩
  · exact absurd table (wait_buries running found run)

end

/-- A wait that finds a zombie respects the boundary between the kernel and its caller exactly when its pointer is ready:
    eight bytes at canonical addresses of writable user pages, or of the one page that it resolves. -/
theorem wait_respects_iff {cfg : Config} {k : Kernel} {me : Process} (reached : Reachable cfg WaitsWell k)
    (running : runner k = some me) (ctx : Context) {idx : Fin MAX_PROCESSES}
    (found : (List.finRange MAX_PROCESSES).find? (zombie_child (entered ctx 8 0 k me).process_list me.pid) = some idx)
    {ptr : Nat} (some_ptr : ptr ≠ 0) (code : Nat) :
    ((wait_status ptr code).run (entered ctx 8 0 k me) =
      (resolve_status ptr >>= fun _ => user_write ptr (word_bytes (BitVec.ofNat 64 code))).run (entered ctx 8 0 k me)) ∧
    (Respects (entered ctx 8 0 k me) me ptr code ↔ StatusReady (entered ctx 8 0 k me).mm me.page_table ptr) := by
  obtain ⟨r,s,m,g0,g,_,_,user⟩ := reachable_user false (fun _ _ waits => ⟨waits,by simp⟩) reached
  obtain ⟨me',slot,awake⟩ := reachable_awake reached
  have same : some me' = some me := slot.symm.trans running
  cases same
  obtain ⟨inv,home,slot',_,_⟩ := entered_inv user running awake ctx 8 0
  have there : (stopped ctx 8 0 me).state ≠ .Gone := by
    rw [show (stopped ctx 8 0 me).state = me.state from rfl,awake]
    simp
  exact ⟨run_wait_status some_ptr _ _,respects_ready inv slot' there found,
    ready_respects inv (home _ slot') slot' there _⟩

/-! ### A machine after its boot -/

/-- The sample machine runs init, with one page of code and one of stack. -/
theorem sample_boot : ∃ o k g me, boot (sample true) = .user k ∧ InUser false o k g ∧ k.process_list 0 = some me ∧
    runner k = some me ∧ me.state = .Running ∧ Initial (space k.mm g me.page_table.root) 1 := by
  obtain ⟨k,booted⟩ := boot_succeeds (sample_fits true)
  obtain ⟨r,s,m,g,rfl,launch⟩ := boot_launch false booted
  have len : Eager.pageUp (progLen (sample true)) = 1 := by decide
  have initial := launch.initial
  rw [len] at initial
  exact ⟨_,_,g,initProcess r s,booted,launch.user,launched_init _ r s m,launched_init _ r s m,rfl,initial⟩

/-- A buffer of init in a page that it shares with its child is accepted, and init has the page for itself then. -/
theorem ensure_user_range_decides_shared : ∃ k me e m', Reachable (sample true) WaitsWell k ∧ k.process_list 0 = some me ∧
    userLeaf k.mm me.page_table 0x20000 = some e ∧ is_cow e = true ∧
    (ensure_user_range_checked me.page_table 0x20800 16 true).run k.mm = .ok (.ok ()) m' ∧
    Decided k 0 me 0x20800 16 true (.ok ()) m' := by
  obtain ⟨history,o,k,g,init,child,run,_,shared⟩ := sample_shared
  have good := shared.user.inv.good
  have there : init.state ≠ .Gone := by rw [shared.awake]; simp
  obtain ⟨e,leaf,cow⟩ := shared.cow
  have found : userLeaf k.mm init.page_table 0x20000 = some e :=
    (userLeaf_iff good _ (shared.user.inv.link.root shared.slot there)).mpr leaf
  have enough : EnoughFrames k.mm init.page_table 0x20800 16 true :=
    enough_one true (by decide) (by rw [freeFrames_eq good.mirrors.pool]; exact shared.frames)
  have accepts : Accepts k.mm init.page_table 0x20800 16 true := by
    refine .inr ⟨by decide,by decide,fun n low high => ?_⟩
    obtain rfl : n = 32 := by omega
    exact ⟨e,found,.inr ⟨cow,((good.sound.shape leaf).cow cow).1⟩⟩
  obtain ⟨res,m',ran,_,decided⟩ := ensure_user_range_decides good shared.user.inv.link shared.slot there 0x20800 16 true enough
  obtain rfl : res = .ok () := decided.result.mpr accepts
  exact ⟨k,init,e,m',(plain_waits run).reachable,shared.slot,found,cow,ran,decided⟩

theorem range_accessible_iff_after_boot : ∃ k me, runner k = some me ∧
    (RangeAccessible (entered ⟨fun _ => 0,0,0⟩ 8 0 k me) me.page_table USER_CODE_BASE 16 false ↔
      (Accepts (entered ⟨fun _ => 0,0,0⟩ 8 0 k me).mm me.page_table USER_CODE_BASE 16 false →
        EnoughFrames (entered ⟨fun _ => 0,0,0⟩ 8 0 k me).mm me.page_table USER_CODE_BASE 16 false →
          HartReaches (entered ⟨fun _ => 0,0,0⟩ 8 0 k me) me.page_table USER_CODE_BASE 16 false)) := by
  obtain ⟨o,k,g,me,booted,_,_,running,_,_⟩ := sample_boot
  have reached : Reachable (sample true) WaitsWell k := .boot booted
  exact ⟨k,me,running,range_accessible_iff reached running _ USER_CODE_BASE 16 false⟩

/-- An address that differs from one of the program's only above bit 38 is accepted, and the hart faults on it. -/
theorem aliased_range_accepted : ∃ k me, Reachable (sample true) WaitsWell k ∧ runner k = some me ∧
    ¬ RangeAccessible (entered ⟨fun _ => 0,0,0⟩ 8 0 k me) me.page_table (2^39+USER_CODE_BASE) 1 false := by
  obtain ⟨o,k,g,me,booted,user,_,running,awake,initial⟩ := sample_boot
  refine ⟨k,me,.boot booted,running,?_⟩
  obtain ⟨inv,home,slot,_,spaces⟩ := entered_inv user running awake ⟨fun _ => 0,0,0⟩ 8 0
  have isRoot := me_root user running awake
  have base : USER_CODE_BASE = 0x10000 := rfl
  have stack : USER_STACK_PAGE = 0x3F000000 := rfl
  have page : pageOf (2^39+USER_CODE_BASE) = 16 := by decide
  refine (range_accessible inv.good slot isRoot (home _ slot) _ _ _).not.mpr fun reaches => ?_
  have accepts : Accepts (entered ⟨fun _ => 0,0,0⟩ 8 0 k me).mm me.page_table (2^39+USER_CODE_BASE) 1 false := by
    rw [accepts_iff inv.good me.page_table isRoot]
    refine .inr ⟨by omega,by omega,fun va low high => ?_⟩
    have floor : mask_page (2^39+USER_CODE_BASE) = 2^39+USER_CODE_BASE := by decide
    have here : va = 2^39+USER_CODE_BASE := by omega
    rw [here,page]
    obtain ⟨p,found⟩ := Option.isSome_iff_exists.mp ((initial.there 16).mpr (.inl (by omega)))
    have readable := (initial.code 16 p (by omega) found).1
    obtain ⟨low,leaf⟩ := space_leaf isRoot found
    rw [space_low low,pageAt_user leaf.valid leaf.user,Option.some.injEq] at found
    rw [← found] at readable
    exact ⟨_,leaf,readable⟩
  have reach := (reaches accepts (fun other => by cases other) (2^39+USER_CODE_BASE) (le_refl _) (by omega)).1
  exact absurd reach (by decide)

/-- Init with a child that has exited. -/
theorem sample_zombie : ∃ o k g me, Reachable (sample true) WaitsWell k ∧ InUser false o k g ∧ runner k = some me ∧
    me.state = .Running ∧ zombieSlot (procs k).slots me.pid = some 1 := by
  obtain ⟨o,k0,k1,k2,g0,g1,_,_,handover⟩ := sample_handover
  obtain ⟨k3,g3,at3,_⟩ := handover.exit
  obtain ⟨me,running,same⟩ := @runner_of _ _ ⟨1,0,.Running⟩ at3.procs rfl
  refine ⟨o,k3,g3,me,(plain_waits at3.run).reachable,at3.user,running,congrArg Lifecycle.Header.state same,?_⟩
  rw [show me.pid = 1 from congrArg Lifecycle.Header.pid same,at3.procs]
  decide +kernel

theorem found_entered {k : Kernel} {me : Process} (running : runner k = some me) (ctx : Context) {idx : Fin MAX_PROCESSES}
    (found : zombieSlot (procs k).slots me.pid = some idx) :
    (List.finRange MAX_PROCESSES).find? (zombie_child (entered ctx 8 0 k me).process_list me.pid) = some idx := by
  rw [zombie_child_eq,slots_entered running]
  exact found

theorem wait_respects_iff_after_exit : ∃ k me, Reachable (sample true) WaitsWell k ∧ runner k = some me ∧
    (Respects (entered ⟨fun _ => 0,0,0⟩ 8 0 k me) me 8 0 ↔
      StatusReady (entered ⟨fun _ => 0,0,0⟩ 8 0 k me).mm me.page_table 8) := by
  obtain ⟨o,k,g,me,reached,_,running,_,found⟩ := sample_zombie
  exact ⟨k,me,reached,running,(wait_respects_iff reached running ⟨fun _ => 0,0,0⟩ (found_entered running _ found)
    (show 8 ≠ 0 by decide) 0).2⟩

/-- A wait stores the status of its child into the memory of the kernel when it is asked to. -/
theorem wait_writes_kernel : ∃ k me idx, Reachable (sample true) WaitsWell k ∧ runner k = some me ∧
    (List.finRange MAX_PROCESSES).find? (zombie_child (entered ⟨fun _ => 0,0,0⟩ 8 0 k me).process_list me.pid) = some idx ∧
    ¬ Respects (entered ⟨fun _ => 0,0,0⟩ 8 0 k me) me 0x80000000 0 := by
  obtain ⟨o,k,g,me,reached,user,running,awake,found⟩ := sample_zombie
  refine ⟨k,me,1,reached,running,found_entered running _ found,fun respects => ?_⟩
  obtain ⟨inv,home,slot,_,_⟩ := entered_inv user running awake ⟨fun _ => 0,0,0⟩ 8 0
  have there : (stopped ⟨fun _ => 0,0,0⟩ 8 0 me).state ≠ .Gone := by
    rw [show (stopped _ 8 0 me).state = me.state from rfl,awake]
    simp
  obtain ⟨pages,_⟩ := respects_ready inv slot there (found_entered running _ found) respects
  obtain ⟨_,e,mapped,_⟩ := pages 0 (by omega)
  have low := inv.good.sound.low ((userLeaf_iff inv.good _ (inv.link.root slot there)).mp mapped)
  exact absurd low (by decide)

end Unit00.Boundary
