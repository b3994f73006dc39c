import Unit00.Exits
import Unit00.Bystanders
import Unit00.Gaps
import Unit00.Munmap
import Unit00.Records

/-!
How the kernel takes a lack of memory. A mapping and a break report it, but the
copy on write, the root of a child and its kernel stack insist on their frames,
and a buffer or a status word that the hart does not let through stops the
kernel too. A system call or a store comes back, having done what it should to
its own process and nothing to the others, exactly when it comes to none of these.
-/
namespace Unit00.Panics
open Unit00.Memory Unit00.Execution Unit00.Frame Unit00.Paging Unit00.Paging.PTEntry Unit00.Trees Unit00.Ownership
open Unit00.Mirror Unit00.Space Unit00.Pages Unit00.Growing Unit00.Ranges Unit00.Forking Unit00.Access Unit00.Mmu
open Unit00.Task Unit00.Scheduler Unit00.Syscall Unit00.Machine Unit00.Lifecycle Unit00.Steps Unit00.Invariant
open Unit00.Services Unit00.Traps Unit00.View Unit00.Boot Unit00.Runs Unit00.Progress Unit00.Stages Unit00.Deaths
open Unit00.Isolation Unit00.Boundary Unit00.Exhaustion
open Unit00.Areas (Tidy)
open Unit00.Eager (Page Pages)

/-! ### Ranges that are written -/

/-- The pages of a range that the kernel has to copy, up to the first page that may not be written. -/
def wantedPages (m : Mm) (pt : PageTable) (ptr len : Nat) : Set Nat :=
  { n | ∃ j e, ptr/4096 ≤ j ∧ j ≤ (ptr+(len-1))/4096 ∧ pageOf (j*4096) = n ∧ userLeaf m pt (j*4096) = some e ∧
    is_cow e = true ∧ 1 < (refsOf m (ppn_to_addr e)).toNat ∧
    ∀ i, ptr/4096 ≤ i → i ≤ j → ∃ d, userLeaf m pt (i*4096) = some d ∧ Grants true d }

/-- There are frames for the pages of the range that the kernel has to copy. -/
def RangeAffords (m : Mm) (pt : PageTable) (ptr len : Nat) : Prop :=
  len ≠ 0 → ptr ≠ 0 → ptr+(len-1) < 2^64 → (wantedPages m pt ptr len).ncard ≤ freeFrames m

/-- The pages between two that are copied before one that may not be written. -/
def wanted (g : Ledger) (r lo hi : Nat) : Set Nat :=
  { n | ∃ j, lo ≤ j ∧ j ≤ hi ∧ pageOf (j*4096) = n ∧ SharedCow g r n ∧
    ∀ i, lo ≤ i → i ≤ j → Lets g r true (pageOf (i*4096)) }

theorem wanted_finite (g : Ledger) (r lo hi : Nat) : (wanted g r lo hi).Finite := by
  refine (Set.finite_lt_nat (2^27)).subset ?_
  rintro n ⟨_,_,_,_,⟨e,leaf,_⟩,_⟩
  exact leaf.inside

theorem wanted_past (g : Ledger) (r : Nat) {lo hi : Nat} (past : hi < lo) : wanted g r lo hi = ∅ := by
  refine Set.eq_empty_of_forall_notMem ?_
  rintro n ⟨j,low,high,_⟩
  omega

theorem wanted_denied {g : Ledger} {r lo : Nat} (hi : Nat) (denied : ¬ Lets g r true (pageOf (lo*4096))) :
    wanted g r lo hi = ∅ := by
  refine Set.eq_empty_of_forall_notMem ?_
  rintro n ⟨j,low,_,_,_,all⟩
  exact denied (all lo (le_refl _) low)

/-- The first page of a range and the rest of it. -/
theorem wanted_step {g g' : Ledger} {r lo hi : Nat} (spent : Spent r (pageOf (lo*4096)) g g')
    (first : Lets g r true (pageOf (lo*4096))) (same : ∀ n, Lets g' r true n ↔ Lets g r true n) (order : lo ≤ hi) :
    (wanted g r lo hi).ncard+room g' = (wanted g' r (lo+1) hi).ncard+room g := by
  have rest : wanted g' r (lo+1) hi = wanted g r lo hi \ {pageOf (lo*4096)} := by
    ext n
    constructor
    · rintro ⟨j,low,high,page,shared,all⟩
      obtain ⟨old,other⟩ := (spent.shared n).mp shared
      refine ⟨⟨j,by omega,high,page,old,fun i lowI highI => ?_⟩,other⟩
      by_cases here : i = lo
      · rw [here]
        exact first
      · exact (same _).mp (all i (by omega) highI)
    · rintro ⟨⟨j,low,high,page,old,all⟩,other⟩
      have later : j ≠ lo := by
        rintro rfl
        exact other page.symm
      exact ⟨j,by omega,high,page,(spent.shared n).mpr ⟨old,other⟩,fun i lowI highI => (same _).mpr (all i (by omega) highI)⟩
  rw [rest]
  rcases spent.cost with ⟨shared,less⟩ | ⟨own,equal⟩
  · have here : pageOf (lo*4096) ∈ wanted g r lo hi := by
      refine ⟨lo,le_refl _,order,rfl,shared,fun i low high => ?_⟩
      obtain rfl : i = lo := by omega
      exact first
    have one := Set.ncard_sdiff_singleton_add_one here (wanted_finite g r lo hi)
    omega
  · have gone : pageOf (lo*4096) ∉ wanted g r lo hi := by
      rintro ⟨_,_,_,_,shared,_⟩
      exact own shared
    rw [Set.sdiff_singleton_eq_self gone,equal]

section
variable {exact : Bool} {base : Nat} {m : Mm} {g : Ledger} (good : Good exact base m g) (pt : PageTable)
  (isRoot : g.own pt.root = .root)

include good in
theorem shared_lets {n : Nat} (shared : SharedCow g pt.root n) : Lets g pt.root true n := by
  obtain ⟨e,leaf,cow,_⟩ := shared
  exact ⟨e,leaf,.inr ⟨cow,((good.sound.shape leaf).cow cow).1⟩⟩

theorem Checks.lets {m' : Mm} {g' : Ledger} (good : Good exact base m g) (isRoot : g.own pt.root = .root)
    (checks : Checks exact base pt.root m m' g g') (n : Nat) : Lets g' pt.root true n ↔ Lets g pt.root true n := by
  rw [lets_write checks.acts.good pt ((checks.acts.aside.roots _).mpr isRoot),lets_write good pt isRoot,checks.acts.pages]

include good isRoot

/-- Making the pages of a range writable fails exactly when the frames do not suffice for the copies. -/
theorem ensure_user_pages_runs_out {last page : Nat} (aligned : page%4096 = 0) (order : page ≤ mask_page last) :
    (room g < (wanted g pt.root (page/4096) (last/4096)).ncard ∧
      ∃ m', (ensure_user_pages pt last page true).run m = .error (.panic "COW: alloc_frame failed") m') ∨
    ((wanted g pt.root (page/4096) (last/4096)).ncard ≤ room g ∧
      ∃ res m', (ensure_user_pages pt last page true).run m = .ok res m') := by
  have floor : mask_page last = last/4096*4096 := rfl
  have here : page/4096*4096 = page := by omega
  -- The induction is on the pages that are left.
  induction left : mask_page last-page using Nat.strongRec generalizing page m g with
  | ind size ih =>
    unfold ensure_user_pages
    rcases ensure_user_page_write pt good isRoot page with ⟨⟨full,shared⟩,m',failed⟩ | ⟨res,m',g',run,checks,result⟩
    · refine .inl ⟨?_,m',run_seq_error failed⟩
      rw [full,Set.ncard_pos (wanted_finite g _ _ _)]
      refine ⟨_,page/4096,le_refl _,by omega,by rw [here],shared,fun i low high => ?_⟩
      obtain rfl : i = page/4096 := by omega
      rw [here]
      exact shared_lets good pt shared
    rw [run_seq run]
    cases res with
    | error e =>
      refine .inr ⟨?_,.error e,m',rfl⟩
      rw [wanted_denied _ (by rw [here,lets_write good pt isRoot]; exact result),Set.ncard_empty]
      exact Nat.zero_le _
    | ok _ =>
      obtain ⟨writes,spent⟩ := result
      have isRoot' := (checks.acts.aside.roots _).mpr isRoot
      have same := Checks.lets pt good isRoot checks
      have first : Lets g pt.root true (pageOf (page/4096*4096)) := by
        obtain ⟨e,leaf,w⟩ := writes
        rw [here]
        exact (same _).mp ⟨e,leaf,.inl w⟩
      have step := @wanted_step _ _ _ _ (last/4096) (by rw [here]; exact spent) first same (by omega)
      dsimp only
      by_cases done : page ≥ mask_page last
      · rw [dif_pos done]
        refine .inr ⟨?_,.ok (),m',rfl⟩
        rw [wanted_past _ _ (show last/4096 < page/4096+1 by omega),Set.ncard_empty] at step
        omega
      · rw [dif_neg done]
        have next : (page+4096)/4096 = page/4096+1 := by omega
        have fewer : mask_page last-(page+4096) < size := by omega
        have order' : page+4096 ≤ mask_page last := by omega
        have less : ∃ n, mask_page last-(page+4096) = n := ⟨_,Eq.refl _⟩
        obtain ⟨n,less⟩ := less
        rw [less] at fewer
        have here' : (page+4096)/4096*4096 = page+4096 := by simp only [next,Nat.add_mul,here,Nat.one_mul]
        rcases ih n fewer checks.acts.good isRoot' (show (page+4096)%4096 = 0 by omega) order'
          here' less with ⟨short,failed⟩ | ⟨enough,rest⟩
        · rw [next] at short
          exact .inl ⟨by omega,failed⟩
        · rw [next] at enough
          exact .inr ⟨by omega,rest⟩

theorem wantedPages_eq (ptr len : Nat) :
    wantedPages m pt ptr len = wanted g pt.root (ptr/4096) ((ptr+(len-1))/4096) := by
  ext n
  constructor
  · rintro ⟨j,e,low,high,page,found,cow,many,all⟩
    have leaf := (userLeaf_iff good pt isRoot).mp found
    rw [refs_toNat good pt leaf] at many
    rw [page] at leaf
    refine ⟨j,low,high,page,⟨e,leaf,cow,many⟩,fun i lowI highI => ?_⟩
    obtain ⟨d,foundI,grants⟩ := all i lowI highI
    exact ⟨d,(userLeaf_iff good pt isRoot).mp foundI,grants⟩
  · rintro ⟨j,low,high,page,⟨e,leaf,cow,many⟩,all⟩
    rw [← refs_toNat good pt leaf] at many
    rw [← page] at leaf
    refine ⟨j,e,low,high,page,(userLeaf_iff good pt isRoot).mpr leaf,cow,many,fun i lowI highI => ?_⟩
    obtain ⟨d,leafI,grants⟩ := all i lowI highI
    exact ⟨d,(userLeaf_iff good pt isRoot).mpr leafI,grants⟩

theorem range_runs_out (ptr len : Nat) :
    (¬ RangeAffords m pt ptr len ∧
      ∃ m', (ensure_user_range pt ptr len true).run m = .error (.panic "COW: alloc_frame failed") m') ∨
    (RangeAffords m pt ptr len ∧ ∃ res m', (ensure_user_range pt ptr len true).run m = .ok res m') := by
  unfold RangeAffords ensure_user_range
  rw [wantedPages_eq good pt isRoot,freeFrames_eq good.mirrors.pool]
  by_cases empty : len = 0
  · rw [if_pos empty]
    exact .inr ⟨fun some_bytes => absurd empty some_bytes,.ok (),m,rfl⟩
  rw [if_neg empty]
  by_cases null : ptr = 0
  · rw [if_pos null]
    exact .inr ⟨fun _ some_ptr => absurd null some_ptr,.error (linux_error EFAULT),m,rfl⟩
  rw [if_neg null]
  cases added : checked_add ptr (len-1) with
  | none =>
    refine .inr ⟨fun _ _ bound => ?_,.error (linux_error EFAULT),m,rfl⟩
    rw [checked_add,if_pos bound] at added
    cases added
  | some last =>
    obtain ⟨sum,bound⟩ := checked_add_some added
    have floor : mask_page ptr = ptr/4096*4096 := rfl
    have order : mask_page ptr ≤ mask_page last := by
      simp only [mask_page]
      omega
    have start : mask_page ptr/4096 = ptr/4096 := by omega
    rcases ensure_user_pages_runs_out good pt isRoot (show mask_page ptr%4096 = 0 by omega) order with
      ⟨short,failed⟩ | ⟨enough,rest⟩
    · rw [start,← sum] at short
      exact .inl ⟨fun afford => absurd (afford empty null (by omega)) (by omega),failed⟩
    · rw [start,← sum] at enough
      exact .inr ⟨fun _ _ _ => enough,rest⟩

end

/-! ### Pages that are copied on their own -/

/-- There is a frame for the copy of a page that is copy-on-write and shared. -/
def CopyAffords (m : Mm) (pt : PageTable) (va : Nat) : Prop :=
  ∀ e, userLeaf m pt va = some e → is_cow e = true → 1 < (refsOf m (ppn_to_addr e)).toNat → 0 < freeFrames m

section
variable {exact : Bool} {base : Nat} {k : Kernel} {g : Ledger} {me : Process} (good : Good exact base k.mm g)
  (running : k.process_list k.current = some me) (isRoot : g.own me.page_table.root = .root)

include good in
/-- Whether there is a frame, on the ledger. -/
theorem copyAffords_iff (isRoot : g.own me.page_table.root = .root) (va : Nat) :
    CopyAffords k.mm me.page_table va ↔ (SharedCow g me.page_table.root (pageOf va) → 0 < room g) := by
  unfold CopyAffords
  rw [freeFrames_eq good.mirrors.pool]
  constructor
  · rintro afford ⟨e,leaf,cow,many⟩
    rw [← refs_toNat good me.page_table leaf] at many
    exact afford e ((userLeaf_iff good _ isRoot).mpr leaf) cow many
  · intro afford e found cow many
    have leaf := (userLeaf_iff good _ isRoot).mp found
    rw [refs_toNat good me.page_table leaf] at many
    exact afford ⟨e,leaf,cow,many⟩

include good in
theorem copy_runs_out {n entry : Nat} {e : PTEntry} {r : Nat} (leaf : UserLeaf g r n e) (cow : is_cow e = true)
    (slot : leafSlot (g.tree r) n = some entry) :
    (¬ (SharedCow g r n → 0 < room g) ∧
      ∃ t, (onMm (handle_cow_fault entry)).run k = .error (.panicked (.panic "COW: alloc_frame failed")) t) ∨
    ((SharedCow g r n → 0 < room g) ∧ ∃ m', (onMm (handle_cow_fault entry)).run k = .ok ⟨⟩ { k with mm := m' }) := by
  rcases handle_cow_fault_spec good leaf cow slot with ⟨⟨full,many⟩,failed⟩ | ⟨m',g',run,resolves⟩
  · refine .inl ⟨fun afford => ?_,k,?_⟩
    · have := afford ⟨e,leaf,cow,many⟩
      omega
    · rw [run_onMm]
      simp only [failed]
  · refine .inr ⟨fun shared => ?_,m',onMm_ok run⟩
    rcases (Resolves.spent resolves leaf cow).cost with ⟨_,less⟩ | ⟨own,_⟩
    · omega
    · exact absurd shared own

end

/-! ### Calls that return -/

/-- A run of kernel code that returns. -/
def Returns {α : Type} (x : K α) (k : Kernel) : Prop := ∃ a t, x.run k = .ok a t

section
variable {α β : Type} {x : K α} {f : α → K β} {k t : Kernel} {a : α}

theorem returns_seq (run : x.run k = .ok a t) : Returns (x >>= f) k ↔ Returns (f a) t := by
  unfold Returns
  rw [run_seq run]

theorem stops_seq {why : Diverge} (run : x.run k = .error why t) : ¬ Returns (x >>= f) k := by
  rintro ⟨b,s,ran⟩
  rw [run_seq_error run] at ran
  cases ran

theorem returns_unit {y : K Unit} : Returns y k ↔ ∃ t, y.run k = .ok ⟨⟩ t :=
  ⟨fun ⟨_,t,run⟩ => ⟨t,run⟩,fun ⟨t,run⟩ => ⟨⟨⟩,t,run⟩⟩

/-- Code that ends with a result. -/
theorem returns_then {y : K Unit} (result : α) : Returns (y >>= fun _ => pure result) k ↔ ∃ t, y.run k = .ok ⟨⟩ t := by
  constructor
  · rintro ⟨b,s,run⟩
    obtain ⟨_,t,first,_⟩ := bind_ok run
    exact ⟨t,first⟩
  · rintro ⟨t,run⟩
    exact ⟨result,t,by rw [run_seq run]; rfl⟩

end

/-- There are frames to have a buffer written, and the hart lets the kernel store to it. -/
def BufferAffords (k : Kernel) (pt : PageTable) (ptr len : Nat) : Prop :=
  RangeAffords k.mm pt ptr len ∧ (Accepts k.mm pt ptr len true → HartReaches k pt ptr len true)

theorem hartReaches_write {k : Kernel} {pt : PageTable} {ptr len : Nat} :
    HartReaches k pt ptr len true ↔ ∀ i, i < len → canonical (ptr+i) = true := by
  constructor
  · exact fun reaches i below => (reaches (ptr+i) (by omega) (by omega)).1
  · intro canon a low high
    have here := canon (a-ptr) (by omega)
    rw [Nat.add_sub_cancel' low] at here
    exact ⟨here,fun other => by cases other⟩

section
variable {exact : Bool} {base : Nat} {k : Kernel} {g : Ledger} {me : Process} (good : Good exact base k.mm g)
  (running : k.process_list k.current = some me) (isRoot : g.own me.page_table.root = .root)
  (home : root_of k.hart.satp = me.page_table.root)

include good running isRoot

/-- Code that has a range made writable and then stores to it. -/
theorem written_returns {ptr len : Nat} {f : Except Nat Unit → K Nat} (refuses : ∀ errno s, Returns (f (.error errno)) s)
    (stores : ∀ s g', s.hart = k.hart → Good exact base s.mm g' → (∀ i, i < len → Writes g' me.page_table.root (pageOf (ptr+i))) →
      (Returns (f (.ok ())) s ↔ ∀ i, i < len → canonical (ptr+i) = true)) :
    Returns (ensure_range ptr len true >>= f) k ↔ BufferAffords k me.page_table ptr len := by
  unfold BufferAffords
  rw [hartReaches_write]
  rcases range_runs_out good me.page_table isRoot ptr len with ⟨short,m',failed⟩ | ⟨afford,res,m',run⟩
  · refine iff_of_false ?_ fun both => short both.1
    have stops : (ensure_range ptr len true).run k = .error (.panicked (.panic "COW: alloc_frame failed")) { k with mm := m' } := by
      unfold ensure_range
      rw [run_seq (run_current running),run_onMm]
      simp only [failed]
    exact stops_seq stops
  · rw [returns_seq (run_ensure_range running run)]
    rcases range_cases good me.page_table isRoot ptr len true with ⟨_,_,_,failed⟩ | ⟨res',m1,g',ran,checks,decides,_,paid⟩
    · rw [run] at failed
      cases failed
    rw [run] at ran
    cases ran
    cases res with
    | error errno => exact iff_of_true (refuses errno _) ⟨afford,fun accepts => by cases decides.mpr accepts⟩
    | ok _ =>
      have writes : ∀ i, i < len → Writes g' me.page_table.root (pageOf (ptr+i)) := fun i below =>
        (paid rfl).2 rfl (by omega) (ptr+i) (by simp only [mask_page]; omega) (by omega)
      rw [stores { k with mm := m' } g' rfl checks.acts.good writes]
      exact ⟨fun canon => ⟨afford,fun _ => canon⟩,fun both => both.2 (decides.mp rfl)⟩

include home

omit good running isRoot in
/-- Stores to writable pages end exactly when the addresses are canonical. -/
theorem stores_end {s : Kernel} {g' : Ledger} (hart : s.hart = k.hart) (good' : Good exact base s.mm g') {body : Nat → K PUnit}
    {va len : Nat} (stores : StoresBytes body va) (writes : ∀ i, i < len → Writes g' me.page_table.root (pageOf (va+i))) :
    (∃ t, (forM (List.range' 0 len) body : K PUnit).run s = .ok ⟨⟩ t) ↔ ∀ i, i < len → canonical (va+i) = true := by
  rw [store_loop_iff good' (by rw [hart]; exact home) stores fun i below => (writes i below).there]
  exact ⟨fun all i below => (all i below).1,fun canon i below => ⟨canon i below,writes i below⟩⟩

theorem read_returns (fd buf len : Nat) :
    Returns (sys_read fd buf len) k ↔ (fd = 0 → BufferAffords k me.page_table buf len) := by
  unfold sys_read
  by_cases input : fd = 0
  · rw [if_neg (by simp [input]),written_returns good running isRoot (fun errno s => ⟨_,s,rfl⟩)]
    · simp [input]
    intro s g' hart good' writes
    rw [← stores_end home hart good' (read_loop_stores buf) writes]
    exact returns_then len
  · rw [if_pos input]
    exact iff_of_true ⟨_,k,rfl⟩ fun zero => absurd zero input

theorem getcwd_returns (buf size : Nat) :
    Returns (sys_getcwd buf size) k ↔ (2 ≤ size → BufferAffords k me.page_table buf 2) := by
  have two : (ascii "/" ++ [0] : List (BitVec 8)).length = 2 := by decide
  unfold sys_getcwd
  dsimp only
  rw [two]
  by_cases small : size < 2
  · rw [if_pos small]
    exact iff_of_true ⟨_,k,rfl⟩ fun large => absurd large (by omega)
  rw [if_neg small,written_returns good running isRoot (fun errno s => ⟨_,s,rfl⟩)]
  · exact ⟨fun affords _ => affords,fun all => all (by omega)⟩
  intro s g' hart good' writes
  rw [← two] at writes
  have ends := stores_end home hart good' (user_write_loop_stores buf (ascii "/" ++ [0])) writes
  rw [two] at ends
  rw [← ends]
  exact returns_then 2

omit good running isRoot in
/-- A field of `uname` in a range that can be written. -/
theorem field_ends {s : Kernel} {g' : Ledger} (hart : s.hart = k.hart) (good' : Good exact base s.mm g') {buf : Nat}
    (pages : ∀ i, i < UTS_SIZE → canonical (buf+i) = true ∧ Writes g' me.page_table.root (pageOf (buf+i))) {index : Nat}
    (inside : index < UTS_FIELDS) (value : List (BitVec 8)) :
    ∃ t, (write_uts_field buf index value).run s = .ok ⟨⟩ t ∧ t.hart = k.hart ∧ Good exact base t.mm g' := by
  have size : UTS_SIZE = 390 := rfl
  have place : index*UTS_FIELD_LEN = index*65 := rfl
  have fields : UTS_FIELDS = 6 := rfl
  have short : (value.take (UTS_FIELD_LEN-1)).length ≤ 64 := by
    rw [List.length_take]
    exact Nat.min_le_left _ _
  have here : ∀ i, i < (value.take (UTS_FIELD_LEN-1)).length → canonical (buf+index*UTS_FIELD_LEN+i) = true ∧
      Writes g' me.page_table.root (pageOf (buf+index*UTS_FIELD_LEN+i)) := by
    intro i below
    rw [Nat.add_assoc]
    exact pages (index*UTS_FIELD_LEN+i) (by omega)
  obtain ⟨t,run,same,after⟩ := store_loop_runs good' (by rw [hart]; exact home)
    (user_write_loop_stores (buf+index*UTS_FIELD_LEN) (value.take (UTS_FIELD_LEN-1))) here
  exact ⟨t,run,same.trans hart,after⟩

theorem uname_returns (buf : Nat) : Returns (sys_uname buf) k ↔ BufferAffords k me.page_table buf UTS_SIZE := by
  unfold sys_uname
  refine written_returns good running isRoot (fun errno s => ⟨_,s,rfl⟩) fun s g' hart good' writes => ?_
  have size : (List.replicate UTS_SIZE (0 : BitVec 8)).length = UTS_SIZE := List.length_replicate
  constructor
  · rintro ⟨r,t,run⟩ i below
    obtain ⟨_,s1,zeros,_⟩ := bind_ok run
    exact user_write_canonical zeros (by rw [size]; exact below)
  · intro canon
    have pages : ∀ i, i < UTS_SIZE → canonical (buf+i) = true ∧ Writes g' me.page_table.root (pageOf (buf+i)) :=
      fun i below => ⟨canon i below,writes i below⟩
    have whole : ∀ i, i < (List.replicate UTS_SIZE (0 : BitVec 8)).length → canonical (buf+i) = true ∧
        Writes g' me.page_table.root (pageOf (buf+i)) := by
      rw [size]
      exact pages
    obtain ⟨s1,run,same,good1⟩ := store_loop_runs good' (by rw [hart]; exact home)
      (user_write_loop_stores buf (List.replicate UTS_SIZE 0)) whole
    have field {s : Kernel} (hart : s.hart = k.hart) (good' : Good exact base s.mm g') {index : Nat} (inside : index < UTS_FIELDS)
        (value : List (BitVec 8)) := field_ends home hart good' pages inside value
    obtain ⟨s2,run2,hart2,good2⟩ := field (same.trans hart) good1 (show 0 < UTS_FIELDS by decide) (ascii "Unit00")
    obtain ⟨s3,run3,hart3,good3⟩ := field hart2 good2 (show 1 < UTS_FIELDS by decide) (ascii "unit00")
    obtain ⟨s4,run4,hart4,good4⟩ := field hart3 good3 (show 2 < UTS_FIELDS by decide) (ascii "0.1.0")
    obtain ⟨s5,run5,hart5,good5⟩ := field hart4 good4 (show 3 < UTS_FIELDS by decide) (ascii "oskernel-2026 stage-1")
    obtain ⟨s6,run6,hart6,good6⟩ := field hart5 good5 (show 4 < UTS_FIELDS by decide) (ascii "riscv64")
    obtain ⟨s7,run7,_⟩ := field hart6 good6 (show 5 < UTS_FIELDS by decide) (ascii "localdomain")
    refine ⟨0,s7,?_⟩
    dsimp only
    rw [run_seq (show (user_write buf (List.replicate UTS_SIZE 0)).run s = .ok ⟨⟩ s1 from run),run_seq run2,run_seq run3,
      run_seq run4,run_seq run5,run_seq run6,run_seq run7]
    rfl

theorem write_returns (fd buf len : Nat) :
    Returns (sys_write fd buf len) k ↔
      (fd = 1 ∨ fd = 2 → Accepts k.mm me.page_table buf len false → HartReaches k me.page_table buf len false) := by
  unfold sys_write
  by_cases other : fd ≠ 1 ∧ fd ≠ 2
  · rw [if_pos other]
    refine iff_of_true ⟨_,k,rfl⟩ ?_
    rintro (one | two)
    · exact absurd one other.1
    · exact absurd two other.2
  have mine : fd = 1 ∨ fd = 2 := by omega
  rw [if_neg other]
  rcases range_cases good me.page_table isRoot buf len false with ⟨short,_⟩ | ⟨res,m',g',ran,_,decides,silent,_⟩
  · exact absurd (fun other => by cases other) short
  obtain ⟨rfl,rfl⟩ := silent rfl
  rw [returns_seq (run_ensure_range running ran)]
  cases res with
  | error errno => exact iff_of_true ⟨_,_,rfl⟩ fun _ accepts => by cases decides.mpr accepts
  | ok _ =>
    have accepts := decides.mp rfl
    have loop := (returns_then (k := k) (y := write_loop buf len) len).trans (write_loop_iff buf len)
    have each : ∀ i, i < len → ((translate k.hart k.mm.mem .supervisor .load (buf+i)).isSome = true ↔
        canonical (buf+i) = true ∧
          (k.hart.reserved_fault = true → ∀ e, userLeaf k.mm me.page_table (buf+i) = some e → is_cow e = false)) := by
      intro i below
      have floor : mask_page buf ≤ buf := by simp only [mask_page]; omega
      have lets := ((accepts_iff good me.page_table isRoot buf len false).mp accepts).resolve_left (by omega)
      obtain ⟨e,leaf,readable⟩ := lets.2.2 (buf+i) (by omega) (by omega)
      have r : is_r e = true := readable
      have found := (userLeaf_iff good me.page_table isRoot).mpr leaf
      rw [translate_leaf good home leaf,found]
      simp only [Option.some.injEq,forall_eq']
      cases canonical (buf+i) <;> cases k.hart.reserved_fault <;> cases is_cow e <;> simp [permits,r]
    refine loop.trans ⟨fun all _ _ a low high => ?_,fun reaches i below => ?_⟩
    · have here := (each (a-buf) (by omega)).mp (all (a-buf) (by omega))
      rw [Nat.add_sub_cancel' low] at here
      exact ⟨here.1,fun _ => here.2⟩
    · obtain ⟨canon,clear⟩ := reaches mine accepts (buf+i) (by omega) (by omega)
      exact (each i below).mpr ⟨canon,clear rfl⟩

omit home

theorem brk_returns (pool : me.page_table.frame_alloc = alloc_frame) (bound : me.heap_end ≤ USER_HEAP_LIMIT) (new_break : Nat) :
    Returns (sys_brk new_break) k := by
  by_cases larger : new_break > me.heap_end
  · rcases sys_brk_grow good running isRoot pool larger with ⟨ran,_⟩ | ⟨_,res,_,_,_,_,_,_,ran⟩
    · exact ⟨_,_,ran⟩
    · cases res with
      | true => exact ⟨_,_,ran⟩
      | false => exact ⟨_,_,ran⟩
  · rcases sys_brk_shrink good running isRoot bound (Nat.le_of_not_lt larger) with ⟨ran,_⟩ | ⟨_,_,_,_,ran⟩
    · exact ⟨_,_,ran⟩
    · exact ⟨_,_,ran⟩

/-- Arguments of `mmap` that are refused, or a hint that can be rounded up. -/
def HintFits (addr len prot flags offset : Nat) : Prop :=
  Eager.mmapLength len prot flags offset ≠ none → addr ≠ 0 → addr+4096 < 2^64

theorem mmap_returns (pool : me.page_table.frame_alloc = alloc_frame) (tidy : Tidy me.mmap_areas) {prot : Nat} (bound : prot < 2^64)
    (addr len flags fd offset : Nat) :
    Returns (sys_mmap addr len prot flags fd offset) k ↔ HintFits addr len prot flags offset := by
  unfold HintFits
  rcases sys_mmap_cases addr len prot flags fd offset k with
    ⟨_,_,ran,refused⟩ | ⟨whole,pte_flags,length,aligned,_,accepted,goes⟩
  · exact iff_of_true ⟨_,_,ran⟩ fun asked => absurd refused asked
  have placed {choice : Option Nat} (chosen : choose_mmap_addr me.mmap_areas addr whole = .ok choice) :
      Returns (sys_mmap addr len prot flags fd offset) k := by
    unfold Returns
    rw [goes]
    rcases mmap_anonymous_cases good running isRoot pool bound aligned accepted chosen with ⟨ran,_⟩ |
      ⟨_,_,res,_,_,_,_,_,_,_,_,ran⟩
    · exact ⟨_,_,ran⟩
    · cases res with
      | true => exact ⟨_,_,ran⟩
      | false => exact ⟨_,_,ran⟩
  rcases Gaps.choose_cases me.mmap_areas addr whole with
    ⟨large,given,failed⟩ | ⟨small,_,_,_,chosen⟩ | ⟨_,small,chosen⟩ | ⟨_,small,chosen⟩
  · refine iff_of_false ?_ fun fits => absurd (fits (by rw [length]; simp) given) (by omega)
    rintro ⟨r,t,run⟩
    rw [goes,mmap_anonymous_panics running failed] at run
    cases run
  · exact iff_of_true (placed chosen) fun _ _ => small
  · exact iff_of_true (placed chosen) fun _ _ => small
  · obtain ⟨answer,found,_⟩ := Gaps.Tidy.lowest_gap tidy whole
    exact iff_of_true (placed (chosen.trans found)) fun _ given => (small.resolve_left given).1

theorem munmap_returns (addr len : Nat) : Returns (sys_munmap addr len) k := by
  unfold sys_munmap
  by_cases unaligned : addr &&& (PAGE_SIZE-1) ≠ 0
  · rw [if_pos unaligned]
    exact ⟨_,k,rfl⟩
  rw [if_neg unaligned]
  have aligned : addr%4096 = 0 := by
    rw [not_not] at unaligned
    rw [← unaligned]
    exact (Nat.and_two_pow_sub_one_eq_mod addr 12).symm
  cases rounded : checked_align_up len with
  | none => exact ⟨_,k,rfl⟩
  | some whole =>
    have pages := Records.checked_align_up_mod rounded
    dsimp only
    by_cases empty : whole = 0
    · rw [if_pos empty]
      exact ⟨_,k,rfl⟩
    rw [if_neg empty]
    cases added : checked_add addr whole with
    | none => exact ⟨_,k,rfl⟩
    | some stop =>
      dsimp only
      by_cases outside : addr < USER_MMAP_START ∨ stop > USER_MMAP_LIMIT
      · rw [if_pos outside]
        exact ⟨_,k,rfl⟩
      rw [if_neg outside]
      have sum := (checked_add_some added).1
      have limit : USER_MMAP_LIMIT = 0x3f000000 := rfl
      have order : addr < stop := by omega
      unfold munmap_range
      rw [returns_seq (run_current running)]
      cases split : can_split_mmap_range me.mmap_areas addr stop with
      | false => exact ⟨_,k,rfl⟩
      | true =>
        obtain ⟨m',_,cleared,_⟩ := unmap_user_pages_spec me.page_table good isRoot addr stop aligned (by omega) (by omega)
        obtain ⟨areas,removed,_⟩ := Munmap.remove_mmap_range_pointwise order ((Munmap.can_split_iff order).mp split)
        rw [if_neg (by simp),returns_seq (onMm_ok cleared),returns_seq (run_lift removed _),
          returns_seq (run_update_current (k := { k with mm := m' }) running _)]
        exact ⟨_,_,rfl⟩

end

/-! ### Waits -/

section
variable {exact : Bool} {base : Nat} {k : Kernel} {g : Ledger} {me : Process} (good : Good exact base k.mm g)
  (running : k.process_list k.current = some me) (isRoot : g.own me.page_table.root = .root)
  (home : root_of k.hart.satp = me.page_table.root)

include good running isRoot home

/-- A status word is stored exactly when its pointer is null or ready. -/
theorem status_returns {ptr : Nat} (status : StatusPage g me.page_table.root ptr) (code : Nat) :
    Returns (wait_status ptr code) k ↔ (ptr ≠ 0 → StatusReady k.mm me.page_table ptr) := by
  by_cases null : ptr = 0
  · refine iff_of_true ⟨⟨⟩,k,?_⟩ fun some_ptr => absurd null some_ptr
    unfold wait_status
    rw [if_neg (by simp [null])]
    rfl
  have bytes := status.resolve_left null
  have eight : (word_bytes (BitVec.ofNat 64 code)).length = 8 := by simp [word_bytes]
  have halves : Returns (wait_status ptr code) k ↔
      Returns (resolve_status ptr >>= fun _ => user_write ptr (word_bytes (BitVec.ofNat 64 code))) k := by
    unfold Returns
    rw [run_wait_status null]
  simp only [halves,ne_eq,null,not_false_eq_true,true_implies]
  rcases resolve_status_cases good running isRoot ptr with
    ⟨e,leaf,cow,full,many,err,t,failed⟩ | ⟨e,m',g',leaf,cow,run,resolves⟩ | ⟨plain,run⟩
  · refine iff_of_false (stops_seq failed) fun ready => ?_
    rw [← refs_toNat good me.page_table leaf] at many
    have some_frame := ready.2 e ((userLeaf_iff good me.page_table isRoot).mpr leaf) cow many
    rw [freeFrames_eq good.mirrors.pool] at some_frame
    omega
  · have there : ∀ i, i < (word_bytes (BitVec.ofNat 64 code)).length → UserPage g' me.page_table.root (pageOf (ptr+i)) := by
      intro i below
      by_cases first : pageOf (ptr+i) = pageOf ptr
      · rw [first]
        exact Writes.there resolves.writable
      · obtain ⟨d,other,_⟩ := bytes i (by omega)
        exact ⟨d,(resolves.aside.roots _).mpr isRoot,other.inside,by rw [resolves.rest _ first]; exact other.entry,other.valid,
          other.user⟩
    have loop := store_loop_iff (k := { k with mm := m' }) resolves.good home
      (user_write_loop_stores ptr (word_bytes (BitVec.ofNat 64 code))) there
    rw [returns_seq run,returns_unit,status_ready_resolved good me.page_table isRoot leaf cow resolves,← eight]
    exact loop
  · have there : ∀ i, i < (word_bytes (BitVec.ofNat 64 code)).length → UserPage g me.page_table.root (pageOf (ptr+i)) := by
      intro i below
      obtain ⟨d,leaf,_⟩ := bytes i (by omega)
      exact ⟨d,leaf⟩
    have loop := store_loop_iff good home (user_write_loop_stores ptr (word_bytes (BitVec.ofNat 64 code))) there
    rw [returns_seq run,returns_unit,status_ready_plain good me.page_table isRoot plain,← eight]
    exact loop

end

/-- A wait that finds a zombie. -/
theorem wait_returns {exact : Bool} {o : Origin} {k : Kernel} {g : Ledger} {me : Process} (inv : Inv exact o k g) (home : AtHome k)
    (running : k.process_list k.current = some me) (awake : me.state = .Running) {args : Fin 6 → Nat}
    (status : StatusPage g me.page_table.root (args 0)) {idx : Fin MAX_PROCESSES}
    (found : (List.finRange MAX_PROCESSES).find? (zombie_child k.process_list me.pid) = some idx) :
    (Returns (sys_wait (args 0)) k ↔ (args 0 ≠ 0 → StatusReady k.mm me.page_table (args 0))) ∧
      ∀ why t, (sys_wait (args 0)).run k = .error why t → Steps.Fatal why := by
  obtain ⟨child,code,slot,mine,dead⟩ := zombie_child_some (List.find?_some found)
  have isRoot := inv.link.root running (by rw [awake]; simp)
  have reaps : (sys_wait (args 0)).run k = (reap (args 0) idx).run k := by
    unfold sys_wait
    rw [run_seq (run_current running),run_seq (EStateM.run_get _)]
    dsimp only
    rw [found]
  rw [← status_returns inv.good running isRoot (home me running) status (exit_code child)]
  cases delivered : (wait_status (args 0) (exit_code child)).run k with
  | error why t =>
    have stops : (reap (args 0) idx).run k = .error why t := by
      unfold reap
      rw [run_seq (EStateM.run_get _),slot]
      exact run_seq_error delivered
    refine ⟨iff_of_false ?_ ?_,fun why' t' failed => ?_⟩
    · rintro ⟨r,s,run⟩
      rw [reaps,stops] at run
      cases run
    · rintro ⟨r,s,run⟩
      rw [delivered] at run
      cases run
    · rw [reaps,stops] at failed
      cases failed
      exact (quiet_wait_status _ _).error delivered
  | ok _ k1 =>
    obtain ⟨k',g',run,_⟩ := reap_goes inv home running awake status slot mine dead found delivered
    refine ⟨iff_of_true ⟨_,k',reaps.trans run⟩ ⟨_,k1,delivered⟩,fun why t failed => ?_⟩
    rw [reaps,run] at failed
    cases failed

/-! ### System calls -/

/-- What a system call needs to come back: frames for what the kernel insists on, buffers that the hart lets through, and a
    hint that can be rounded up. -/
def CallAffords (k : Kernel) (me : Process) (number : Nat) (args : Fin 6 → Nat) : Prop :=
  if number = SYS_GETCWD then 2 ≤ args 1 → BufferAffords k me.page_table (args 0) 2
  else if number = SYS_READ then args 0 = 0 → BufferAffords k me.page_table (args 1) (args 2)
  else if number = SYS_WRITE then
    args 0 = 1 ∨ args 0 = 2 → Accepts k.mm me.page_table (args 1) (args 2) false →
      HartReaches k me.page_table (args 1) (args 2) false
  else if number = SYS_UNAME then BufferAffords k me.page_table (args 0) UTS_SIZE
  else if number = SYS_MMAP then HintFits (args 0) (args 1) (args 2) (args 3) (args 5)
  else if number = SYS_FORK then
    emptySlot (procs k).slots = none ∨ (StackFits k.mm ∧ ForkFitsAll k.mm me.page_table)
  else if number = SYS_WAIT then
    zombieSlot (procs k).slots me.pid ≠ none → args 0 ≠ 0 → StatusReady k.mm me.page_table (args 0)
  else True

section
variable {exact : Bool} {o : Origin} {k : Kernel} {g : Ledger} {me : Process} {e : Event}
  (user : InUser exact o k g) (running : k.process_list k.current = some me) (awake : me.state = .Running)

include user running awake

theorem userLeaf_entered (ctx : Context) (scause stval : BitVec 64) (va : Nat) :
    userLeaf (entered ctx scause stval k me).mm me.page_table va = userLeaf k.mm me.page_table va := by
  obtain ⟨inv,_,slot,_,_⟩ := entered_inv user running awake ctx scause stval
  have isRoot := me_root user running awake
  ext e
  rw [userLeaf_iff inv.good me.page_table isRoot,userLeaf_iff user.inv.good me.page_table isRoot]

theorem freeFrames_entered (ctx : Context) (scause stval : BitVec 64) :
    freeFrames (entered ctx scause stval k me).mm = freeFrames k.mm := by
  obtain ⟨inv,_,_,_,_⟩ := entered_inv user running awake ctx scause stval
  rw [freeFrames_eq inv.good.mirrors.pool,freeFrames_eq user.inv.good.mirrors.pool]

omit user running awake in
theorem refsOf_entered (ctx : Context) (scause stval : BitVec 64) (f : Nat) :
    refsOf (entered ctx scause stval k me).mm f = refsOf k.mm f := rfl

omit user running awake in
theorem strict_entered (ctx : Context) (scause stval : BitVec 64) :
    (entered ctx scause stval k me).hart.reserved_fault = k.hart.reserved_fault := rfl

theorem accepts_entered (ctx : Context) (scause stval : BitVec 64) (ptr len : Nat) (write : Bool) :
    Accepts (entered ctx scause stval k me).mm me.page_table ptr len write ↔ Accepts k.mm me.page_table ptr len write := by
  unfold Accepts
  simp only [userLeaf_entered user running awake]

theorem hartReaches_entered (ctx : Context) (scause stval : BitVec 64) (ptr len : Nat) (write : Bool) :
    HartReaches (entered ctx scause stval k me) me.page_table ptr len write ↔ HartReaches k me.page_table ptr len write := by
  unfold HartReaches
  simp only [userLeaf_entered user running awake,strict_entered]

theorem bufferAffords_entered (ctx : Context) (scause stval : BitVec 64) (ptr len : Nat) :
    BufferAffords (entered ctx scause stval k me) me.page_table ptr len ↔ BufferAffords k me.page_table ptr len := by
  unfold BufferAffords RangeAffords wantedPages
  rw [accepts_entered user running awake,hartReaches_entered user running awake]
  simp only [userLeaf_entered user running awake,refsOf_entered,freeFrames_entered user running awake]

theorem statusReady_entered (ctx : Context) (scause stval : BitVec 64) (ptr : Nat) :
    StatusReady (entered ctx scause stval k me).mm me.page_table ptr ↔ StatusReady k.mm me.page_table ptr := by
  unfold StatusReady
  simp only [userLeaf_entered user running awake,refsOf_entered,freeFrames_entered user running awake]

/-- A call that schedules nothing returns exactly when it has what it needs. -/
theorem call_returns (tidy : Tidy me.mmap_areas) {number : Nat} {args : Fin 6 → Nat} (bounds : ∀ i, args i < 2^64) (ctx : Context)
    (returns : ¬ (number = SYS_EXIT ∨ number = SYS_EXIT_GROUP)) (not_fork : number ≠ SYS_FORK) (not_wait : number ≠ SYS_WAIT) :
    Returns (dispatch number args) (entered ctx 8 0 k me) ↔ CallAffords k me number args := by
  obtain ⟨inv,at_home,slot,_,_⟩ := entered_inv user running awake ctx 8 0
  have there : (stopped ctx 8 0 me).state ≠ .Gone := by
    rw [show (stopped ctx 8 0 me).state = me.state from rfl,awake]
    simp
  have good := inv.good
  have isRoot := inv.link.root slot there
  have pool := inv.link.pool slot there
  have home := at_home _ slot
  have bound := (inv.heaps _ _ slot).2
  have table : (stopped ctx 8 0 me).page_table = me.page_table := rfl
  unfold dispatch CallAffords
  by_cases getcwd : number = SYS_GETCWD
  · rw [if_pos getcwd,if_pos getcwd,getcwd_returns good slot isRoot home,table,bufferAffords_entered user running awake]
  rw [if_neg getcwd,if_neg getcwd]
  by_cases reads : number = SYS_READ
  · rw [if_pos reads,if_pos reads,read_returns good slot isRoot home,table,bufferAffords_entered user running awake]
  rw [if_neg reads,if_neg reads]
  by_cases writes : number = SYS_WRITE
  · rw [if_pos writes,if_pos writes,write_returns good slot isRoot home,table,accepts_entered user running awake,
      hartReaches_entered user running awake]
  rw [if_neg writes,if_neg writes,if_neg returns]
  by_cases uname : number = SYS_UNAME
  · rw [if_pos uname,if_pos uname,uname_returns good slot isRoot home,table,bufferAffords_entered user running awake]
  rw [if_neg uname,if_neg uname]
  by_cases mmap : number = SYS_MMAP
  · subst mmap
    rw [if_neg (by decide),if_neg (by decide),if_neg (by decide),if_neg (by decide),if_neg (by decide),if_neg (by decide),
      if_neg not_fork,if_neg (by decide),if_pos rfl,if_pos rfl]
    exact mmap_returns good slot isRoot pool tidy (bounds 2) _ _ _ _ _
  rw [if_neg mmap,if_neg mmap,if_neg not_fork,if_neg not_fork,if_neg not_wait,if_neg not_wait]
  refine iff_of_true ?_ trivial
  have asked (f : Process → Nat) : Returns (do return f (← current)) (entered ctx 8 0 k me) :=
    (returns_seq (run_current slot)).mpr ⟨_,_,rfl⟩
  have number' (r : Nat) : Returns (pure r) (entered ctx 8 0 k me) := ⟨r,_,rfl⟩
  split_ifs
  · exact munmap_returns good slot isRoot _ _
  · exact asked _
  · exact asked _
  · exact number' _
  · exact asked _
  · exact brk_returns good slot isRoot pool bound _
  · exact (returns_seq (run_update_current slot _)).mpr ⟨_,_,rfl⟩
  · exact number' _

end

/-! ### Steps that come back -/

/-- The running process ends: it exits, or it takes a page fault that the kernel does not resolve. -/
def Ending (k : Kernel) (e : Event) : Prop := Calls e SYS_EXIT ∨ Calls e SYS_EXIT_GROUP ∨ Kills k e

/-- The step comes back to user mode, or the process ends and the machine shuts down. -/
def Goes (k : Kernel) (e : Event) : Prop :=
  (∃ k', step e k = .user k') ∨ (Ending k e ∧ ∃ t, step e k = .halted .shutdown t)

/-- The machine stops in the kernel. -/
def Stops (k : Kernel) (e : Event) : Prop := ∃ why t, step e k = .halted why t ∧ why ≠ .shutdown

theorem stops_not_goes {k : Kernel} {e : Event} (stops : Stops k e) : ¬ Goes k e := by
  obtain ⟨why,t,run,other⟩ := stops
  rintro (⟨k',back⟩ | ⟨_,t',shut⟩)
  · rw [run] at back
    cases back
  · rw [run] at shut
    cases shut
    exact other rfl

section
variable {exact : Bool} {o : Origin} {k : Kernel} {g : Ledger} {me : Process} {e : Event}
  (user : InUser exact o k g) (running : k.process_list k.current = some me) (awake : me.state = .Running)

include user running awake

theorem call_stops (call : e.action = .ecall) {why : Diverge} {t : Kernel} (run : callRun e k me = .error why t)
    (fatal : Steps.Fatal why) : Stops k e := by
  refine ⟨why,t,call_halt user running awake call run ?_,?_⟩
  · rintro sp rfl
    exact fatal
  · rintro rfl
    exact fatal

/-- A call that schedules nothing comes back exactly when it has what it needs. -/
theorem call_goes (tidy : Tidy me.mmap_areas) (call : e.action = .ecall)
    (returns : ¬ ((e.ctx.regs 17).toNat = SYS_EXIT ∨ (e.ctx.regs 17).toNat = SYS_EXIT_GROUP))
    (not_fork : (e.ctx.regs 17).toNat ≠ SYS_FORK) (not_wait : (e.ctx.regs 17).toNat ≠ SYS_WAIT) :
    (CallAffords k me (e.ctx.regs 17).toNat (argument e) ∧ ∃ k', step e k = .user k') ∨
    (¬ CallAffords k me (e.ctx.regs 17).toNat (argument e) ∧ Stops k e) := by
  have bounds : ∀ i, argument e i < 2^64 := fun i => BitVec.isLt _
  rw [← call_returns user running awake tidy bounds e.ctx returns not_fork not_wait]
  cases run : callRun e k me with
  | ok r t => exact .inl ⟨⟨r,t,run⟩,call_ok user running awake call run⟩
  | error why t =>
    refine .inr ⟨?_,call_stops user running awake call run ((dispatch_quiet _ returns not_fork not_wait).error run)⟩
    rintro ⟨r,t',ran⟩
    rw [show callRun e k me = .ok r t' from ran] at run
    cases run

omit user awake in
/-- When a process waits for a child that lives, there is a process to go on with. -/
theorem block_picks (sound : Lifecycle.Sound (procs k)) {i : Fin MAX_PROCESSES} {child : Header}
    (slot : (procs k).slots i = some child) (mine : child.parent_pid = me.pid) (live : Live child) :
    ∃ j, nextSlot (blockSlots (procs k) (header me)) k.current = some j := by
  have table : slots (blocked k me).process_list = blockSlots (procs k) (header me) := by
    show slots (Function.update _ _ _) = _
    rw [slots_update]
    rfl
  cases picked : nextSlot (blockSlots (procs k) (header me)) k.current with
  | some j => exact ⟨j,rfl⟩
  | none =>
    exfalso
    rw [← table,← pick_next_eq] at picked
    have idle : ∀ j h, blockSlots (procs k) (header me) j = some h → h.state ≠ .Ready := by
      intro j h here
      rw [← table] at here
      obtain ⟨p,slotP,rfl⟩ := slots_inv here
      exact pick_next_none picked j slotP
    have asleep : blockSlots (procs k) (header me) (procs k).current = some { header me with state := .Blocked } :=
      Function.update_self ..
    rcases Lifecycle.stuck_dead sound (.block (slots_some running) slot mine live idle) _ _ asleep with ⟨code,dead⟩ | gone
    · cases dead
    · cases gone

/-- A wait comes back exactly when the status word of the zombie that it finds can be stored. -/
theorem wait_goes (sound : Lifecycle.Sound (procs k)) (waits : WaitsWell k e) (calls : Calls e SYS_WAIT) :
    (CallAffords k me SYS_WAIT (argument e) ∧ ∃ k', step e k = .user k') ∨
    (¬ CallAffords k me SYS_WAIT (argument e) ∧ Stops k e) := by
  have affords : CallAffords k me SYS_WAIT (argument e) ↔ (zombieSlot (procs k).slots me.pid ≠ none → argument e 0 ≠ 0 →
      StatusReady k.mm me.page_table (argument e 0)) := Iff.rfl
  rw [affords]
  obtain ⟨inv,home,slot,_,_⟩ := entered_inv user running awake e.ctx 8 0
  have runs : callRun e k me = (sys_wait (argument e 0)).run (entered e.ctx 8 0 k me) := callRun_wait calls
  cases found : zombieSlot (procs k).slots me.pid with
  | some idx =>
    have status := (statusPointer_iff user.inv.good me.page_table (me_root user running awake)).mp (waits calls me running)
    obtain ⟨iff,fatal⟩ := wait_returns inv home slot (show (stopped e.ctx 8 0 me).state = .Running from awake) status
      (found_entered running e.ctx found)
    have ready : StatusReady (entered e.ctx 8 0 k me).mm (stopped e.ctx 8 0 me).page_table (argument e 0) ↔
        StatusReady k.mm me.page_table (argument e 0) := statusReady_entered user running awake e.ctx 8 0 _
    simp only [ne_eq,reduceCtorEq,not_false_eq_true,true_implies]
    rw [ready] at iff
    rw [← iff]
    cases run : callRun e k me with
    | ok r t =>
      rw [runs] at run
      exact .inl ⟨⟨r,t,run⟩,call_ok user running awake calls.1 (runs.trans run)⟩
    | error why t =>
      refine .inr ⟨?_,call_stops user running awake calls.1 run (fatal why t (runs.symm.trans run))⟩
      rintro ⟨r,t',ran⟩
      rw [runs,ran] at run
      cases run
  | none =>
    refine .inl ⟨fun some_child => absurd rfl some_child,?_⟩
    by_cases some_live : ∃ i child, (procs k).slots i = some child ∧ child.parent_pid = me.pid ∧ Live child
    · obtain ⟨i,child,slotC,mine,live⟩ := some_live
      obtain ⟨j,picked⟩ := block_picks running sound slotC mine live
      exact wait_blocks user running awake calls found slotC mine live picked
    · have nobody : ¬ (List.finRange MAX_PROCESSES).any (live_child (entered e.ctx 8 0 k me).process_list me.pid) = true := by
        intro some_child
        obtain ⟨i,_,isLive⟩ := List.any_eq_true.mp some_child
        obtain ⟨child,slotC,mine,live⟩ := live_child_some isLive
        have headers := slots_some slotC
        rw [slots_entered running] at headers
        exact some_live ⟨i,header child,headers,mine,live⟩
      have find : (List.finRange MAX_PROCESSES).find? (zombie_child (entered e.ctx 8 0 k me).process_list me.pid) = none := by
        rw [zombie_child_eq,slots_entered running]
        exact found
      refine call_ok user running awake calls.1 (r := linux_error ECHILD) (t := entered e.ctx 8 0 k me) ?_
      rw [runs]
      unfold sys_wait
      rw [run_seq (run_current slot),run_seq (EStateM.run_get _)]
      dsimp only
      rw [show (stopped e.ctx 8 0 me).pid = me.pid from rfl,find]
      dsimp only
      rw [if_neg nobody]
      rfl

theorem exit_ends (exits : Calls e SYS_EXIT ∨ Calls e SYS_EXIT_GROUP) : Goes k e := by
  cases picked : nextSlot (dieSlots (procs k) (header me) (argument e 0)) k.current with
  | some j => exact .inl (exit_goes user running awake exits picked)
  | none => exact .inr ⟨exits.elim .inl fun group => .inr (.inl group),exit_stops user running awake exits picked⟩

end

section
variable {o : Origin} {k : Kernel} {g : Ledger} {me : Process} {e : Event}
  (user : InUser false o k g) (running : k.process_list k.current = some me) (awake : me.state = .Running)

include user running awake

/-- A store comes back exactly when there is a frame for the copy that it needs. -/
theorem store_goes {va : BitVec 64} {value : BitVec 8} (store : e.action = .store va value) :
    (CopyAffords k.mm me.page_table va.toNat ∧ Goes k e) ∨ (¬ CopyAffords k.mm me.page_table va.toNat ∧ Stops k e) := by
  have isRoot := me_root user running awake
  rw [copyAffords_iff user.inv.good isRoot]
  cases place : translate k.hart k.mm.mem .user .store va.toNat with
  | some pa =>
    obtain ⟨d,leaf,permitted,_,_⟩ := translate_user user.inv.good isRoot (user.home me running) place
    rw [permits,Bool.and_eq_true] at permitted
    have w : is_w d = true := permitted.1
    have silent : trapOf k e = none := by
      unfold trapOf
      simp [store,place]
    refine .inl ⟨?_,.inl ⟨accessed k e,?_⟩⟩
    · rintro ⟨d',leaf',cow,_⟩
      rw [leaf'.unique leaf] at cow
      rw [((user.inv.good.sound.shape leaf).cow cow).2] at w
      cases w
    · rw [step_eq,silent]
  | none =>
    have traps : trapOf k e = some (15,va) := by
      unfold trapOf
      simp [store,place]
    obtain ⟨inv,_,slot,_,_⟩ := entered_inv user running awake e.ctx 15 va
    have handler := run_trap_handler user running awake e.ctx 15 va
    rw [if_neg (by decide),if_neg (by decide),if_pos (by simp)] at handler
    by_cases cow : CowPage g me.page_table.root (pageOf va.toNat)
    · rcases cow_entry_spec inv.good (stopped e.ctx 15 va me).page_table isRoot va.toNat with
        ⟨d,entry,leaf,marked,found_slot,found⟩ | ⟨absent,_⟩
      · have fault : (page_fault_handler 15 va).run (entered e.ctx 15 va k me) =
            (onMm (handle_cow_fault entry) >>= fun _ => pure 0).run (entered e.ctx 15 va k me) := by
          unfold page_fault_handler
          dsimp only
          rw [if_neg (by decide),run_seq (run_current slot),run_seq (onMm_ok (k := entered e.ctx 15 va k me) found)]
        rcases copy_runs_out inv.good leaf marked found_slot with ⟨short,t,failed⟩ | ⟨afford,m',run⟩
        · refine .inr ⟨short,.panicked (.panic "COW: alloc_frame failed"),t,?_,by simp⟩
          rw [step_eq,traps]
          exact trap_halt (handler.trans (fault.trans (run_seq_error failed))) (by simp)
        · refine .inl ⟨afford,.inl ?_⟩
          rw [step_eq,traps]
          exact trap_ok (handler.trans (fault.trans (run_seq run)))
      · exact absurd cow absent
    · have killed : Kills k e := by
        unfold Kills
        rw [visible_trap user running awake traps,asked]
        rw [if_neg (by decide),if_neg (by decide),if_neg fun both => cow both.2]
      refine .inl ⟨?_,?_⟩
      · rintro ⟨d,leaf,marked,_⟩
        exact absurd ⟨d,leaf,marked⟩ cow
      have faults : Segfaults (trap_entry e.ctx 15 va k) me 15 va := by
        refine .inr (.inr ⟨rfl,?_⟩)
        rintro ⟨entry,found⟩
        rcases cow_entry_spec inv.good me.page_table isRoot va.toNat with ⟨d,_,leaf,marked,_⟩ | ⟨_,none⟩
        · exact cow ⟨d,leaf,marked⟩
        · rw [show (trap_entry e.ctx 15 va k).mm = (entered e.ctx 15 va k me).mm from rfl,none] at found
          cases found
      obtain ⟨output,dies⟩ := Exits.fault_handler user running awake faults
      obtain ⟨_,_,_,synced,_⟩ := entered_inv user running awake e.ctx 15 va
      obtain ⟨cur,here,_⟩ := ended_synced inv slot (show (stopped e.ctx 15 va me).state = .Running from awake) synced
        (entered e.ctx 15 va k me).mm (fun _ _ _ _ _ => rfl) output 1
      unfold Goes
      rw [step_eq,traps]
      rcases schedule_cases here with ⟨shut,_⟩ | ⟨_,_,goes,_⟩
      · exact .inr ⟨.inr (.inr killed),_,trap_halt (dies.trans (shut Nat)) (by simp)⟩
      · exact .inl (trap_restore (dies.trans (goes Nat)))

end

/-! ### What should hold of a step -/

/-- The step does what the reference system does: the process table, the images of the living processes and the console
    input are the same after it. -/
def Completes (k : Kernel) (e : Event) (k' : Kernel) : Prop :=
  ∃ w, Follows (worldOf k) (visible k e) w ∧ w.procs = procs k' ∧ w.input = k'.input ∧
    ∀ i p, k'.process_list i = some p → Live (header p) → w.image i = imageAt k'.mm p

/-- A fork makes a whole child in the first empty slot, or it fails and leaves the processes, their pages and all reference
    counts alone. -/
def WholeOrNothing (k k' : Kernel) (me : Process) (result : Option Nat) : Prop :=
  (∃ i child, emptySlot (procs k).slots = some i ∧ k'.process_list i = some child ∧ child.pid = k.next_pid ∧
    result = some k.next_pid ∧ ForkComplete k k' me.page_table child.page_table) ∨
  ((∃ errno, 0 < errno ∧ errno ≤ 4095 ∧ result = some (linux_error errno)) ∧ procs k' = procs k ∧
    k'.mm.frame_refs = k.mm.frame_refs ∧ ∀ i p, k.process_list i = some p → p.state ≠ .Gone → ∀ va,
      userLeaf k'.mm p.page_table va = userLeaf k.mm p.page_table va)

/-- What a call returned, and the image of its caller: the call did its work, or it was denied memory, said so and left the
    image alone. -/
def Answers (k : Kernel) (me : Process) (e : Event) (k' : Kernel) : Prop :=
  ∃ r q, answer e.ctx 8 0 k = some r ∧ k'.process_list k.current = some q ∧
    (imageAt k'.mm q = (Eager.call true (e.ctx.regs 17).toNat (argument e) (imageAt k.mm me) k.input).1 ∨
      Denied (e.ctx.regs 17).toNat (argument e) (imageAt k.mm me) k.input r ∧ imageAt k'.mm q = imageAt k.mm me)

/-- A step does what it should to the running process and nothing to the others. -/
structure Spared (k : Kernel) (me : Process) (e : Event) (k' : Kernel) : Prop where
  completes : Completes k e k'
  others : ∀ i p, i ≠ k.current → k.process_list i = some p → Live (header p) →
    ∃ q, k'.process_list i = some q ∧ q.pid = p.pid ∧ Live (header q) ∧ imageAt k'.mm q = imageAt k.mm p
  mine : ¬ Ending k e → ∃ q, k'.process_list k.current = some q ∧ q.pid = me.pid ∧ Live (header q)
  forked : Calls e SYS_FORK → WholeOrNothing k k' me (answer e.ctx 8 0 k)
  answered : e.action = .ecall → ¬ Ending k e → ¬ Calls e SYS_FORK → ¬ Calls e SYS_WAIT → Answers k me e k'

/-- The kernel prints or reads in the step: for a write or a read that it accepts, or when it reports a fault. -/
def UsesConsole (k : Kernel) (me : Process) (e : Event) : Prop :=
  Kills k e ∨
  (Calls e SYS_WRITE ∧ (argument e 0 = 1 ∨ argument e 0 = 2) ∧ argument e 2 ≠ 0 ∧
    Accepts k.mm me.page_table (argument e 1) (argument e 2) false) ∨
  (Calls e SYS_READ ∧ argument e 0 = 0 ∧ argument e 2 ≠ 0 ∧ Accepts k.mm me.page_table (argument e 1) (argument e 2) true)

/-- The kernel reaches the registers of the console through the page table that it runs on. -/
def ConsoleMapped (k : Kernel) : Prop :=
  ∀ a, UART0 ≤ a → a < UART0+8 → (translate k.hart k.mm.mem .supervisor .load a).isSome ∧
    (translate k.hart k.mm.mem .supervisor .store a).isSome

/-- What should hold of a step however few frames are left: it comes back, having done what it should to the running process
    and nothing to the others; or the last process that could run has ended, and the machine shuts down. -/
structure Survives (k : Kernel) (me : Process) (e : Event) : Prop where
  back : (∃ k', step e k = .user k' ∧ Spared k me e k') ∨
    (Ending k e ∧ (∃ t, step e k = .halted .shutdown t) ∧
      ∀ i p, i ≠ k.current → k.process_list i = some p → ¬ Live (header p))
  console : UsesConsole k me e → ConsoleMapped k

/-- What a step needs: what its call or its store needs, and the console when it is used. -/
structure Affords (k : Kernel) (me : Process) (e : Event) : Prop where
  call : e.action = .ecall → CallAffords k me (e.ctx.regs 17).toNat (argument e)
  copy : ∀ va value, e.action = .store va value → CopyAffords k.mm me.page_table va.toNat
  console : UsesConsole k me e → ConsoleMapped k

section
variable {w w' : Eager.World} {act : Eager.Action} {h : Header}

/-- Only an exit and a fault end the running process of the reference system. -/
theorem reference_stays (goes : Eager.Step w act w') (running : w.procs.slots w.procs.current = some h) (awake : h.state = .Running)
    (not_killed : act ≠ .killed)
    (returns : ∀ number args, act = .call number args → ¬ (number = SYS_EXIT ∨ number = SYS_EXIT_GROUP)) :
    ∃ h', w'.procs.slots w.procs.current = some h' ∧ h'.pid = h.pid ∧ Live h' := by
  have live : Live h := .inr (.inl awake)
  have same : ∃ h', w.procs.slots w.procs.current = some h' ∧ h'.pid = h.pid ∧ Live h' := ⟨h,running,rfl,live⟩
  cases goes with
  | store => exact same
  | call => exact same
  | full => exact same
  | childless => exact same
  | killed => exact absurd rfl not_killed
  | exit exits => exact absurd exits (returns _ _ rfl)
  | @fork _ _ i _ free =>
    have other : w.procs.current ≠ i := by
      rintro rfl
      exact live_not_gone live (free h running)
    exact ⟨h,(Function.update_of_ne other _ _).trans running,rfl,live⟩
  | reap reaps =>
    cases reaps with
    | @reap _ child i code _ slot _ dead =>
      have other : w.procs.current ≠ i := by
        rintro rfl
        rw [running,Option.some.injEq] at slot
        rw [slot,dead] at awake
        cases awake
      exact ⟨h,(Function.update_of_ne other _ _).trans running,rfl,live⟩
  | block blocks =>
    cases blocks with
    | @block me _ next _ j here _ _ _ _ chosen _ =>
      obtain rfl : h = me := Option.some.inj (running.symm.trans here)
      have asleep : blockSlots w.procs h w.procs.current = some { h with state := .Blocked } := Function.update_self ..
      obtain ⟨h',slot,pid,still⟩ := Bystanders.switch_live (s := w.procs) asleep (.inr (.inr rfl)) chosen
      exact ⟨h',slot,pid,still⟩

end

section
variable {o : Origin} {k k' : Kernel} {g : Ledger} {me : Process} {e : Event}
  (user : InUser false o k g) (running : k.process_list k.current = some me) (awake : me.state = .Running)

include user running awake

/-- A fork into a full table changes nothing that a process sees. -/
theorem full_completes (calls : Calls e SYS_FORK) (full : emptySlot (procs k).slots = none) (run : step e k = .user k') :
    Completes k e k' ∧ WholeOrNothing k k' me (answer e.ctx 8 0 k) := by
  have waits : WaitsWell k e := fun other => by
    have both := calls.2.symm.trans other.2
    cases both
  obtain ⟨inv,_,_,_,_⟩ := entered_inv user running awake e.ctx 8 0
  obtain ⟨r,kh,g',next,handled,_,rfl,result,after,spaces⟩ := call_handled user running awake calls.1 waits (by simp) run
  have no_slot : find_empty_slot (entered e.ctx 8 0 k me).process_list = none := by
    rw [find_empty_slot_eq,slots_entered running]
    exact full
  have begun := (worldOf_agrees user.inv).entered user running awake e.ctx 8 0
  have seen : visible k e = some (.call SYS_FORK (argument e)) := by
    have traps : trapOf k e = some (8,0) := by
      unfold trapOf
      rw [calls.1]
    rw [visible_trap user running awake traps,asked,if_neg (by decide),if_pos rfl,callOf,calls.2]
    rfl
  unfold callOf at handled
  rw [calls.2] at handled
  cases handled with
  | call _ not_fork _ _ => exact absurd rfl not_fork
  | exit exits => exact absurd exits (by decide)
  | fork free _ =>
    rw [no_slot] at free
    cases free
  | full none =>
    have agrees := begun.memory inv (leaving_rest (some (linux_error EAGAIN)) (next.kernel_sp-TrapFrame.SIZE) _).1
      (procs_leaving _ _ _) (leaving_rest _ _ _).2 spaces
    refine ⟨⟨worldOf k,?_,agrees.procs,agrees.input,fun i p slot live => ?_⟩,
      .inr ⟨⟨EAGAIN,by decide,by decide,result⟩,?_,?_,?_⟩⟩
    · rw [seen]
      refine .full fun i => ?_
      cases slot : (procs k).slots i with
      | none =>
        have kind := List.find?_eq_none.mp full i (List.mem_finRange i)
        simp [slot] at kind
      | some h =>
        have kind := List.find?_eq_none.mp full i (List.mem_finRange i)
        exact ⟨h,slot,by simpa [slot] using kind⟩
    · rw [imageAt_eq after.inv slot (live_there live)]
      exact agrees.images i p slot live
    · rw [procs_leaving,procs_entered running]
    · unfold leaving trap_exit_restore trap_return
      dsimp only
      split <;> rfl
    · intro i p slot there va
      have isRoot := user.inv.link.root slot there
      ext d
      rw [userLeaf_iff after.inv.good p.page_table isRoot,userLeaf_iff user.inv.good p.page_table isRoot]

theorem step_completes (waits : WaitsWell k e) (affords : Affords k me e) (run : step e k = .user k') : Completes k e k' := by
  by_cases full : Calls e SYS_FORK ∧ emptySlot (procs k).slots = none
  · exact (full_completes user running awake full.1 full.2 run).1
  have forks : ForksWell k e := by
    intro calls p here
    obtain rfl : p = me := Option.some.inj (here.symm.trans running)
    have need := affords.call calls.1
    rw [calls.2] at need
    obtain ⟨_,fits⟩ := need.resolve_left fun none => full ⟨calls,none⟩
    have isRoot := me_root user running awake
    exact (forkFits_iff user.inv.good _ isRoot).mpr
      (fits_users user.inv.good ((forkFitsAll_iff user.inv.good _ isRoot).mp fits))
  obtain ⟨g',after,follows⟩ := step_user user running awake waits (by simp) run
  obtain ⟨w,next,agrees⟩ := follows (worldOf k) (worldOf_agrees user.inv) forks
  refine ⟨w,next,agrees.procs,agrees.input,fun i p slot live => ?_⟩
  rw [imageAt_eq after.inv slot (live_there live)]
  exact agrees.images i p slot live

omit user in
/-- A process that does not end stays. -/
theorem step_stays (completes : Completes k e k') (lives : ¬ Ending k e) :
    ∃ q, k'.process_list k.current = some q ∧ q.pid = me.pid ∧ Live (header q) := by
  obtain ⟨w,follows,same,_,_⟩ := completes
  have stays : ∃ h', w.procs.slots k.current = some h' ∧ h'.pid = me.pid ∧ Live h' := by
    have here : (worldOf k).procs.slots (worldOf k).procs.current = some (header me) := slots_some running
    cases seen : visible k e with
    | none =>
      rw [seen] at follows
      have idle : w = worldOf k := follows
      rw [idle]
      exact ⟨header me,here,rfl,.inr (.inl awake)⟩
    | some act =>
      rw [seen] at follows
      refine reference_stays follows here awake (fun killed => lives (.inr (.inr (by rw [Kills,seen,killed])))) ?_
      rintro number args rfl (exits | group)
      · rw [exits] at seen
        exact lives (.inl (visible_call seen).1)
      · rw [group] at seen
        exact lives (.inr (.inl (visible_call seen).1))
  rw [same] at stays
  obtain ⟨h',slot,pid,live⟩ := stays
  obtain ⟨q,slotQ,rfl⟩ := slots_inv slot
  exact ⟨q,slotQ,pid,live⟩

/-- The others live on in their slots with the images that they had. -/
theorem step_others (sound : Lifecycle.Sound (procs k)) (waits : WaitsWell k e) (run : step e k = .user k') {i : Fin MAX_PROCESSES}
    {p : Process} (other : i ≠ k.current) (slot : k.process_list i = some p) (live : Live (header p)) :
    ∃ q, k'.process_list i = some q ∧ q.pid = p.pid ∧ Live (header q) ∧ imageAt k'.mm q = imageAt k.mm p := by
  have ends := step_ends running e
  rw [run] at ends
  obtain ⟨label,goes⟩ := ends
  obtain ⟨h,slotH,pid,liveH⟩ := Bystanders.step_live sound goes (slots_some slot) live other
  obtain ⟨q,slotQ,rfl⟩ := slots_inv slotH
  exact ⟨q,slotQ,pid,liveH,Bystanders.step_image user running awake slot live other slotQ liveH waits run⟩

/-- A fork makes a whole child exactly when the table is full or there are frames for all of it. -/
theorem fork_whole (calls : Calls e SYS_FORK) (run : step e k = .user k') :
    WholeOrNothing k k' me (answer e.ctx 8 0 k) ↔ CallAffords k me SYS_FORK (argument e) := by
  have affords : CallAffords k me SYS_FORK (argument e) ↔
      emptySlot (procs k).slots = none ∨ (StackFits k.mm ∧ ForkFitsAll k.mm me.page_table) := Iff.rfl
  rw [affords]
  cases free : emptySlot (procs k).slots with
  | none => exact iff_of_true (full_completes user running awake calls free run).2 (.inl rfl)
  | some i =>
    obtain ⟨child,slot,result,pid,whole⟩ := fork_reports user running awake calls (by simp) run free
    have fits : StackFits k.mm := by
      rcases fork_cases user running awake calls with ⟨_,none | fits⟩ | ⟨⟨p,t,_,stops⟩,_⟩
      · rw [free] at none
        cases none
      · exact fits
      · rw [run] at stops
        cases stops
    constructor
    · rintro (⟨j,child',free',slot',_,_,complete⟩ | ⟨_,same,_⟩)
      · rw [free,Option.some.injEq] at free'
        subst free'
        obtain rfl : child = child' := Option.some.inj (slot.symm.trans slot')
        exact .inr ⟨fits,whole.mp complete⟩
      · obtain ⟨_,_,_,_,_,_,after,_⟩ := fork_next user running awake calls (by simp) run free
        rw [after] at same
        have pids := congrArg System.next_pid same
        have more : k.next_pid+1 = k.next_pid := pids
        omega
    · rintro (none | ⟨_,all⟩)
      · cases none
      · exact .inl ⟨i,child,free,slot,pid,by rw [result,pid],whole.mpr all⟩

/-- A call that comes back answers its caller. -/
theorem call_answers (call : e.action = .ecall)
    (returns : ¬ ((e.ctx.regs 17).toNat = SYS_EXIT ∨ (e.ctx.regs 17).toNat = SYS_EXIT_GROUP))
    (not_fork : (e.ctx.regs 17).toNat ≠ SYS_FORK) (not_wait : (e.ctx.regs 17).toNat ≠ SYS_WAIT) (run : step e k = .user k') :
    Answers k me e k' := by
  obtain ⟨inv,home,slot,_,spaces⟩ := entered_inv user running awake e.ctx 8 0
  have awake1 : (stopped e.ctx 8 0 me).state = .Running := awake
  have there : me.state ≠ .Gone := by rw [awake]; simp
  have isRoot := me_root user running awake
  have bounds : ∀ i, argument e i < 2^64 := fun i => BitVec.isLt _
  cases ran : callRun e k me with
  | error why t =>
    obtain ⟨why',t',stops,_⟩ := call_stops user running awake call ran ((dispatch_quiet _ returns not_fork not_wait).error ran)
    rw [run] at stops
    cases stops
  | ok r t =>
    obtain ⟨granted,g',serves,denied⟩ := call_serves inv home slot awake1 bounds returns not_fork not_wait ran
    have image : imageOf (entered e.ctx 8 0 k me).mm g (stopped e.ctx 8 0 me) = imageAt k.mm me := by
      rw [imageAt_eq user.inv running there]
      unfold imageOf stopped
      dsimp only
      rw [spaces _ isRoot]
    have start : (imageOf (entered e.ctx 8 0 k me).mm g (stopped e.ctx 8 0 me)).heap_start = USER_HEAP_START :=
      (inv.heaps _ _ slot).1
    have bound : (imageOf (entered e.ctx 8 0 k me).mm g (stopped e.ctx 8 0 me)).heap_end ≤ USER_HEAP_LIMIT :=
      (inv.heaps _ _ slot).2
    obtain ⟨k1,back,after,table,_,_,same⟩ := call_served user running awake call ran serves (call_heap start bound)
    rw [run] at back
    cases back
    obtain ⟨q,slotQ,now⟩ := serves.image
    have slotQ' : k'.process_list k.current = some q := by rw [table]; exact slotQ
    obtain ⟨q',slotQ2,kept⟩ := serves.kept.mine _ slot
    obtain rfl : q' = q := Option.some.inj (slotQ2.symm.trans slotQ)
    have thereQ : q'.state ≠ .Gone := by
      rw [kept.state]
      exact there
    have result : imageAt k'.mm q' = (Eager.call granted (e.ctx.regs 17).toNat (argument e) (imageAt k.mm me) k.input).1 := by
      rw [imageAt_eq after.inv slotQ' thereQ,← image]
      refine Eq.trans ?_ now
      unfold imageOf
      rw [same _ (after.inv.link.root slotQ' thereQ)]
    refine ⟨r,q',?_,slotQ',?_⟩
    · unfold answer
      rw [call_run user running awake,ran]
    · rw [image] at denied
      cases granted with
      | true => exact .inl result
      | false =>
        have refused : Denied (e.ctx.regs 17).toNat (argument e) (imageAt k.mm me) k.input r := denied rfl
        exact .inr ⟨refused,result.trans refused.1⟩

/-- A step that has what it needs and comes back did what it should. -/
theorem step_spared (sound : Lifecycle.Sound (procs k)) (waits : WaitsWell k e) (affords : Affords k me e) (run : step e k = .user k') :
    Spared k me e k' := by
  have completes := step_completes user running awake waits affords run
  refine ⟨completes,fun i p other slot live => step_others user running awake sound waits run other slot live,
    step_stays running awake completes,fun calls => ?_,fun call lives not_fork not_wait => ?_⟩
  · have need := affords.call calls.1
    rw [calls.2] at need
    exact (fork_whole user running awake calls run).mpr need
  · refine call_answers user running awake call ?_ (fun fork => not_fork ⟨call,fork⟩) (fun wait => not_wait ⟨call,wait⟩) run
    rintro (exits | group)
    · exact lives (.inl ⟨call,exits⟩)
    · exact lives (.inr (.inl ⟨call,group⟩))

omit user awake in
/-- A machine that shuts down has no other process that lives. -/
theorem shutdown_alone (sound : Lifecycle.Sound (procs k)) {t : Kernel} (run : step e k = .halted .shutdown t) {i : Fin MAX_PROCESSES}
    {p : Process} (other : i ≠ k.current) (slot : k.process_list i = some p) : ¬ Live (header p) := by
  intro live
  obtain ⟨after,stuck⟩ : ∃ after, Lifecycle.Stuck (procs k) after := by
    have ends := step_ends running e
    rw [run] at ends
    exact ⟨_,ends⟩
  have dead := Lifecycle.stuck_dead sound stuck
  have kept : ∃ h, after i = some h ∧ Live h := by
    cases stuck with
    | block => exact ⟨header p,(Function.update_of_ne other _ _).trans (slots_some slot),live⟩
    | @die me' code here =>
      refine ⟨afterDeath me' (header p),?_,afterDeath_live.mpr live⟩
      have here' : (procs k).slots i = some (header p) := slots_some slot
      rw [dieSlots_eq sound here,if_neg (show i ≠ (procs k).current from other),here']
      rfl
  obtain ⟨h,here,lives⟩ := kept
  rcases dead i h here with zombie | gone
  · exact live_not_zombie lives zombie
  · exact live_not_gone lives gone

/-- A step that has what it needs comes back, and one that lacks it stops the machine or makes half a child. -/
theorem step_goes (sound : Lifecycle.Sound (procs k)) (tidy : Tidy me.mmap_areas) (waits : WaitsWell k e)
    (asks : e.action = .ecall ∨ ∃ va value, e.action = .store va value) (affords : Affords k me e) : Goes k e := by
  rcases asks with call | ⟨va,value,store⟩
  · have need := affords.call call
    by_cases exits : (e.ctx.regs 17).toNat = SYS_EXIT ∨ (e.ctx.regs 17).toNat = SYS_EXIT_GROUP
    · exact exit_ends user running awake (exits.imp (fun number => ⟨call,number⟩) fun number => ⟨call,number⟩)
    by_cases fork : (e.ctx.regs 17).toNat = SYS_FORK
    · rw [fork] at need
      rcases fork_cases user running awake ⟨call,fork⟩ with ⟨back,_⟩ | ⟨_,some_slot,short⟩
      · exact .inl back
      · rcases need with full | ⟨fits,_⟩
        · exact absurd full some_slot
        · exact absurd fits short
    by_cases wait : (e.ctx.regs 17).toNat = SYS_WAIT
    · rw [wait] at need
      rcases wait_goes user running awake sound waits ⟨call,wait⟩ with ⟨_,back⟩ | ⟨lacks,_⟩
      · exact .inl back
      · exact absurd need lacks
    rcases call_goes user running awake tidy call exits fork wait with ⟨_,back⟩ | ⟨lacks,_⟩
    · exact .inl back
    · exact absurd need lacks
  · rcases store_goes user running awake store with ⟨_,goes⟩ | ⟨lacks,_⟩
    · exact goes
    · exact absurd (affords.copy va value store) lacks

/-- A system call that survives had what it needs. -/
theorem survives_call (sound : Lifecycle.Sound (procs k)) (tidy : Tidy me.mmap_areas) (waits : WaitsWell k e)
    (survives : Survives k me e) (call : e.action = .ecall) : CallAffords k me (e.ctx.regs 17).toNat (argument e) := by
  have goes : Goes k e := survives.back.imp (fun ⟨k',run,_⟩ => ⟨k',run⟩) fun ⟨ending,shut,_⟩ => ⟨ending,shut⟩
  by_cases exits : (e.ctx.regs 17).toNat = SYS_EXIT ∨ (e.ctx.regs 17).toNat = SYS_EXIT_GROUP
  · rcases exits with exits | exits
    · rw [exits]
      exact trivial
    · rw [exits]
      exact trivial
  by_cases fork : (e.ctx.regs 17).toNat = SYS_FORK
  · rw [fork]
    rcases survives.back with ⟨k',run,spared⟩ | ⟨_,⟨t,shut⟩,_⟩
    · exact (fork_whole user running awake ⟨call,fork⟩ run).mp (spared.forked ⟨call,fork⟩)
    · rcases fork_cases user running awake ⟨call,fork⟩ with ⟨⟨k',run⟩,_⟩ | ⟨⟨p,t',_,run⟩,_⟩
      · rw [shut] at run
        cases run
      · rw [shut] at run
        cases run
  by_cases wait : (e.ctx.regs 17).toNat = SYS_WAIT
  · rw [wait]
    rcases wait_goes user running awake sound waits ⟨call,wait⟩ with ⟨affords,_⟩ | ⟨_,stops⟩
    · exact affords
    · exact absurd goes (stops_not_goes stops)
  rcases call_goes user running awake tidy call exits fork wait with ⟨affords,_⟩ | ⟨_,stops⟩
  · exact affords
  · exact absurd goes (stops_not_goes stops)

end

/-- Memory exhaustion. In every state that is reached, a system call or a store of the running process survives, however few
    frames are left, exactly when it has what it needs: frames for the whole child of a fork into an empty slot and for every
    shared copy-on-write page that a store, a buffer or a status word makes the kernel copy, buffers that the hart lets the
    kernel reach, a hint that can be rounded up, and the console where it is used. -/
theorem exhaustion_iff {cfg : Config} {k : Kernel} {me : Process} {e : Event} (reached : Reachable cfg WaitsWell k)
    (running : runner k = some me) (waits : WaitsWell k e) (asks : e.action = .ecall ∨ ∃ va value, e.action = .store va value) :
    Survives k me e ↔ Affords k me e := by
  obtain ⟨_,_,_,_,g,_,_,user⟩ := reachable_user false (fun k e (may : WaitsWell k e) => ⟨may,by simp⟩) reached
  obtain ⟨me',slot,awake⟩ := reachable_awake reached
  obtain rfl : me' = me := Option.some.inj (slot.symm.trans running)
  have sound := reachable_sound reached
  have tidy := Records.reachable_tidy reached slot (.inr (.inl awake))
  constructor
  · intro survives
    have goes : Goes k e := survives.back.imp (fun ⟨k',run,_⟩ => ⟨k',run⟩) fun ⟨ending,shut,_⟩ => ⟨ending,shut⟩
    refine ⟨survives_call user slot awake sound tidy waits survives,fun va value store => ?_,survives.console⟩
    rcases store_goes user slot awake store with ⟨affords,_⟩ | ⟨_,stops⟩
    · exact affords
    · exact absurd goes (stops_not_goes stops)
  · intro affords
    refine ⟨?_,affords.console⟩
    rcases step_goes user slot awake sound tidy waits asks affords with ⟨k',run⟩ | ⟨ending,t,shut⟩
    · exact .inl ⟨k',run,step_spared user slot awake sound waits affords run⟩
    · exact .inr ⟨ending,⟨t,shut⟩,fun i p other here => shutdown_alone slot sound shut other here⟩

/-- The first store of init to a page that it shares with its child survives. -/
theorem exhaustion_iff_at_shared : ∃ k me, Reachable (sample true) WaitsWell k ∧ runner k = some me ∧
    trapOf k heapStore = some (15,0x20000) ∧ Survives k me heapStore := by
  obtain ⟨history,o,k,g,init,child,run,_,shared⟩ := sample_shared
  have reached : Reachable (sample true) WaitsWell k := (plain_waits run).reachable
  have running : runner k = some init := shared.running
  have isRoot := me_root shared.user running shared.awake
  obtain ⟨traps,plain⟩ := shared.faults
  have no_call : heapStore.action ≠ .ecall := by
    unfold heapStore
    simp
  have affords : Affords k init heapStore := by
    refine ⟨fun call => absurd call no_call,fun va value store => ?_,?_⟩
    · exact (copyAffords_iff shared.user.inv.good isRoot va.toNat).mpr fun _ => shared.frames
    · rintro (kills | ⟨calls,_⟩ | ⟨calls,_⟩)
      · exact absurd kills plain.lives
      · exact absurd calls.1 no_call
      · exact absurd calls.1 no_call
  exact ⟨k,init,reached,running,traps,(exhaustion_iff reached running plain.waits (.inr ⟨_,_,rfl⟩)).mpr affords⟩

/-- Memory runs out in a panic: on a machine whose boot leaves next to no frames, init forks. -/
theorem exhaustion_not_survived : ∃ k me, Reachable (narrow 0) WaitsWell k ∧ runner k = some me ∧
    ¬ Survives k me (callEvent 220 []) := by
  obtain ⟨o,k,g,me,booted,stage,running,awake,few,_⟩ := @narrow_stage 0 (by omega)
  refine ⟨k,me,.boot booted,running,fun survives => ?_⟩
  have goes : Goes k (callEvent 220 []) :=
    survives.back.imp (fun ⟨k',run,_⟩ => ⟨k',run⟩) fun ⟨ending,shut,_⟩ => ⟨ending,shut⟩
  rcases fork_cases stage.user running awake (callEvent_calls 220 []) with ⟨_,full | fits⟩ | ⟨⟨p,t,_,run⟩,_⟩
  · rw [stage.procs] at full
    revert full
    decide +kernel
  · have pool := stage.user.inv.good.mirrors.pool
    have total : RAM_BASE+RAM_SIZE = RAM_END := rfl
    have eight : KERNEL_STACK_PAGES = 8 := rfl
    unfold StackFits at fits
    rw [pool.next,total,eight] at fits
    unfold room at few
    split at fits <;> omega
  · exact absurd goes (stops_not_goes ⟨.panicked p,t,run,by simp⟩)

end Unit00.Panics
